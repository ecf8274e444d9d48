import KindQuery.Proofs.Query.Collected
import KindQuery.Proofs.Query.Parameters
/-!
# Constants do not show in the text

The *mask* of a pipeline is the pipeline without its data: counts,
constants of a selector and compared constants are blotted out, but for
whether a compared constant is `NULL`, and captured constants become
literal ones. A pipeline that is translated has its mask translated to a
query of the same form (`translate_mask`). So two pipelines with one mask
are translated to queries of one form (`sameForm_of_mask_eq`): the data of
a query travels in the values of its parameters and nowhere else.
-/

namespace KindQuery

/-! ## Masks -/

/-- All that may show of a compared constant: whether it is `NULL`. -/
def Value.mask (v : Value) : Value := if v.isNull then .null else .text ""

namespace Expr

/-- A literal constant with another value. -/
def hide (f : Value → Value) : Expr → Expr
  | value v => .value (f v)
  | e => e

mutual

/-- A predicate without the constants that it compares. A constant in the
place of a condition stays, since it decides what is asked. -/
def mask : Expr → Expr
  | row => .row
  | member m => .member m
  | value v => .value v
  | captured c => .value c.first
  | negation e => .negation e.mask
  | comparison lhs op rhs =>
    .comparison (lhs.mask.hide Value.mask) op (rhs.mask.hide Value.mask)
  | conjunction es => .conjunction (maskEach es)
  | disjunction es => .disjunction (maskEach es)
  | call receiver name args => .call receiver.mask name (maskEach args)
  | record fields => .record (maskEach fields)

/-- The masks of several predicates. -/
def maskEach : List Expr → List Expr
  | [] => []
  | e :: es => e.mask :: maskEach es

end

mutual

/-- A selector without its constants. -/
def maskSelector : Expr → Expr
  | record fields => .record (maskSelectorEach fields)
  | e => e.mask.hide fun _ => .null

/-- The masks of several selectors. -/
def maskSelectorEach : List Expr → List Expr
  | [] => []
  | e :: es => e.maskSelector :: maskSelectorEach es

end

/-- A count without its value. -/
def maskCount (n : Expr) : Expr := n.mask.hide fun _ => .int64 0

end Expr

/-- A stage without its data. -/
def Stage.mask : Stage → Stage
  | filter e => .filter e.mask
  | project e => .project e.maskSelector
  | orderBy key direction => .orderBy key direction
  | take n => .take n.maskCount
  | skip n => .skip n.maskCount
  | terminal kind e => .terminal kind (e.map Expr.mask)

/-- A pipeline without its data. -/
def Pipeline.mask (p : Pipeline) : Pipeline := { p with stages := p.stages.map Stage.mask }

/-! ## Masked expressions -/

namespace Expr

variable {s : Schema}

theorem captures_hide {f : Value → Value} {e : Expr} : (e.hide f).captures = e.captures := by
  cases e <;> rfl

mutual

/-- A masked predicate reads nothing from its surroundings. -/
theorem captures_mask : ∀ e : Expr, e.mask.captures = []
  | .row | .member _ | .value _ | .captured _ => rfl
  | .negation e => captures_mask e
  | .comparison lhs op rhs => by
    rw [mask, captures, captures_hide, captures_hide, captures_mask lhs, captures_mask rhs]
    rfl
  | .conjunction es | .disjunction es | .record es => capturesOfAll_maskEach es
  | .call receiver name args => by
    rw [mask, captures, captures_mask receiver, capturesOfAll_maskEach args]
    rfl

theorem capturesOfAll_maskEach : ∀ es : List Expr, capturesOfAll (maskEach es) = []
  | [] => rfl
  | e :: es => by
    rw [maskEach, capturesOfAll, captures_mask e, capturesOfAll_maskEach es]
    rfl

end

theorem isConstant_mask (e : Expr) : e.mask.IsConstant := by
  rw [IsConstant, captures_mask]
  exact List.forall_mem_nil _

theorem constant?_mask {e : Expr} : e.mask.constant? = e.constant? := by cases e <;> rfl

theorem constant?_hide_mask {f : Value → Value} {e : Expr} :
    (e.mask.hide f).constant? = e.constant?.map f := by cases e <;> rfl

mutual

/-- A selector reads the same columns without its constants. -/
theorem sources_maskSelector : ∀ e : Expr, e.maskSelector.sources s = e.sources s
  | .record fields => sourcesOfAll_maskSelectorEach fields
  | .call receiver name args => by
    cases receiver <;> rfl
  | .row | .member _ | .value _ | .captured _ | .negation _ | .comparison _ _ _ | .conjunction _
  | .disjunction _ => rfl

theorem sourcesOfAll_maskSelectorEach :
    ∀ es : List Expr, sourcesOfAll s (maskSelectorEach es) = sourcesOfAll s es
  | [] => rfl
  | e :: es => by
    rw [maskSelectorEach, sourcesOfAll, sourcesOfAll, sources_maskSelector e,
      sourcesOfAll_maskSelectorEach es]

end

end Expr

/-! ## Conditions of one form -/

/-- What is written of a condition: the constant is not, only whether there
is one. -/
def Condition.form (c : Condition) : String × Comparison × Bool := (c.column, c.op, c.bindsParam)

namespace Condition

variable {n : Nat} {cs cs' : List Condition}

theorem countP_bindsParam_of_form (h : cs.map form = cs'.map form) :
    cs.countP bindsParam = cs'.countP bindsParam := by
  have hform : ∀ l : List Condition, l.countP bindsParam = (l.map form).countP (·.2.2) := by
    intro l
    rw [List.countP_map]
    rfl
  rw [hform, h, ← hform]

/-- Conditions of one form are written alike. -/
theorem clause_of_form (h : cs.map form = cs'.map form) : clause n cs = clause n cs' := by
  induction cs generalizing n cs' with
  | nil =>
    rw [List.map_nil, eq_comm, List.map_eq_nil_iff] at h
    rw [h]
  | cons c cs ih =>
    cases cs' with
    | nil => cases h
    | cons c' cs' =>
      obtain ⟨hc, hcs⟩ := List.cons.inj h
      obtain ⟨hcolumn, hop, hbinds⟩ : c.column = c'.column ∧ c.op = c'.op ∧
          c.bindsParam = c'.bindsParam := by simpa [form] using hc
      have hfragments : c.fragments (n + 1) = c'.fragments (n + 1) := by
        rw [fragments, fragments, hcolumn, hop, hbinds]
      by_cases hnil : cs = []
      · subst hnil
        rw [List.map_nil, eq_comm, List.map_eq_nil_iff] at hcs
        subst hcs
        exact hfragments
      · have hnil' : cs' ≠ [] := by
          rintro rfl
          exact hnil (List.map_eq_nil_iff.1 hcs)
        rw [clause_cons hnil, clause_cons hnil', hfragments, hbinds, ih hcs]

/-- And their parameters are named alike. -/
theorem map_name_params_of_form (h : cs.map form = cs'.map form) :
    (params n cs).map Param.name = (params n cs').map Param.name := by
  rw [map_name_params, map_name_params, countP_bindsParam_of_form h]

end Condition

/-- Conjunctions that differ in compared constants only. -/
structure Conjunction.SameForm (a b : Conjunction) : Prop where
  conditions : a.conditions.map Condition.form = b.conditions.map Condition.form
  shape : a.shape = b.shape
  inequality : a.inequality = b.inequality

namespace Conjunction.SameForm

variable {a a' b b' : Conjunction}

theorem refl (a : Conjunction) : a.SameForm a := ⟨rfl, rfl, rfl⟩

theorem append (ha : a.SameForm a') (hb : b.SameForm b') :
    (a.append b).SameForm (a'.append b') where
  conditions := by
    rw [Conjunction.append, Conjunction.append, List.map_append, List.map_append, ha.conditions,
      hb.conditions]
  shape := congrArg₂ Shape.union ha.shape hb.shape
  inequality := hb.inequality

end Conjunction.SameForm

section Conditions

variable {s : Schema} {i : Option String} {c : Conjunction}

/-- A masked constant is bound where the constant is. For the key field a
text does what a key does. -/
theorem Schema.exists_operandFor_mask {m : Member} {v : Value} {operand : Option Value}
    (h : s.operandFor m v = .ok operand) :
    ∃ operand', s.operandFor m v.mask = .ok operand' ∧ operand'.isSome = operand.isSome := by
  rcases Schema.operandFor_eq_ok.1 h with ⟨rfl, rfl⟩ | ⟨hv, hm, rfl⟩ | ⟨hm, hkey⟩
  · exact ⟨none, rfl, rfl⟩
  · have hmask : v.mask.isNull = false := by
      rw [Value.mask, hv]
      rfl
    exact ⟨_, Schema.operandFor_eq_ok.2 (.inr (.inl ⟨hmask, hm, rfl⟩)), rfl⟩
  · have hmask : v.mask = .text "" ∧ operand.isSome := by
      rcases hkey with ⟨name, rfl, rfl⟩ | ⟨k, rfl, rfl⟩ <;> exact ⟨rfl, rfl⟩
    exact ⟨_, Schema.operandFor_eq_ok.2 (.inr (.inr ⟨hm, .inl ⟨"", hmask.1, rfl⟩⟩)),
      hmask.2.symm⟩

theorem exists_comparisonCondition_mask {m : Member} {op : Comparison} {v : Value}
    (h : comparisonCondition s i m op v = .ok c) :
    ∃ c', comparisonCondition s i m op v.mask = .ok c' ∧ c.SameForm c' := by
  obtain ⟨column, i', operand, hcolumn, hi, hoperand, rfl⟩ := comparisonCondition_eq_ok.1 h
  obtain ⟨operand', hoperand', hsome⟩ := Schema.exists_operandFor_mask hoperand
  refine ⟨_, comparisonCondition_eq_ok.2 ⟨column, i', operand', hcolumn, hi, hoperand', rfl⟩, ?_⟩
  exact ⟨by simp [Condition.form, Condition.bindsParam, hsome], rfl, rfl⟩

mutual

/-- **A predicate amounts to conditions of the same form without its
constants.** -/
theorem Expr.exists_conditions_mask : ∀ (e : Expr) {i : Option String} {c : Conjunction},
    e.IsConstant → (e.conditions s i).now = .ok c →
      ∃ c', (e.mask.conditions s i).now = .ok c' ∧ c.SameForm c'
  | .value _, _, c, _, hc | .member _, _, c, _, hc => ⟨c, hc, .refl c⟩
  | .captured k, _, c, h, hc => by
    have hk : k.IsConstant := h k (by simp [Expr.captures])
    exact ⟨c, (Expr.now_conditions_captured hk).symm.trans hc, .refl c⟩
  | .negation e, _, c, h, hc => by
    refine ⟨c, (Expr.now_conditions_negation_eq_ok (Expr.isConstant_mask (.negation e))).2 ?_,
      .refl c⟩
    rcases (Expr.now_conditions_negation_eq_ok h).1 hc with ⟨m, rfl, hm⟩ | ⟨hconstant, hshape⟩
    · exact .inl ⟨m, rfl, hm⟩
    · exact .inr ⟨Expr.constant?_mask.trans hconstant, hshape⟩
  | .comparison lhs op rhs, _, c, h, hc => by
    obtain ⟨hop, hsides⟩ := (Expr.now_conditions_comparison_eq_ok h).1 hc
    have hmask := Expr.isConstant_mask (.comparison lhs op rhs)
    rcases hsides with ⟨m, v, rfl, hv, hm⟩ | ⟨m, v, hv, rfl, hm⟩
    · obtain ⟨c', hc', hform⟩ := exists_comparisonCondition_mask hm
      exact ⟨c', (Expr.now_conditions_comparison_eq_ok hmask).2 ⟨hop, .inl ⟨m, v.mask, rfl,
        by rw [Expr.constant?_hide_mask, hv]; rfl, hc'⟩⟩, hform⟩
    · obtain ⟨c', hc', hform⟩ := exists_comparisonCondition_mask hm
      exact ⟨c', (Expr.now_conditions_comparison_eq_ok hmask).2 ⟨hop, .inr ⟨m, v.mask,
        by rw [Expr.constant?_hide_mask, hv]; rfl, rfl, hc'⟩⟩, hform⟩
  | .conjunction es, _, _, h, hc => Expr.exists_conditionsOfAll_mask es h hc

theorem Expr.exists_conditionsOfAll_mask :
    ∀ (es : List Expr) {i : Option String} {c : Conjunction},
      (∀ k ∈ Expr.capturesOfAll es, k.IsConstant) → (Expr.conditionsOfAll s i es).now = .ok c →
        ∃ c', (Expr.conditionsOfAll s i (Expr.maskEach es)).now = .ok c' ∧ c.SameForm c'
  | [], _, c, _, hc => ⟨c, hc, .refl c⟩
  | e :: es, _, c, h, hc => by
    obtain ⟨a, b, ha, hb, rfl⟩ := (Expr.now_conditionsOfAll_cons h).1 hc
    have h := Expr.forall_mem_capturesOfAll_cons.1 h
    obtain ⟨a', ha', haform⟩ := Expr.exists_conditions_mask e h.1 ha
    obtain ⟨b', hb', hbform⟩ := Expr.exists_conditionsOfAll_mask es h.2 hb
    rw [haform.inequality] at hb'
    have hmask : ∀ k ∈ Expr.capturesOfAll (Expr.maskEach (e :: es)), k.IsConstant := by
      rw [Expr.capturesOfAll_maskEach]
      exact nofun
    exact ⟨a'.append b', (Expr.now_conditionsOfAll_cons hmask).2 ⟨a', b', ha', hb', rfl⟩,
      haform.append hbform⟩

end

end Conditions

/-! ## Drafts of one form -/

/-- Drafts that differ in the values of parameters only. -/
structure Draft.SameForm (d d' : Draft) : Prop where
  ast : d.ast = d'.ast
  names : d.params.map Param.name = d'.params.map Param.name
  bound : d.bound = d'.bound
  shape : d.shape = d'.shape
  inequality : d.inequality = d'.inequality

namespace Draft

variable {s : Schema} {mode : Mode} {d d' d₁ : Draft} {log log₁ : ReadLog}

namespace SameForm

theorem refl (d : Draft) : d.SameForm d := ⟨rfl, rfl, rfl, rfl, rfl⟩

theorem require (h : d.SameForm d') {c c' : Conjunction} (hc : c.SameForm c') :
    (d.require c).SameForm (d'.require c') := by
  have hshape : d.shape.union c.shape = d'.shape.union c'.shape :=
    congrArg₂ Shape.union h.shape hc.shape
  have hempty : c.conditions.isEmpty = c'.conditions.isEmpty := by
    simpa using congrArg List.isEmpty hc.conditions
  unfold Draft.require
  rw [← hempty]
  cases c.conditions.isEmpty with
  | true => exact ⟨h.ast, h.names, h.bound, hshape, hc.inequality⟩
  | false =>
    refine ⟨?_, ?_, ?_, hshape, hc.inequality⟩
    · simp only [Bool.false_eq_true, if_false, h.ast, h.bound,
        Condition.clause_of_form hc.conditions]
    · simp only [Bool.false_eq_true, if_false, List.map_append, h.names, h.bound,
        Condition.map_name_params_of_form hc.conditions]
    · simp only [Bool.false_eq_true, if_false, h.bound,
        Condition.countP_bindsParam_of_form hc.conditions]

theorem bindCount (h : d.SameForm d') (pg : Paging) (k k' : Int64) :
    (d.bindCount pg k).SameForm (d'.bindCount pg k') where
  ast := congrArg (Ast.push · pg.fragment) h.ast
  names := by simp [Draft.bindCount, h.names]
  bound := h.bound
  shape := h.shape
  inequality := h.inequality

theorem close (h : d.SameForm d') (kind : Terminal) : (d.close kind).SameForm (d'.close kind) where
  ast := congrArg (Ast.push · Paging.take.fragment) h.ast
  names := by simp [Draft.close, Draft.bindCount, h.names]
  bound := h.bound
  shape := congrArg (Shape.union · (.ofMarks (terminalMarks kind))) h.shape
  inequality := h.inequality

theorem filter (h : d.SameForm d') {e : Expr} (he : e.IsConstant)
    (hd : (d.filter s e).after log = (.ok d₁, log₁)) (log' : ReadLog) :
    ∃ d₁' log₁', (d'.filter s e.mask).after log' = (.ok d₁', log₁') ∧ d₁.SameForm d₁' := by
  obtain ⟨c, hc, rfl⟩ := filter_eq_ok.1 hd
  obtain ⟨c', hc', hform⟩ := e.exists_conditions_mask he (Expr.now_conditions he hc)
  rw [h.inequality] at hc'
  obtain ⟨log₁', hlog₁'⟩ : ∃ log₁', (e.mask.conditions s d'.inequality).after log' =
      (.ok c', log₁') :=
    (Expr.settled_conditions s _ _ (Expr.isConstant_mask e)).exists_after_eq_ok.2 hc'
  exact ⟨_, log₁', filter_eq_ok.2 ⟨c', hlog₁', rfl⟩, h.require hform⟩

theorem orderBy (h : d.SameForm d') {key : Expr} {dir : Direction}
    (hd : d.orderBy s key dir = .ok d₁) : ∃ d₁', d'.orderBy s key dir = .ok d₁' ∧
      d₁.SameForm d₁' := by
  obtain ⟨m, column, rfl, hone, hcolumn, rfl⟩ := orderBy_eq_ok.1 hd
  rw [h.ast] at hone
  refine ⟨_, orderBy_eq_ok.2 ⟨m, column, rfl, hone, hcolumn, rfl⟩, ?_⟩
  exact ⟨by simp [h.ast], h.names, h.bound, h.shape, h.inequality⟩

/-- Where a count is taken, zero is taken as well. -/
theorem page (h : d.SameForm d') {pg : Paging} {n : Expr}
    (hd : (d.page mode pg n).after log = (.ok d₁, log₁)) (log' : ReadLog) :
    ∃ d₁' log₁', (d'.page mode pg n.maskCount).after log' = (.ok d₁', log₁') ∧
      d₁.SameForm d₁' := by
  rcases page_eq_ok.1 hd with ⟨hfirst, k, hk, rfl⟩ | ⟨hmode, hagain, rfl, -⟩
  · rw [h.ast] at hfirst
    have hzero : (count pg n.maskCount).after log' = (.ok 0, log') := by
      cases n with
      | value v | captured c => cases pg <;> rfl
      | _ => cases hk
    exact ⟨_, log', page_eq_ok.2 (.inl ⟨hfirst, 0, hzero, rfl⟩), h.bindCount pg k 0⟩
  · rw [h.ast] at hagain
    exact ⟨d', log', page_eq_ok.2 (.inr ⟨hmode, hagain, rfl, rfl⟩), h⟩

/-- **A stage does the same without its data.** -/
theorem stage (h : d.SameForm d') {st : Stage} (hst : ∀ k ∈ st.captures, k.IsConstant)
    (hd : (Draft.stage s mode d st).after log = (.ok d₁, log₁)) (log' : ReadLog) :
    ∃ d₁' log₁', (Draft.stage s mode d' st.mask).after log' = (.ok d₁', log₁') ∧
      d₁.SameForm d₁' := by
  cases st with
  | filter e => exact h.filter hst hd log'
  | project e =>
    cases hd
    exact ⟨d', log', rfl, h⟩
  | orderBy key dir =>
    simp only [Draft.stage, Reading.after_ofExcept, Prod.mk.injEq] at hd
    obtain ⟨d₁', hd₁', hform⟩ := h.orderBy hd.1
    exact ⟨d₁', log', by simp [Draft.stage, Stage.mask, hd₁'], hform⟩
  | take n | skip n => exact h.page hd log'
  | terminal kind e =>
    cases e with
    | none =>
      cases hd
      exact ⟨_, log', rfl, h.close kind⟩
    | some e =>
      simp only [Draft.stage, Reading.after_bind_eq_ok, Reading.after_pure, Prod.mk.injEq,
        Except.ok.injEq] at hd
      obtain ⟨d₂, log₂, hd₂, rfl, rfl⟩ := hd
      obtain ⟨d₂', log₂', hd₂', hform⟩ := h.filter hst hd₂ log'
      refine ⟨_, log₂', ?_, hform.close kind⟩
      simp only [Stage.mask, Option.map_some, Draft.stage, Reading.after_bind_eq_ok,
        Reading.after_pure]
      exact ⟨d₂', log₂', hd₂', rfl⟩

/-- **And so do all stages of a pipeline.** -/
theorem foldlM (h : d.SameForm d') {stages : List Stage}
    (hst : ∀ st ∈ stages, ∀ k ∈ st.captures, k.IsConstant)
    (hd : Reading.after (stages.foldlM (Draft.stage s mode) d) log = (.ok d₁, log₁))
    (log' : ReadLog) :
    ∃ d₁' log₁', Reading.after ((stages.map Stage.mask).foldlM (Draft.stage s mode) d') log' =
      (.ok d₁', log₁') ∧ d₁.SameForm d₁' := by
  induction stages generalizing d d' log log' with
  | nil =>
    cases hd
    exact ⟨d', log', rfl, h⟩
  | cons st stages ih =>
    rw [List.foldlM_cons, Reading.after_bind_eq_ok] at hd
    obtain ⟨d₂, log₂, hd₂, hrest⟩ := hd
    obtain ⟨d₂', log₂', hd₂', hform⟩ := h.stage (hst st (by simp)) hd₂ log'
    obtain ⟨d₁', log₁', hd₁', hform'⟩ :=
      ih hform (fun st' hst' => hst st' (by simp [hst'])) hrest log₂'
    refine ⟨d₁', log₁', ?_, hform'⟩
    rw [List.map_cons, List.foldlM_cons, Reading.after_bind_eq_ok]
    exact ⟨d₂', log₂', hd₂', hd₁'⟩

theorem finalAst (h : d.SameForm d') : d.finalAst = d'.finalAst := by
  have hempty : d.params.isEmpty = d'.params.isEmpty := by
    simpa using congrArg List.isEmpty h.names
  rw [Draft.finalAst, Draft.finalAst, h.ast, h.shape, hempty]

end SameForm

end Draft

/-! ## Queries of one form -/

/-- Queries that differ in the values of parameters only, and in the
constants that a row is completed with. -/
structure Compiled.SameForm (c c' : Compiled) : Prop where
  kind : c.kind = c'.kind
  text : c.text = c'.text
  ast : c.ast = c'.ast
  columns : c.plan.columns = c'.plan.columns
  shape : c.shape = c'.shape
  terminal : c.terminal = c'.terminal
  names : c.params.map Param.name = c'.params.map Param.name

namespace Compiled.SameForm

variable {c c' c'' : Compiled}

theorem symm (h : c.SameForm c') : c'.SameForm c :=
  ⟨h.kind.symm, h.text.symm, h.ast.symm, h.columns.symm, h.shape.symm, h.terminal.symm,
    h.names.symm⟩

theorem trans (h : c.SameForm c') (h' : c'.SameForm c'') : c.SameForm c'' :=
  ⟨h.kind.trans h'.kind, h.text.trans h'.text, h.ast.trans h'.ast, h.columns.trans h'.columns,
    h.shape.trans h'.shape, h.terminal.trans h'.terminal, h.names.trans h'.names⟩

/-- Their requests have one text, and arguments of the same names. -/
theorem bind (h : c.SameForm c') {b b' : BoundQuery} (hb : c.bind = .ok b)
    (hb' : c'.bind = .ok b') : b.text = b'.text ∧
      b.arguments.map Prod.fst = b'.arguments.map Prod.fst ∧
      b.allowLiteral = b'.allowLiteral := by
  refine ⟨?_, ?_, ?_⟩
  · simp only [Compiled.bind, bind_eq_ok, Except.ok.injEq] at hb hb'
    obtain ⟨_, -, rfl⟩ := hb
    obtain ⟨_, -, rfl⟩ := hb'
    exact h.text
  · rw [Compiled.map_fst_of_bind hb, Compiled.map_fst_of_bind hb', h.names]
  · simp only [Compiled.bind, bind_eq_ok, Except.ok.injEq] at hb hb'
    obtain ⟨_, -, rfl⟩ := hb
    obtain ⟨_, -, rfl⟩ := hb'
    rfl

end Compiled.SameForm

/-! ## Pipelines -/

namespace Stage

variable {stages : List Stage}

theorem selector?_mask (st : Stage) : st.mask.selector? = st.selector?.map Expr.maskSelector := by
  cases st <;> rfl

theorem terminal?_mask (st : Stage) : st.mask.terminal? = st.terminal? := by cases st <;> rfl

theorem isTake_mask (st : Stage) : st.mask.isTake = st.isTake := by cases st <;> rfl

theorem findSome?_terminal?_mask :
    (stages.map mask).findSome? terminal? = stages.findSome? terminal? :=
  Pipeline.findSome?_map_of_forall terminal?_mask stages

theorem filterMap_selector?_mask : (stages.map mask).filterMap selector? =
    (stages.filterMap selector?).map Expr.maskSelector := by
  rw [List.filterMap_map, List.map_filterMap]
  exact congrArg (stages.filterMap ·) (funext selector?_mask)

end Stage

theorem TerminalLast.mask {stages : List Stage} (h : TerminalLast stages) :
    TerminalLast (stages.map Stage.mask) := by
  rcases h with hnone | ⟨before, kind, e, rfl, hb⟩
  · refine .inl fun st hst => ?_
    obtain ⟨st', hst', rfl⟩ := List.mem_map.1 hst
    rw [Stage.terminal?_mask, hnone st' hst']
  · refine .inr ⟨before.map Stage.mask, kind, e.map Expr.mask, by simp [Stage.mask], ?_⟩
    intro st hst
    obtain ⟨st', hst', rfl⟩ := List.mem_map.1 hst
    rw [Stage.terminal?_mask, Stage.isTake_mask]
    exact hb st' hst'

namespace Pipeline

variable {p q : Pipeline} {mode : Mode} {log log' log₁ log₁' : ReadLog} {c c' : Compiled}

/-- The plan asks for the same columns. -/
theorem exists_plan_mask {plan : Plan} (h : p.plan = .ok plan) :
    ∃ plan', p.mask.plan = .ok plan' ∧ plan.columns = plan'.columns := by
  have hselector : p.mask.stages.findSome? Stage.selector? =
      (p.stages.findSome? Stage.selector?).map Expr.maskSelector := by
    rw [← List.head?_filterMap, ← List.head?_filterMap]
    exact (congrArg List.head? Stage.filterMap_selector?_mask).trans List.head?_map
  unfold Pipeline.plan at h ⊢
  rw [hselector]
  cases hs : p.stages.findSome? Stage.selector? with
  | none =>
    rw [hs] at h
    exact ⟨_, rfl, (congrArg Plan.columns (Except.ok.inj h)).symm⟩
  | some selector =>
    simp only [hs, Schema.plan, bind_eq_ok, Except.ok.injEq] at h
    obtain ⟨sources, hsources, rfl⟩ := h
    refine ⟨⟨requiredColumns sources, selector.maskSelector⟩, ?_, rfl⟩
    simp only [Option.map_some, Schema.plan, bind_eq_ok, Except.ok.injEq]
    exact ⟨sources, (selector.sources_maskSelector).trans hsources, rfl⟩

/-- **A pipeline is translated to a query of the same form without its
data.** -/
theorem translate_mask (hp : p.IsConstant)
    (h : (p.translate mode).after log = (.ok c, log')) (log₁ : ReadLog) :
    ∃ c' log₁', (p.mask.translate mode).after log₁ = (.ok c', log₁') ∧ c.SameForm c' := by
  obtain ⟨hcheck, plan, d, text, hplan, hd, htext, rfl⟩ := translate_eq_ok.1 h
  obtain ⟨hone, hlast⟩ := checkStages_eq_ok.1 hcheck
  obtain ⟨plan', hplan', hcolumns⟩ := exists_plan_mask hplan
  have hcheck' : checkStages p.mask.stages = .ok () := by
    refine checkStages_eq_ok.2 ⟨?_, hlast.mask⟩
    rw [Pipeline.mask, Stage.filterMap_selector?_mask, List.length_map]
    exact hone
  have hstart : Draft.start p.schema plan = Draft.start p.schema plan' := by
    have hcolumnText : plan.columnText = plan'.columnText := by
      rw [Plan.columnText, Plan.columnText, Plan.selectsAll, Plan.selectsAll, hcolumns]
    rw [Draft.start, Draft.start, hcolumnText]
  obtain ⟨d', log₁', hd', hform⟩ := (Draft.SameForm.refl _).foldlM hp hd log₁
  rw [hstart] at hd'
  rw [hform.finalAst] at htext
  refine ⟨_, log₁', translate_eq_ok.2 ⟨hcheck', plan', d', text, hplan', hd', htext, rfl⟩, ?_⟩
  exact ⟨rfl, rfl, hform.finalAst, hcolumns, hform.shape,
    Stage.findSome?_terminal?_mask.symm, hform.names⟩

/-- **What is bound does not show.** Two pipelines that differ in compared
constants, in counts and in the constants of a selector are translated, if
they are, to one text of one form with parameters of the same names. So
are the requests that are sent for them. -/
theorem sameForm_of_mask_eq (hmask : p.mask = q.mask) (hp : p.IsConstant) (hq : q.IsConstant)
    (hc : (p.translate mode).after log = (.ok c, log'))
    (hc' : (q.translate mode).after log₁ = (.ok c', log₁')) :
    c.SameForm c' ∧ ∀ b b', c.bind = .ok b → c'.bind = .ok b' →
      b.text = b'.text ∧ b.arguments.map Prod.fst = b'.arguments.map Prod.fst ∧
        b.allowLiteral = b'.allowLiteral := by
  obtain ⟨m, logm, hm, hform⟩ := translate_mask hp hc []
  obtain ⟨m', logm', hm', hform'⟩ := translate_mask hq hc' []
  rw [← hmask, hm] at hm'
  cases hm'
  have h : c.SameForm c' := hform.trans hform'.symm
  exact ⟨h, fun b b' => h.bind⟩

/-- Ada if she is over five, with a remark. -/
def sampleAda : Pipeline where
  schema := sample.schema
  stages :=
    [.filter (.conjunction [.field "Adult",
        .comparison (.field "Id") .eq (.value (.text "ada"))]),
      .filter (.comparison (.captured ⟨0, .int32 5, []⟩) .lt (.field "Age")),
      .project (.record [.field "Age", .value (.text "remark")]),
      .take (.captured ⟨1, .int32 3, []⟩)]

/-- Grace if she is over seventy: the key, a number in its place, another
remark and another limit. -/
def sampleGrace : Pipeline where
  schema := sample.schema
  stages :=
    [.filter (.conjunction [.field "Adult",
        .comparison (.field "Id") .eq (.captured ⟨7, .key ⟨"Person", "grace"⟩, []⟩)]),
      .filter (.comparison (.value (.int64 70)) .lt (.field "Age")),
      .project (.record [.field "Age", .captured ⟨8, .bool true, []⟩]),
      .take (.value (.int64 100))]

theorem sameForm_sample :
    ∃ c c' log log', (sampleAda.translate .strict).after [] = (.ok c, log) ∧
      (sampleGrace.translate .strict).after [] = (.ok c', log') ∧
      Param.find? Param.takeName c.params = some (.int64 3) ∧
      Param.find? Param.takeName c'.params = some (.int64 100) ∧ c.SameForm c' := by
  have hmask : sampleAda.mask = sampleGrace.mask := rfl
  have hada : sampleAda.IsConstant := by
    simp [IsConstant, sampleAda, Stage.captures, Expr.captures, Expr.capturesOfAll, Expr.field,
      Captured.IsConstant]
  have hgrace : sampleGrace.IsConstant := by
    simp [IsConstant, sampleGrace, Stage.captures, Expr.captures, Expr.capturesOfAll, Expr.field,
      Captured.IsConstant]
  obtain ⟨c, log, hc⟩ : ∃ c log, (sampleAda.translate .strict).after [] = (.ok c, log) :=
    ⟨_, _, rfl⟩
  obtain ⟨c', log', hc'⟩ : ∃ c' log', (sampleGrace.translate .strict).after [] = (.ok c', log') :=
    ⟨_, _, rfl⟩
  have hform := (sameForm_of_mask_eq hmask hada hgrace hc hc').1
  cases hc
  cases hc'
  exact ⟨_, _, _, _, rfl, rfl, rfl, rfl, hform⟩

end Pipeline

end KindQuery
