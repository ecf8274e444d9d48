import KindQuery.Proofs.Query.Run
/-!
# Conjunctions

It does not matter how a conjunction is written: nested or flat, as one
filter or as several, in a terminal stage or in a filter before it. What
counts is the sequence of the *leaves* of a predicate, which is what is left
when its conjunctions are taken apart. A draft takes up a predicate as it
takes up its leaves one by one (`Draft.filter_eq_foldlM`), so that two ways
of writing are compared leaf by leaf, errors and readings included.

The literal `true` among the leaves leaves a mark and nothing else. A mark is
carried through all that follows (`Draft.foldlM_mark`), and the text does not
depend on it, since a `WHERE` that has been written always stays.
-/

namespace KindQuery

/-! ## Leaves -/

namespace Expr

mutual

/-- The leaves of a predicate: what its conjunctions conjoin, from left to
right. -/
def leaves : Expr → List Expr
  | conjunction es => leavesOfAll es
  | e => [e]

/-- The leaves of several predicates. -/
def leavesOfAll : List Expr → List Expr
  | [] => []
  | e :: es => e.leaves ++ leavesOfAll es

end

theorem leavesOfAll_append (xs ys : List Expr) :
    leavesOfAll (xs ++ ys) = leavesOfAll xs ++ leavesOfAll ys := by
  induction xs with
  | nil => rfl
  | cons x xs ih => rw [List.cons_append, leavesOfAll, leavesOfAll, ih, List.append_assoc]

theorem leavesOfAll_conjuncts (e : Expr) : leavesOfAll e.conjuncts = e.leaves := by
  cases e with
  | conjunction es => rfl
  | _ => exact List.append_nil _

/-- A conjunction of two has the leaves of both, whether it takes in their
operands or not. -/
theorem leaves_and (a b : Expr) : (a.and b).leaves = a.leaves ++ b.leaves := by
  rw [Expr.and, leaves, leavesOfAll_append, leavesOfAll_conjuncts, leavesOfAll_conjuncts]

/-- The literal `true` has been inserted among the leaves. -/
def GainsTruth (e e' : Expr) : Prop :=
  ∃ xs ys, e.leaves = xs ++ ys ∧ e'.leaves = xs ++ .value (.bool true) :: ys

end Expr

namespace Stage

/-- A stage with its predicate as a flat conjunction. -/
def flatten : Stage → Stage
  | filter e => .filter (.conjunction e.leaves)
  | terminal kind (some e) => .terminal kind (some (.conjunction e.leaves))
  | st => st

/-- A stage without its predicate. -/
def frame : Stage → Stage
  | filter _ => .filter .row
  | terminal kind _ => .terminal kind none
  | st => st

/-- The literal `true` has been inserted among the leaves of the predicate of
a stage. -/
inductive GainsTruth : Stage → Stage → Prop
  | filter {e e' : Expr} : e.GainsTruth e' → GainsTruth (.filter e) (.filter e')
  | terminal {kind : Terminal} {e e' : Expr} :
      e.GainsTruth e' → GainsTruth (.terminal kind (some e)) (.terminal kind (some e'))

theorem frame_flatten (st : Stage) : st.flatten.frame = st.frame := by
  match st with
  | filter _ | project _ | orderBy _ _ | take _ | skip _ | terminal _ none | terminal _ (some _) =>
    rfl

theorem GainsTruth.frame_eq {st st' : Stage} (h : st.GainsTruth st') : st.frame = st'.frame := by
  cases h <;> rfl

theorem selector?_frame (st : Stage) : st.frame.selector? = st.selector? := by cases st <;> rfl

theorem terminal?_frame (st : Stage) : st.frame.terminal? = st.terminal? := by cases st <;> rfl

theorem isTake_frame (st : Stage) : st.frame.isTake = st.isTake := by cases st <;> rfl

end Stage

/-! ## Conjunctions one after the other -/

theorem Shape.union_empty (a : Shape) : a.union .empty = a := by
  ext m
  simp

theorem Shape.union_assoc (a b c : Shape) : (a.union b).union c = a.union (b.union c) := by
  ext m
  simp [Bool.or_assoc]

theorem Shape.union_right_comm (a b c : Shape) :
    (a.union b).union c = (a.union c).union b := by
  ext m
  simp [Bool.or_right_comm]

/-- The mark that the literal `true` leaves. -/
def truthMark : Shape := .ofMarks [.hasConstantBoolean]

namespace Draft

variable {s : Schema} {mode : Mode} {d : Draft}

theorem require_none (d : Draft) : d.require (.none d.inequality) = d := by
  rw [require, Conjunction.none, Shape.union_empty]
  rfl

theorem require_of_ne_nil {c : Conjunction} (hc : c.conditions ≠ []) :
    d.require c =
      { ast := ⟨d.ast.fragments ++ (if d.ast.hasCondition then .and else .condition) ::
          Condition.clause d.bound c.conditions⟩
        params := d.params ++ Condition.params d.bound c.conditions
        bound := d.bound + c.conditions.countP Condition.bindsParam
        shape := d.shape.union c.shape
        inequality := c.inequality } := by
  rw [← fragments_require hc]
  simp only [require, List.isEmpty_iff, hc, if_false]

/-- Two conjunctions can be taken up one after the other: the second one is
joined to the first one, and its parameters are numbered on. -/
theorem require_append (d : Draft) (a b : Conjunction) :
    d.require (a.append b) = (d.require a).require b := by
  by_cases ha : a.conditions = []
  · simp only [require, Conjunction.append, ha, List.nil_append, List.isEmpty_nil, if_true,
      Shape.union_assoc]
  by_cases hb : b.conditions = []
  · simp only [require, Conjunction.append, hb, ha, List.append_nil, List.isEmpty_nil,
      List.isEmpty_iff, if_true, if_false, Shape.union_assoc]
  · have hab : (a.append b).conditions ≠ [] := List.append_ne_nil_of_left_ne_nil ha _
    -- There is a `WHERE` for the second one to be joined to.
    have hjoined : (d.require a).ast.hasCondition = true := by
      rw [Ast.hasCondition, Ast.contains, fragments_require ha, List.any_append, List.any_cons]
      cases hd : d.ast.hasCondition with
      | true =>
        rw [Ast.hasCondition, Ast.contains] at hd
        rw [hd, Bool.true_or]
      | false => simp [Fragment.kindOf]
    rw [require_of_ne_nil hb, hjoined, require_of_ne_nil hab, require_of_ne_nil ha,
      Conjunction.append, Condition.clause_append ha hb, Condition.params_append,
      List.countP_append, Shape.union_assoc]
    simp [Nat.add_assoc]

/-! ## Leaf by leaf -/

theorem filter_conjunction_nil : d.filter s (.conjunction []) = pure d := by
  change (do pure (d.require (.none d.inequality))) = (pure d : Reading Draft)
  rw [require_none]

theorem filter_conjunction_cons {e : Expr} {es : List Expr} :
    d.filter s (.conjunction (e :: es)) =
      d.filter s e >>= fun d' => d'.filter s (.conjunction es) := by
  have hinequality : ∀ a, (d.require a).inequality = a.inequality := by
    intro a
    unfold require
    split <;> rfl
  simp only [filter, Expr.conditions, Expr.conditionsOfAll, bind_assoc, pure_bind, hinequality,
    require_append]

/-- A conjunction is taken up operand by operand. -/
theorem filter_conjunction {es : List Expr} :
    d.filter s (.conjunction es) = es.foldlM (filter s) d := by
  induction es generalizing d with
  | nil => exact filter_conjunction_nil
  | cons e es ih =>
    rw [filter_conjunction_cons, List.foldlM_cons]
    exact bind_congr fun d' => ih

mutual

/-- **A predicate is taken up leaf by leaf.** -/
theorem filter_eq_foldlM : ∀ (e : Expr) (d : Draft), d.filter s e = e.leaves.foldlM (filter s) d
  | .conjunction es, d => filter_conjunction_eq_foldlM es d
  | .row, d | .member _, d | .value _, d | .captured _, d | .negation _, d
  | .comparison _ _ _, d | .disjunction _, d | .call _ _ _, d | .record _, d => by
    rw [Expr.leaves, List.foldlM_cons]
    · exact (bind_pure _).symm
    · exact nofun

theorem filter_conjunction_eq_foldlM : ∀ (es : List Expr) (d : Draft),
    d.filter s (.conjunction es) = (Expr.leavesOfAll es).foldlM (filter s) d
  | [], d => filter_conjunction_nil
  | e :: es, d => by
    rw [filter_conjunction_cons, Expr.leavesOfAll, List.foldlM_append, filter_eq_foldlM e d]
    exact bind_congr fun d' => filter_conjunction_eq_foldlM es d'

end

/-- A flat conjunction does what the predicate of a stage does. -/
theorem stage_flatten (st : Stage) : stage s mode d st.flatten = stage s mode d st := by
  have hflat : ∀ e : Expr, d.filter s (.conjunction e.leaves) = d.filter s e := fun e =>
    filter_conjunction.trans (filter_eq_foldlM e d).symm
  match st with
  | .filter e => exact hflat e
  | .terminal kind (some e) =>
    rw [Stage.flatten, stage, stage, hflat]
  | .project _ | .orderBy _ _ | .take _ | .skip _ | .terminal _ none => rfl

/-- The predicate of a terminal stage is a filter before it. -/
theorem stage_terminal_some {kind : Terminal} {e : Expr} :
    stage s mode d (.terminal kind (some e)) =
      d.filter s e >>= fun d' => stage s mode d' (.terminal kind none) := rfl

theorem foldlM_map_filter {es : List Expr} :
    (es.map Stage.filter).foldlM (stage s mode) d = d.filter s (.conjunction es) := by
  rw [List.foldlM_map, filter_conjunction]
  rfl

/-! ## The mark of a truth -/

/-- A draft with the mark that the literal `true` leaves. -/
def mark (d : Draft) : Draft := { d with shape := d.shape.union truthMark }

theorem filter_true : d.filter s (.value (.bool true)) = pure d.mark := rfl

theorem require_mark (d : Draft) (c : Conjunction) : d.mark.require c = (d.require c).mark := by
  rw [require, require, mark, Shape.union_right_comm]
  split <;> rfl

theorem close_mark (d : Draft) (kind : Terminal) : d.mark.close kind = (d.close kind).mark := by
  simp only [close, mark, bindCount, Shape.union_right_comm]

theorem filter_mark (e : Expr) (d : Draft) : d.mark.filter s e = mark <$> d.filter s e := by
  simp only [filter, map_bind, map_pure, ← require_mark]
  rfl

theorem orderBy_mark (key : Expr) (dir : Direction) (d : Draft) :
    d.mark.orderBy s key dir = mark <$> d.orderBy s key dir := by
  cases hd : d.ast.contains (.orderBy dir) with
  | true => simp [orderBy, mark, hd, Fault.raise]
  | false =>
    cases key with
    | member m => cases hm : s.column m <;> simp [orderBy, mark, hd, hm]
    | _ => simp [orderBy, mark, hd, Fault.raise]

theorem page_mark (pg : Paging) (n : Expr) (d : Draft) :
    d.mark.page mode pg n = mark <$> d.page mode pg n := by
  unfold page
  change (if d.ast.contains pg.fragment then _ else _) = _
  split
  · cases mode <;> rfl
  · simp only [map_bind, map_pure]
    rfl

/-- Nothing that a stage does depends on the mark. -/
theorem stage_mark (st : Stage) (d : Draft) :
    stage s mode d.mark st = mark <$> stage s mode d st := by
  match st with
  | .filter e => exact filter_mark e d
  | .project _ => rfl
  | .orderBy key dir =>
    rw [stage, stage, orderBy_mark]
    cases d.orderBy s key dir <;> rfl
  | .take n => exact page_mark .take n d
  | .skip n => exact page_mark .skip n d
  | .terminal kind none => rw [stage, stage, close_mark, map_pure]
  | .terminal kind (some e) =>
    simp only [stage, filter_mark, map_bind, bind_map_left, map_pure, close_mark]

/-- **A mark is carried through a walk** of which each step carries it. -/
theorem foldlM_mark {α : Type} {f : Draft → α → Reading Draft}
    (hf : ∀ d a, f d.mark a = mark <$> f d a) (as : List α) (d : Draft) :
    as.foldlM f d.mark = mark <$> as.foldlM f d := by
  induction as generalizing d with
  | nil => rfl
  | cons a as ih =>
    rw [List.foldlM_cons, List.foldlM_cons, hf, bind_map_left, map_bind]
    exact bind_congr ih

/-- A predicate with one more truth leaves the mark, wherever the truth is
among its leaves. -/
theorem filter_of_gainsTruth {e e' : Expr} (h : e.GainsTruth e') (d : Draft) :
    d.filter s e' = mark <$> d.filter s e := by
  obtain ⟨xs, ys, he, he'⟩ := h
  rw [filter_eq_foldlM e, filter_eq_foldlM e', he, he', List.foldlM_append, List.foldlM_append,
    map_bind]
  refine bind_congr fun d' => ?_
  rw [List.foldlM_cons, filter_true, pure_bind]
  exact foldlM_mark (fun d e => filter_mark e d) ys d'

theorem stage_of_gainsTruth {st st' : Stage} (h : st.GainsTruth st') (d : Draft) :
    stage s mode d st' = mark <$> stage s mode d st := by
  cases h with
  | filter h => exact filter_of_gainsTruth h d
  | terminal h =>
    simp only [stage, filter_of_gainsTruth h, map_bind, bind_map_left, map_pure, close_mark]

theorem Keeps.mark {l : Ledger} (h : d.Keeps l) :
    d.mark.Keeps { l with shape := l.shape.union truthMark } :=
  { h with shape := congrArg (Shape.union · truthMark) h.shape }

end Draft

/-! ## Pipelines -/

/-- Chains of stages that are the same but for their predicates, as far as
it is seen before they are walked. -/
structure SameFrame (xs ys : List Stage) : Prop where
  check : Pipeline.checkStages xs = Pipeline.checkStages ys
  selector : xs.findSome? Stage.selector? = ys.findSome? Stage.selector?
  terminal : xs.findSome? Stage.terminal? = ys.findSome? Stage.terminal?

namespace SameFrame

variable {xs ys before : List Stage}

theorem of_frame_eq (h : xs.map Stage.frame = ys.map Stage.frame) : SameFrame xs ys := by
  have hcheck : ∀ stages : List Stage,
      Pipeline.checkStages (stages.map Stage.frame) = Pipeline.checkStages stages :=
    Pipeline.checkStages_map (fun st => by rw [Stage.selector?_frame]) Stage.terminal?_frame
      Stage.isTake_frame
  have hselector := Pipeline.findSome?_map_of_forall Stage.selector?_frame
  have hterminal := Pipeline.findSome?_map_of_forall Stage.terminal?_frame
  refine ⟨?_, ?_, ?_⟩
  · rw [← hcheck xs, h, hcheck ys]
  · rw [← hselector xs, h, hselector ys]
  · rw [← hterminal xs, h, hterminal ys]

theorem symm (h : SameFrame xs ys) : SameFrame ys xs :=
  ⟨h.check.symm, h.selector.symm, h.terminal.symm⟩

theorem trans {zs : List Stage} (h : SameFrame xs ys) (h' : SameFrame ys zs) : SameFrame xs zs :=
  ⟨h.check.trans h'.check, h.selector.trans h'.selector, h.terminal.trans h'.terminal⟩

/-- Filters before the first terminal stage do not show. -/
theorem insert_filters (hb : ∀ st ∈ before, st.terminal? = none) (es : List Expr)
    (after : List Stage) : SameFrame (before ++ es.map .filter ++ after) (before ++ after) := by
  have hno : ∀ {β : Type} {f : Stage → Option β}, (∀ e, f (.filter e) = none) →
      (es.map Stage.filter).findSome? f = none := by
    intro β f hf
    rw [List.findSome?_eq_none_iff, List.forall_mem_map]
    exact fun e _ => hf e
  refine ⟨?_, ?_, ?_⟩
  · have hpass : ∀ st ∈ before ++ es.map Stage.filter, st.terminal?.isNone = true := by
      intro st hst
      rcases List.mem_append.1 hst with hst | hst
      · rw [hb st hst]
        rfl
      · obtain ⟨e, -, rfl⟩ := List.mem_map.1 hst
        rfl
    have hpass' : ∀ st ∈ before, st.terminal?.isNone = true := fun st hst =>
      hpass st (List.mem_append_left _ hst)
    have hselectors : (es.map Stage.filter).filterMap Stage.selector? = [] := by
      rw [List.filterMap_map, List.filterMap_eq_nil_iff]
      exact fun e _ => rfl
    have htakes : (es.map Stage.filter).any Stage.isTake = false := by
      rw [List.any_map, List.any_eq_false]
      exact fun e _ => Bool.false_ne_true
    simp only [Pipeline.checkStages, List.dropWhile_append_of_pos hpass,
      List.dropWhile_append_of_pos hpass', List.takeWhile_append_of_pos hpass,
      List.takeWhile_append_of_pos hpass', List.filterMap_append, hselectors, List.append_nil,
      List.any_append, htakes, Bool.or_false]
  · rw [List.findSome?_append, List.findSome?_append, List.findSome?_append,
      hno fun _ => rfl, Option.or_none]
  · rw [List.findSome?_append, List.findSome?_append, List.findSome?_append,
      hno fun _ => rfl, Option.or_none]

end SameFrame

namespace Compiled

/-- A query with the mark that the literal `true` leaves. -/
def mark (c : Compiled) : Compiled := { c with shape := c.shape.union truthMark }

end Compiled

namespace Pipeline

variable {s : Schema} {mode : Mode} {xs ys before after : List Stage}

/-- Chains of one frame that are walked alike are translated alike. -/
theorem translate_of_walk_eq (h : SameFrame xs ys)
    (hwalk : ∀ d, xs.foldlM (Draft.stage s mode) d = ys.foldlM (Draft.stage s mode) d) :
    (mk s xs).translate mode = (mk s ys).translate mode := by
  simp only [translate, plan, h.check, h.selector, h.terminal, hwalk]

/-- If the second walk leaves one mark more, so does the translation. The
text is the same: no `WHERE` is dropped for the mark. -/
theorem translate_of_walk_mark (h : SameFrame xs ys)
    (hwalk : ∀ d, xs.foldlM (Draft.stage s mode) d =
      Draft.mark <$> ys.foldlM (Draft.stage s mode) d) :
    (mk s xs).translate mode = Compiled.mark <$> (mk s ys).translate mode := by
  refine Reading.ext fun log => ?_
  simp only [translate, map_bind, map_pure, plan, h.check, h.selector, h.terminal, hwalk,
    bind_map_left]
  refine Reading.after_bind_congr rfl fun _ log₁ hcheck => ?_
  refine Reading.after_bind_congr rfl fun plan log₂ hplan => ?_
  refine Reading.after_bind_congr rfl fun d log₃ hd => ?_
  have hlast : TerminalLast ys :=
    (checkStages_eq_ok.1 (Prod.mk.inj hcheck).1).2
  obtain ⟨l, -, hk⟩ := Draft.keeps_start.exists_run_of_terminalLast hlast rfl hd
  have hast : d.mark.finalAst = d.finalAst := by
    rw [hk.mark.finalAst_eq, hk.finalAst_eq]
    rfl
  rw [hast]
  rfl

/-- Predicates with the same leaves are translated alike, in whatever stages
they are. -/
theorem translate_of_flatten_eq (h : xs.map Stage.flatten = ys.map Stage.flatten) :
    (mk s xs).translate mode = (mk s ys).translate mode := by
  have hframe : ∀ stages : List Stage,
      (stages.map Stage.flatten).map Stage.frame = stages.map Stage.frame := by
    intro stages
    rw [List.map_map]
    exact congrArg (stages.map ·) (funext Stage.frame_flatten)
  have hwalk : ∀ (stages : List Stage) (d : Draft),
      (stages.map Stage.flatten).foldlM (Draft.stage s mode) d =
        stages.foldlM (Draft.stage s mode) d := by
    intro stages d
    simp only [List.foldlM_map, Draft.stage_flatten]
  refine translate_of_walk_eq (.of_frame_eq ?_) fun d => ?_
  · rw [← hframe xs, h, hframe ys]
  · rw [← hwalk xs, h, hwalk ys]

/-- A conjunction before the first terminal stage may be cut into filters. -/
theorem translate_filter_conjunction (hb : ∀ st ∈ before, st.terminal? = none) (es : List Expr) :
    (mk s (before ++ .filter (.conjunction es) :: after)).translate mode =
      (mk s (before ++ es.map .filter ++ after)).translate mode := by
  have hone : SameFrame (before ++ .filter (.conjunction es) :: after) (before ++ after) := by
    have h := SameFrame.insert_filters hb [.conjunction es] after
    rwa [List.append_assoc] at h
  have hall := SameFrame.insert_filters hb es after
  refine translate_of_walk_eq (hone.trans hall.symm) fun d => ?_
  rw [List.append_assoc, List.foldlM_append, List.foldlM_append]
  refine bind_congr fun d' => ?_
  rw [List.foldlM_append, Draft.foldlM_map_filter, List.foldlM_cons]
  rfl

/-- The predicate of a terminal stage may be a filter before it. -/
theorem translate_terminal_some (hb : ∀ st ∈ before, st.terminal? = none) (kind : Terminal)
    (e : Expr) :
    (mk s (before ++ .terminal kind (some e) :: after)).translate mode =
      (mk s (before ++ .filter e :: .terminal kind none :: after)).translate mode := by
  have hfilter : SameFrame (before ++ .filter e :: .terminal kind none :: after)
      (before ++ .terminal kind none :: after) := by
    have h := SameFrame.insert_filters hb [e] (.terminal kind none :: after)
    rwa [List.append_assoc] at h
  have hterminal : SameFrame (before ++ .terminal kind (some e) :: after)
      (before ++ .terminal kind none :: after) := by
    refine .of_frame_eq ?_
    simp [Stage.frame]
  refine translate_of_walk_eq (hterminal.trans hfilter.symm) fun d => ?_
  simp only [List.foldlM_append, List.foldlM_cons, Draft.stage_terminal_some, bind_assoc]
  rfl

/-- A truth among the leaves of a predicate leaves its mark. -/
theorem translate_of_gainsTruth {st st' : Stage} (h : st.GainsTruth st') :
    (mk s (before ++ st' :: after)).translate mode =
      Compiled.mark <$> (mk s (before ++ st :: after)).translate mode := by
  refine translate_of_walk_mark (.of_frame_eq ?_) fun d => ?_
  · rw [List.map_append, List.map_append, List.map_cons, List.map_cons, h.frame_eq]
  · rw [List.foldlM_append, List.foldlM_append, map_bind]
    refine bind_congr fun d' => ?_
    rw [List.foldlM_cons, List.foldlM_cons, Draft.stage_of_gainsTruth h, bind_map_left, map_bind]
    exact bind_congr fun d => Draft.foldlM_mark (fun d st => Draft.stage_mark st d) after d

/-- And so does a truth that is a filter of its own. -/
theorem translate_filter_true (hb : ∀ st ∈ before, st.terminal? = none) :
    (mk s (before ++ .filter (.value (.bool true)) :: after)).translate mode =
      Compiled.mark <$> (mk s (before ++ after)).translate mode := by
  have hframe := SameFrame.insert_filters hb [.value (.bool true)] after
  rw [List.append_assoc] at hframe
  refine translate_of_walk_mark hframe fun d => ?_
  rw [List.foldlM_append, List.foldlM_append, map_bind]
  refine bind_congr fun d' => ?_
  rw [List.foldlM_cons, Draft.stage, Draft.filter_true, pure_bind]
  exact Draft.foldlM_mark (fun d st => Draft.stage_mark st d) after d'

/-- **The structure of conjunctions does not show**, in what a pipeline is
translated to, in its errors and in what is read. A conjunction may be cut
into filters, conjunctions may be nested in any way, and the predicate of a
terminal stage may be a filter before it. The literal `true` leaves a mark,
as an operand and as a filter, and changes nothing else. -/
theorem translate_conjoined (s : Schema) (mode : Mode) {before : List Stage}
    (hb : ∀ st ∈ before, st.terminal? = none) (after : List Stage) :
    (∀ es : List Expr, (mk s (before ++ .filter (.conjunction es) :: after)).translate mode =
      (mk s (before ++ es.map .filter ++ after)).translate mode) ∧
    (∀ xs ys : List Stage, xs.map Stage.flatten = ys.map Stage.flatten →
      (mk s xs).translate mode = (mk s ys).translate mode) ∧
    (∀ a b : Expr, (a.and b).leaves = a.leaves ++ b.leaves) ∧
    (∀ kind e, (mk s (before ++ .terminal kind (some e) :: after)).translate mode =
      (mk s (before ++ .filter e :: .terminal kind none :: after)).translate mode) ∧
    (∀ (before' after' : List Stage) (st st' : Stage), st.GainsTruth st' →
      (mk s (before' ++ st' :: after')).translate mode =
        Compiled.mark <$> (mk s (before' ++ st :: after')).translate mode) ∧
    (mk s (before ++ .filter (.value (.bool true)) :: after)).translate mode =
      Compiled.mark <$> (mk s (before ++ after)).translate mode := by
  refine ⟨translate_filter_conjunction hb, ?_, Expr.leaves_and, translate_terminal_some hb, ?_,
    translate_filter_true hb⟩
  · intro xs ys h
    exact translate_of_flatten_eq h
  · intro before' after' st st' h
    exact translate_of_gainsTruth h

/-- The key and the age of a person, conjoined in two levels: behind a
filter, and before a terminal stage. -/
def sampleOperands : List Expr :=
  [.comparison (.captured ⟨1, .int32 5, [.int32 6]⟩) .lt (.field "Age"),
    .conjunction [.comparison (.field "Id") .eq (.value (.text "ada"))]]

/-- One conjunction and two filters are one query, with four parameters and
one value read. A truth between the operands leaves its mark. -/
theorem translate_conjoined_sample :
    (∀ st ∈ [Stage.filter (.field "Adult")], st.terminal? = none) ∧
    ∃ c, c.params.length = 4 ∧
      (mk sample.schema ([.filter (.field "Adult")] ++ .filter (.conjunction sampleOperands) ::
        [.terminal .first none])).compile.after [] = (.ok c, [1]) ∧
      (mk sample.schema ([.filter (.field "Adult")] ++ sampleOperands.map .filter ++
        [.terminal .first none])).compile.after [] = (.ok c, [1]) ∧
      (mk sample.schema ([.filter (.field "Adult")] ++
        .filter (.conjunction (sampleOperands ++ [.value (.bool true)])) ::
          [.terminal .first none])).compile.after [] = (.ok c.mark, [1]) := by
  have hb : ∀ st ∈ [Stage.filter (.field "Adult")], st.terminal? = none := by
    simp [Stage.terminal?]
  obtain ⟨hcut, -, -, -, htruth, -⟩ :=
    translate_conjoined sample.schema .strict hb [.terminal .first none]
  have hgains : (Stage.filter (.conjunction sampleOperands)).GainsTruth
      (.filter (.conjunction (sampleOperands ++ [.value (.bool true)]))) :=
    .filter ⟨_, [], (List.append_nil _).symm, rfl⟩
  obtain ⟨c, hc, hparams⟩ : ∃ c,
      (mk sample.schema ([.filter (.field "Adult")] ++ .filter (.conjunction sampleOperands) ::
        [.terminal .first none])).compile.after [] = (.ok c, [1]) ∧ c.params.length = 4 :=
    ⟨_, rfl, rfl⟩
  refine ⟨hb, c, hparams, hc, ?_, ?_⟩
  · rw [compile, ← hcut]
    exact hc
  · rw [compile, htruth _ _ _ _ hgains, map_eq_pure_bind, Reading.after_bind_eq_ok]
    exact ⟨c, [1], hc, rfl⟩

end Pipeline

end KindQuery
