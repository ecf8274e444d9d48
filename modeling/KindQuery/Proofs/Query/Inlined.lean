import KindQuery.Proofs.Query.Collected
/-!
# Captured values and literals

A captured value that is the same at each reading may be written as a literal
wherever it stands: as a condition, below a negation, on either side of a
comparison, as a count or in a selector. `Expr.Inlines` relates expressions of
which the second one has literals in place of some captured values of the
first one. Whether a predicate, a count or an ordering is accepted, and what
it then amounts to, is the same for both, and so is the compiled query, its
selector apart (`Pipeline.compile_inlines`).

Errors are not compared. A negated number is refused in other words when it
is written as a literal.
-/

namespace KindQuery

/-! ## Inlining -/

mutual

/-- Some captured values have been replaced by the literals that they are
read as. -/
inductive Expr.Inlines : Expr → Expr → Prop
  | refl (e : Expr) : Inlines e e
  | captured (c : Captured) : Inlines (.captured c) (.value c.first)
  | negation {e e' : Expr} : Inlines e e' → Inlines (.negation e) (.negation e')
  | comparison {lhs lhs' rhs rhs' : Expr} (op : Comparison) :
      Inlines lhs lhs' → Inlines rhs rhs' →
      Inlines (.comparison lhs op rhs) (.comparison lhs' op rhs')
  | conjunction {es es' : List Expr} :
      InlinesEach es es' → Inlines (.conjunction es) (.conjunction es')
  | disjunction {es es' : List Expr} :
      InlinesEach es es' → Inlines (.disjunction es) (.disjunction es')
  | call {e e' : Expr} (name : String) {es es' : List Expr} :
      Inlines e e' → InlinesEach es es' → Inlines (.call e name es) (.call e' name es')
  | record {es es' : List Expr} : InlinesEach es es' → Inlines (.record es) (.record es')

/-- So it has been in several expressions, one by one. -/
inductive Expr.InlinesEach : List Expr → List Expr → Prop
  | nil : InlinesEach [] []
  | cons {e e' : Expr} {es es' : List Expr} :
      Inlines e e' → InlinesEach es es' → InlinesEach (e :: es) (e' :: es')

end

/-- Some captured values of a stage have been replaced. -/
inductive Stage.Inlines : Stage → Stage → Prop
  | filter {e e' : Expr} : e.Inlines e' → Inlines (.filter e) (.filter e')
  | project {e e' : Expr} : e.Inlines e' → Inlines (.project e) (.project e')
  | orderBy {e e' : Expr} (dir : Direction) :
      e.Inlines e' → Inlines (.orderBy e dir) (.orderBy e' dir)
  | take {e e' : Expr} : e.Inlines e' → Inlines (.take e) (.take e')
  | skip {e e' : Expr} : e.Inlines e' → Inlines (.skip e) (.skip e')
  | terminal (kind : Terminal) : Inlines (.terminal kind none) (.terminal kind none)
  | terminalFilter (kind : Terminal) {e e' : Expr} :
      e.Inlines e' → Inlines (.terminal kind (some e)) (.terminal kind (some e'))

/-- Some captured values of a pipeline have been replaced. -/
structure Pipeline.Inlines (p q : Pipeline) : Prop where
  schema : p.schema = q.schema
  stages : List.Forall₂ Stage.Inlines p.stages q.stages

namespace Expr

variable {e e' : Expr} {s : Schema} {i : Option String} {c : Conjunction}

theorem Inlines.constant?_eq (h : e.Inlines e') : e.constant? = e'.constant? := by
  cases h <;> rfl

theorem Inlines.eq_member_iff (h : e.Inlines e') (m : Member) :
    e = .member m ↔ e' = .member m := by
  cases h <;> simp

mutual

/-- A replaced value is not captured any more. -/
theorem Inlines.mem_captures : ∀ {e e' : Expr}, e.Inlines e' → ∀ k ∈ e'.captures, k ∈ e.captures
  | _, _, .refl _ => fun _ hk => hk
  | _, _, .captured _ => nofun
  | _, _, .negation h => fun k hk => Inlines.mem_captures h k hk
  | _, _, .comparison _ hl hr => by
    intro k hk
    rcases List.mem_append.1 hk with hk | hk
    · exact List.mem_append_left _ (Inlines.mem_captures hl k hk)
    · exact List.mem_append_right _ (Inlines.mem_captures hr k hk)
  | _, _, .conjunction h | _, _, .disjunction h | _, _, .record h => fun k hk =>
    InlinesEach.mem_captures h k hk
  | _, _, .call _ h hs => by
    intro k hk
    rcases List.mem_append.1 hk with hk | hk
    · exact List.mem_append_left _ (Inlines.mem_captures h k hk)
    · exact List.mem_append_right _ (InlinesEach.mem_captures hs k hk)

theorem InlinesEach.mem_captures : ∀ {es es' : List Expr}, InlinesEach es es' →
    ∀ k ∈ capturesOfAll es', k ∈ capturesOfAll es
  | _, _, .nil => nofun
  | _, _, .cons h hs => by
    intro k hk
    rcases List.mem_append.1 hk with hk | hk
    · exact List.mem_append_left _ (Inlines.mem_captures h k hk)
    · exact List.mem_append_right _ (InlinesEach.mem_captures hs k hk)

end

theorem Inlines.isConstant (h : e.Inlines e') (he : e.IsConstant) : e'.IsConstant :=
  fun k hk => he k (h.mem_captures k hk)

theorem InlinesEach.isConstant {es es' : List Expr} (h : InlinesEach es es')
    (hes : ∀ k ∈ capturesOfAll es, k.IsConstant) : ∀ k ∈ capturesOfAll es', k.IsConstant :=
  fun k hk => hes k (h.mem_captures k hk)

/-! ## Predicates and selectors -/

mutual

/-- **A predicate amounts to the same with literals** for its captured
values. -/
theorem Inlines.now_conditions : ∀ {e e' : Expr}, e.Inlines e' → e.IsConstant →
    ∀ (i : Option String) (c : Conjunction),
      (e.conditions s i).now = .ok c ↔ (e'.conditions s i).now = .ok c
  | _, _, .refl _, _, _, _ => Iff.rfl
  | _, _, .captured k, hk, i, c => by
    rw [now_conditions_captured (hk k (by simp [captures]))]
    rfl
  | _, _, .negation h, hk, i, c => by
    have hk' := (Inlines.negation h).isConstant hk
    rw [now_conditions_negation_eq_ok hk, now_conditions_negation_eq_ok hk', h.constant?_eq]
    simp only [h.eq_member_iff]
  | _, _, .comparison op hl hr, hk, i, c => by
    have hk' := (Inlines.comparison op hl hr).isConstant hk
    rw [now_conditions_comparison_eq_ok hk, now_conditions_comparison_eq_ok hk', hl.constant?_eq,
      hr.constant?_eq]
    simp only [hl.eq_member_iff, hr.eq_member_iff]
  | _, _, .conjunction h, hk, i, c => InlinesEach.now_conditionsOfAll h hk i c
  | _, _, .disjunction _, _, _, _ | _, _, .call _ _ _, _, _, _ | _, _, .record _, _, _, _ => by
    simp [conditions]

theorem InlinesEach.now_conditionsOfAll : ∀ {es es' : List Expr}, InlinesEach es es' →
    (∀ k ∈ capturesOfAll es, k.IsConstant) → ∀ (i : Option String) (c : Conjunction),
      (conditionsOfAll s i es).now = .ok c ↔ (conditionsOfAll s i es').now = .ok c
  | _, _, .nil, _, _, _ => Iff.rfl
  | _, _, .cons h hs, hk, i, c => by
    have hk' := (InlinesEach.cons h hs).isConstant hk
    rw [now_conditionsOfAll_cons hk, now_conditionsOfAll_cons hk']
    obtain ⟨hke, hkes⟩ := forall_mem_capturesOfAll_cons.1 hk
    simp only [Inlines.now_conditions h hke, InlinesEach.now_conditionsOfAll hs hkes]

end

/-- A call is refused in the same words. -/
theorem Inlines.callFault_eq (h : e.Inlines e') (name : String) :
    callFault e name = callFault e' name := by
  cases h <;> rfl

mutual

/-- A selector asks for the same columns. -/
theorem Inlines.sources_eq : ∀ {e e' : Expr}, e.Inlines e' → e.sources s = e'.sources s
  | _, _, .refl _ | _, _, .captured _ | _, _, .negation _ | _, _, .comparison _ _ _
  | _, _, .conjunction _ | _, _, .disjunction _ => rfl
  | _, _, .record h => InlinesEach.sourcesOfAll_eq h
  | _, _, .call name h _ => congrArg Fault.raise (h.callFault_eq name)

theorem InlinesEach.sourcesOfAll_eq : ∀ {es es' : List Expr}, InlinesEach es es' →
    sourcesOfAll s es = sourcesOfAll s es'
  | _, _, .nil => rfl
  | _, _, .cons h hs => by
    rw [sourcesOfAll, sourcesOfAll, Inlines.sources_eq h, InlinesEach.sourcesOfAll_eq hs]

end

end Expr

/-! ## Stages -/

theorem Stage.Inlines.isConstant {st st' : Stage} (h : st.Inlines st')
    (hst : ∀ k ∈ st.captures, k.IsConstant) : ∀ k ∈ st'.captures, k.IsConstant := by
  cases h with
  | filter h | project h | orderBy _ h | take h | skip h | terminalFilter _ h =>
    exact h.isConstant hst
  | terminal => exact hst

theorem Stage.isConstant_of_forall₂ {stages stages' : List Stage}
    (h : List.Forall₂ Stage.Inlines stages stages')
    (hst : ∀ st ∈ stages, ∀ k ∈ st.captures, k.IsConstant) :
    ∀ st ∈ stages', ∀ k ∈ st.captures, k.IsConstant := by
  induction h with
  | nil => exact hst
  | cons h _ ih =>
    rw [List.forall_mem_cons] at hst ⊢
    exact ⟨h.isConstant hst.1, ih hst.2⟩

namespace Draft

variable {s : Schema} {mode : Mode} {d d' : Draft} {pg : Paging} {n n' : Expr} {k : Int64}
  {st st' : Stage} {stages stages' : List Stage}

/-- The counts of constants. -/
theorem now_count_eq_ok (hn : n.IsConstant) : (count pg n).now = .ok k ↔
    ∃ v, n.constant? = some v ∧ count.natural pg v = .ok k := by
  cases n with
  | captured c =>
    have hc : c.IsConstant := hn c (by simp [Expr.captures])
    have hcount := (Reading.settled_read hc).bind fun v =>
      Reading.settled_ofExcept (count.natural pg v)
    rw [count, hcount.2, Reading.now_read]
    simp [Expr.constant?, bind, Except.bind]
  | _ => simp [count, Expr.constant?]

theorem now_count_of_inlines (h : n.Inlines n') (hn : n.IsConstant) :
    (count pg n).now = .ok k ↔ (count pg n').now = .ok k := by
  rw [now_count_eq_ok hn, now_count_eq_ok (h.isConstant hn), h.constant?_eq]

theorem settled_filter {e : Expr} (he : e.IsConstant) : (d.filter s e).Settled :=
  ((e.settled_conditions s d.inequality he).bind fun _ => Reading.settled_pure _).1

theorem now_filter_eq_ok {e : Expr} (he : e.IsConstant) : (d.filter s e).now = .ok d' ↔
    ∃ c, (e.conditions s d.inequality).now = .ok c ∧ d' = d.require c := by
  have hfilter := (e.settled_conditions s d.inequality he).bind fun c =>
    Reading.settled_pure (d.require c)
  rw [filter, hfilter.2, bind_eq_ok]
  simp [eq_comm]

theorem settled_page (hn : n.IsConstant) : (d.page mode pg n).Settled := by
  unfold page
  split
  · cases mode
    · exact Reading.settled_fail _
    · exact Reading.settled_pure _
  · exact ((settled_count hn).bind fun _ => Reading.settled_pure _).1

/-- Walking a stage is settled if its captured values are constant. -/
theorem settled_stage (hst : ∀ k ∈ st.captures, k.IsConstant) : (stage s mode d st).Settled := by
  match st with
  | .filter e => exact settled_filter hst
  | .project _ => exact Reading.settled_pure _
  | .orderBy _ _ => exact Reading.settled_ofExcept _
  | .take n | .skip n => exact settled_page hst
  | .terminal _ none => exact Reading.settled_pure _
  | .terminal _ (some e) =>
    have he : e.IsConstant := hst
    exact ((settled_filter he).bind fun _ => Reading.settled_pure _).1

theorem now_page_of_inlines (h : n.Inlines n') (hn : n.IsConstant) :
    (d.page mode pg n).now = .ok d' ↔ (d.page mode pg n').now = .ok d' := by
  have hbind : ∀ m : Expr, m.IsConstant →
      ((count pg m >>= fun k => pure (d.bindCount pg k)).now = .ok d' ↔
        ∃ k, (count pg m).now = .ok k ∧ d.bindCount pg k = d') := by
    intro m hm
    rw [((settled_count hm).bind fun k => Reading.settled_pure (d.bindCount pg k)).2, bind_eq_ok]
    simp
  unfold page
  split
  · exact Iff.rfl
  · rw [hbind n hn, hbind n' (h.isConstant hn)]
    simp only [now_count_of_inlines h hn]

/-- **A stage does the same with literals.** -/
theorem now_stage_of_inlines (h : st.Inlines st') (hst : ∀ k ∈ st.captures, k.IsConstant) :
    (stage s mode d st).now = .ok d' ↔ (stage s mode d st').now = .ok d' := by
  have hfilter : ∀ {e e' : Expr}, e.Inlines e' → e.IsConstant → ∀ d',
      (d.filter s e).now = .ok d' ↔ (d.filter s e').now = .ok d' := by
    intro e e' h he d'
    rw [now_filter_eq_ok he, now_filter_eq_ok (h.isConstant he)]
    simp only [h.now_conditions he]
  cases h with
  | filter h => exact hfilter h hst d'
  | project => exact Iff.rfl
  | orderBy dir h =>
    simp only [stage, Reading.now_ofExcept, orderBy_eq_ok, h.eq_member_iff]
  | take h | skip h => exact now_page_of_inlines h hst
  | terminal => exact Iff.rfl
  | @terminalFilter kind e e' h =>
    have he : e.IsConstant := hst
    have hclose := fun d₁ : Draft => Reading.settled_pure (d₁.close kind)
    rw [stage, stage, ((settled_filter he).bind hclose).2,
      ((settled_filter (h.isConstant he)).bind hclose).2, bind_eq_ok, bind_eq_ok]
    simp only [hfilter h he]

/-- Walking a chain of stages is settled. -/
theorem settled_foldlM (hst : ∀ st ∈ stages, ∀ k ∈ st.captures, k.IsConstant) :
    ∀ d : Draft, Reading.Settled (stages.foldlM (stage s mode) d) := by
  induction stages with
  | nil => exact fun d => Reading.settled_pure d
  | cons st stages ih =>
    rw [List.forall_mem_cons] at hst
    intro d
    rw [List.foldlM_cons]
    exact ((settled_stage hst.1).bind (ih hst.2)).1

/-- **And so do all stages of a chain.** -/
theorem now_foldlM_of_inlines (h : List.Forall₂ Stage.Inlines stages stages')
    (hst : ∀ st ∈ stages, ∀ k ∈ st.captures, k.IsConstant) :
    ∀ d d' : Draft, Reading.now (stages.foldlM (stage s mode) d) = .ok d' ↔
      Reading.now (stages'.foldlM (stage s mode) d) = .ok d' := by
  induction h with
  | nil => exact fun d d' => Iff.rfl
  | @cons st st' stages stages' h hs ih =>
    rw [List.forall_mem_cons] at hst
    intro d d'
    have hst' := Stage.isConstant_of_forall₂ hs hst.2
    rw [List.foldlM_cons, List.foldlM_cons, ((settled_stage hst.1).bind (settled_foldlM hst.2)).2,
      ((settled_stage (h.isConstant hst.1)).bind (settled_foldlM hst')).2, bind_eq_ok, bind_eq_ok]
    simp only [now_stage_of_inlines h hst.1, ih hst.2]

end Draft

/-! ## Pipelines -/

namespace Stage

/-- A stage without its expressions. -/
def bare : Stage → Stage
  | filter _ => .filter .row
  | project _ => .project .row
  | orderBy _ dir => .orderBy .row dir
  | take _ => .take .row
  | skip _ => .skip .row
  | terminal kind _ => .terminal kind none

theorem terminal?_bare (st : Stage) : st.bare.terminal? = st.terminal? := by cases st <;> rfl

theorem Inlines.bare_eq {st st' : Stage} (h : st.Inlines st') : st.bare = st'.bare := by
  cases h <;> rfl

theorem map_bare_of_forall₂ {stages stages' : List Stage}
    (h : List.Forall₂ Stage.Inlines stages stages') : stages.map bare = stages'.map bare := by
  induction h with
  | nil => rfl
  | cons h _ ih => rw [List.map_cons, List.map_cons, h.bare_eq, ih]

/-- The selectors of the first projections, if there are any. -/
theorem findSome?_selector?_of_forall₂ {stages stages' : List Stage}
    (h : List.Forall₂ Stage.Inlines stages stages') :
    (stages.findSome? selector? = none ∧ stages'.findSome? selector? = none) ∨
      ∃ e e', stages.findSome? selector? = some e ∧ stages'.findSome? selector? = some e' ∧
        e.Inlines e' := by
  induction h with
  | nil => exact .inl ⟨rfl, rfl⟩
  | cons h _ ih =>
    cases h with
    | project h => exact .inr ⟨_, _, rfl, rfl, h⟩
    | _ => exact ih

end Stage

namespace Pipeline

variable {p q : Pipeline} {log log' log₁ log₁' : ReadLog} {c c' : Compiled}

theorem checkStages_bare (stages : List Stage) :
    checkStages (stages.map Stage.bare) = checkStages stages :=
  checkStages_map (fun st => by cases st <;> rfl) Stage.terminal?_bare
    (fun st => by cases st <;> rfl) stages

/-- Plans ask for the same columns, or are both refused. -/
theorem Inlines.plan (h : p.Inlines q) :
    p.plan.map Plan.columns = q.plan.map Plan.columns := by
  unfold Pipeline.plan
  rcases Stage.findSome?_selector?_of_forall₂ h.stages with ⟨hp, hq⟩ | ⟨e, e', hp, hq, he⟩
  · rw [hp, hq]
  · simp only [hp, hq, Schema.plan, h.schema, he.sources_eq]
    cases e'.sources q.schema <;> rfl

/-- A constant pipeline compiles if its stages can be walked, whatever has been
read. -/
theorem exists_compile_eq_ok (hp : p.IsConstant) :
    (∃ log', p.compile.after log = (.ok c, log')) ↔
      checkStages p.stages = .ok () ∧ ∃ plan d text, p.plan = .ok plan ∧
        Reading.now (p.stages.foldlM (Draft.stage p.schema .strict) (.start p.schema plan)) = .ok d ∧
        d.finalAst.render .named = .ok text ∧ c = p.compiled plan d text := by
  have hwalk : ∀ plan d, (∃ log', Reading.after
      (p.stages.foldlM (Draft.stage p.schema .strict) (.start p.schema plan)) log =
        (.ok d, log')) ↔
      Reading.now (p.stages.foldlM (Draft.stage p.schema .strict) (.start p.schema plan)) =
        .ok d :=
    fun plan d => (Draft.settled_foldlM hp _).exists_after_eq_ok
  simp only [compile, translate_eq_ok, ← hwalk]
  constructor
  · rintro ⟨log', hcheck, plan, d, text, hplan, hd, htext, hc⟩
    exact ⟨hcheck, plan, d, text, hplan, ⟨log', hd⟩, htext, hc⟩
  · rintro ⟨hcheck, plan, d, text, hplan, ⟨log', hd⟩, htext, hc⟩
    exact ⟨log', hcheck, plan, d, text, hplan, hd, htext, hc⟩

/-- Two pipelines that are checked, planned and walked alike: if one of them
compiles, the other one compiles to the same query, up to the selector. -/
theorem exists_compile_of_alike (log log₁ : ReadLog) (hp : p.IsConstant) (hq : q.IsConstant)
    (hschema : p.schema = q.schema) (hbare : p.stages.map Stage.bare = q.stages.map Stage.bare)
    (hcolumns : p.plan.map Plan.columns = q.plan.map Plan.columns)
    (hwalk : ∀ d d', Reading.now (p.stages.foldlM (Draft.stage p.schema .strict) d) = .ok d' ↔
      Reading.now (q.stages.foldlM (Draft.stage q.schema .strict) d) = .ok d')
    (h : ∃ log', p.compile.after log = (.ok c, log')) :
    ∃ c', (∃ log₁', q.compile.after log₁ = (.ok c', log₁')) ∧
      c' = { c with plan := { c.plan with selector := c'.plan.selector } } := by
  obtain ⟨hcheck, plan, d, text, hplan, hd, htext, rfl⟩ := (exists_compile_eq_ok hp).1 h
  obtain ⟨plan', hplan', hsame⟩ : ∃ plan', q.plan = .ok plan' ∧ plan'.columns = plan.columns := by
    rw [hplan] at hcolumns
    cases hq : q.plan with
    | error err => rw [hq] at hcolumns; cases hcolumns
    | ok plan' =>
      rw [hq] at hcolumns
      exact ⟨plan', rfl, (Except.ok.inj hcolumns).symm⟩
  have hstart : Draft.start p.schema plan = Draft.start q.schema plan' := by
    rw [Draft.start, Draft.start, Plan.columnText, Plan.columnText, Plan.selectsAll,
      Plan.selectsAll, hsame, hschema]
  have hterminal : q.stages.findSome? Stage.terminal? = p.stages.findSome? Stage.terminal? := by
    have hkept := findSome?_map_of_forall Stage.terminal?_bare
    rw [← hkept q.stages, ← hbare, hkept p.stages]
  rw [← checkStages_bare, hbare, checkStages_bare] at hcheck
  rw [hwalk, hstart] at hd
  refine ⟨q.compiled plan' d text, (exists_compile_eq_ok hq).2
    ⟨hcheck, plan', d, text, hplan', hd, htext, rfl⟩, ?_⟩
  simp only [compiled, hschema, hterminal, ← hsame]

/-- **Literals do what captured constants do.** If some captured values of a
constant pipeline are replaced by the literals that they are read as, it
compiles if it did before, to the same query, up to the constants in its
selector. -/
theorem compile_inlines (h : p.Inlines q) (hp : p.IsConstant) (log log₁ : ReadLog) :
    ((∃ c log', p.compile.after log = (.ok c, log')) ↔
      ∃ c' log₁', q.compile.after log₁ = (.ok c', log₁')) ∧
    ∀ c c' log' log₁', p.compile.after log = (.ok c, log') →
      q.compile.after log₁ = (.ok c', log₁') →
      c' = { c with plan := { c.plan with selector := c'.plan.selector } } := by
  have hq : q.IsConstant := Stage.isConstant_of_forall₂ h.stages hp
  have hbare := Stage.map_bare_of_forall₂ h.stages
  have hwalk : ∀ d d', Reading.now (p.stages.foldlM (Draft.stage p.schema .strict) d) = .ok d' ↔
      Reading.now (q.stages.foldlM (Draft.stage q.schema .strict) d) = .ok d' := by
    rw [← h.schema]
    exact Draft.now_foldlM_of_inlines h.stages hp
  have hforth := fun c => exists_compile_of_alike (c := c) log log₁ hp hq h.schema hbare h.plan
    hwalk
  have hback := fun c => exists_compile_of_alike (c := c) log₁ log hq hp h.schema.symm hbare.symm
    h.plan.symm fun d d' => (hwalk d d').symm
  refine ⟨⟨?_, ?_⟩, ?_⟩
  · rintro ⟨c, hc⟩
    obtain ⟨c', hc', -⟩ := hforth c hc
    exact ⟨c', hc'⟩
  · rintro ⟨c', hc'⟩
    obtain ⟨c, hc, -⟩ := hback c' hc'
    exact ⟨c, hc⟩
  · intro c c' log' log₁' hc hc'
    obtain ⟨c'', ⟨log'', hc''⟩, heq⟩ := hforth c ⟨log', hc⟩
    cases hc'.symm.trans hc''
    exact heq

end Pipeline

end KindQuery
