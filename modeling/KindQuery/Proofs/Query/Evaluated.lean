import KindQuery.Proofs.Codec.Projected
import KindQuery.Proofs.Query.Inlined
/-!
# When captured values are read

A captured value may be another one at each reading, so that it matters how
often it is read, and in which order. A translation that succeeds has read
the captured values of its predicates and counts, each of them once, as they
come (`Pipeline.logs_compile`). It has read nothing of the selector, whose
captured values are read with each row. A row that fails reads those before
the part that fails, and the next row goes on from there
(`Projector.drains_drain`).
-/

namespace KindQuery

/-! ## What has been read -/

namespace Reading

variable {α β : Type} {x : Reading α} {f : α → Reading β} {cs ds : List Captured}

/-- **If the computation succeeds, it has read these captured values**, in
this order, and no others. -/
def Logs (x : Reading α) (cs : List Captured) : Prop :=
  ∀ log a log', x.after log = (.ok a, log') → log' = log ++ cs.map Captured.id

theorem logs_pure (a : α) : Logs (pure a) [] := by
  rintro log _ _ ⟨⟩
  exact (List.append_nil log).symm

theorem logs_ofExcept (r : Except Error α) : Logs (ofExcept r) [] := by
  intro log a log' h
  rw [after_ofExcept] at h
  rw [← (Prod.mk.inj h).2, List.map_nil, List.append_nil]

theorem logs_fail (fault : Fault) : Logs (fail fault : Reading α) cs := by
  intro log a log' h
  cases h

theorem logs_read (c : Captured) : Logs c.read [c] := by
  rintro log _ _ ⟨⟩
  rfl

theorem Logs.bind (hx : x.Logs cs) (hf : ∀ a, (f a).Logs ds) : Logs (x >>= f) (cs ++ ds) := by
  intro log b log' h
  obtain ⟨a, log₁, ha, hb⟩ := after_bind_eq_ok.1 h
  rw [hf a log₁ b log' hb, hx log a log₁ ha, List.map_append, List.append_assoc]

/-- What follows reads nothing. -/
theorem Logs.bind_nil (hx : x.Logs cs) (hf : ∀ a, (f a).Logs []) : Logs (x >>= f) cs := by
  have h := hx.bind hf
  rwa [List.append_nil] at h

end Reading

/-- The captured values that are read when a stage is translated: those of
predicates and counts. -/
def Stage.evaluated : Stage → List Captured
  | filter e | take e | skip e => e.captures
  | terminal _ e => (e.map Expr.captures).getD []
  | project _ | orderBy _ _ => []

/-! ## Predicates -/

namespace Expr

open Reading

variable {s : Schema}

/-- An operand that can be compared has been read. -/
theorem log_of_operand {e : Expr} {o : Operand} {log log' : ReadLog}
    (h : e.operand.after log = (.ok o, log')) (ho : (∃ m, o = .member m) ∨ ∃ v, o = .constant v) :
    log' = log ++ e.captures.map Captured.id := by
  cases e with
  | captured c => exact ((logs_read c).bind_nil fun v => logs_pure (Operand.constant v)) log o log' h
  | member m | value v =>
    cases h
    exact (List.append_nil log).symm
  | _ =>
    cases h
    rcases ho with ⟨_, ho⟩ | ⟨_, ho⟩ <;> cases ho

theorem of_operandsCondition {i : Option String} {op : Comparison} {l r : Operand}
    {c : Conjunction} (h : operandsCondition s i op l r = .ok c) :
    ((∃ m, l = .member m) ∨ ∃ v, l = .constant v) ∧ ((∃ m, r = .member m) ∨ ∃ v, r = .constant v) := by
  rcases operandsCondition_eq_ok.1 h with ⟨m, v, rfl, rfl, -⟩ | ⟨m, v, rfl, rfl, -⟩
  · exact ⟨.inl ⟨m, rfl⟩, .inr ⟨v, rfl⟩⟩
  · exact ⟨.inr ⟨v, rfl⟩, .inl ⟨m, rfl⟩⟩

/-- Both operands of a comparison are read, the first one before the second
one. -/
theorem logs_comparison (i : Option String) (lhs rhs : Expr) (op : Comparison) :
    Logs (do
      let l ← lhs.operand
      let r ← rhs.operand
      Reading.ofExcept (operandsCondition s i op l r)) (lhs.captures ++ rhs.captures) := by
  intro log c log' h
  obtain ⟨l, log₁, hl, h⟩ := after_bind_eq_ok.1 h
  obtain ⟨r, log₂, hr, h⟩ := after_bind_eq_ok.1 h
  obtain ⟨hc, rfl⟩ := Prod.mk.inj h
  obtain ⟨hlo, hro⟩ := of_operandsCondition hc
  rw [log_of_operand hr hro, log_of_operand hl hlo, List.map_append, List.append_assoc]

mutual

/-- **A predicate reads its captured values from left to right.** -/
theorem logs_conditions (s : Schema) : ∀ (e : Expr) (i : Option String),
    (e.conditions s i).Logs e.captures
  | .value _, _ | .member _, _ => logs_ofExcept _
  | .captured c, i => (logs_read c).bind_nil fun _ => logs_ofExcept _
  | .negation (.captured c), i => (logs_read c).bind_nil fun _ => logs_ofExcept _
  | .negation (.member _), _ => logs_ofExcept _
  | .negation (.value v), _ => by cases v <;> exact logs_ofExcept _
  | .conjunction es, i => logs_conditionsOfAll s es i
  | .comparison lhs op rhs, i => by
    cases op
    case ne => exact logs_fail _
    all_goals exact logs_comparison i lhs rhs _
  | .row, _ | .record _, _ | .disjunction _, _ | .call _ _ _, _ => logs_fail _
  | .negation .row, _ | .negation (.negation _), _ | .negation (.comparison _ _ _), _
  | .negation (.conjunction _), _ | .negation (.disjunction _), _
  | .negation (.call _ _ _), _ | .negation (.record _), _ => logs_fail _

theorem logs_conditionsOfAll (s : Schema) : ∀ (es : List Expr) (i : Option String),
    (conditionsOfAll s i es).Logs (capturesOfAll es)
  | [], _ => logs_pure _
  | e :: es, i => (logs_conditions s e i).bind fun a =>
    (logs_conditionsOfAll s es a.inequality).bind_nil fun _ => logs_pure _

end

end Expr

/-! ## Stages -/

namespace Draft

open Reading

variable {s : Schema} {d : Draft}

theorem logs_filter (e : Expr) : (d.filter s e).Logs e.captures :=
  (e.logs_conditions s d.inequality).bind_nil fun _ => logs_pure _

theorem logs_count (pg : Paging) (n : Expr) : (count pg n).Logs n.captures := by
  cases n with
  | value v => exact logs_ofExcept _
  | captured c => exact (logs_read c).bind_nil fun _ => logs_ofExcept _
  | _ => exact logs_fail _

/-- A count is read once, since there is no second one of its kind. -/
theorem logs_page (pg : Paging) (n : Expr) : (d.page .strict pg n).Logs n.captures := by
  unfold page
  split
  · exact logs_fail _
  · exact (logs_count pg n).bind_nil fun _ => logs_pure _

theorem logs_stage (st : Stage) (d : Draft) : (stage s .strict d st).Logs st.evaluated := by
  match st with
  | .filter e => exact logs_filter e
  | .project _ => exact logs_pure d
  | .orderBy _ _ => exact logs_ofExcept _
  | .take n => exact logs_page .take n
  | .skip n => exact logs_page .skip n
  | .terminal _ none => exact logs_pure _
  | .terminal _ (some e) => exact (logs_filter e).bind_nil fun _ => logs_pure _

/-- Stages read their captured values one after the other. -/
theorem logs_foldlM (stages : List Stage) (d : Draft) :
    Logs (stages.foldlM (stage s .strict) d) (stages.flatMap Stage.evaluated) := by
  induction stages generalizing d with
  | nil => exact logs_pure d
  | cons st stages ih =>
    rw [List.foldlM_cons, List.flatMap_cons]
    exact (logs_stage st d).bind ih

end Draft

namespace Pipeline

open Reading

/-- **A translation that succeeds has read each captured value of its
predicates and counts once**, stage by stage and from left to right, and
none of its selector. -/
theorem logs_compile (p : Pipeline) : p.compile.Logs (p.stages.flatMap Stage.evaluated) := by
  intro log c log' h
  obtain ⟨-, plan, d, text, -, hd, -, -⟩ := translate_eq_ok.1 h
  exact Draft.logs_foldlM p.stages (.start p.schema plan) log d log' hd

/-- The selector of the plan is that of the pipeline. -/
theorem selector_of_compile {p : Pipeline} {log log' : ReadLog} {c : Compiled}
    (h : p.compile.after log = (.ok c, log')) :
    c.plan.selector = (p.stages.findSome? Stage.selector?).getD .row := by
  obtain ⟨-, plan, d, text, hplan, -, -, rfl⟩ := translate_eq_ok.1 h
  exact (plan_eq_ok.1 hplan).1

end Pipeline

/-! ## Rows -/

namespace Projector

/-- **Rows that are read one after the other**, each with the outcome that its
selector has after what the rows before it have read. -/
inductive Drains (catalog : Catalog) (s : Schema) (selector : Expr) :
    ReadLog → List Entity → List (Except Error Value) → ReadLog → Prop
  | nil {log : ReadLog} : Drains catalog s selector log [] [] log
  | cons {log log₁ log' : ReadLog} {row : Entity} {rows : List Entity} {x : Except Error Value}
      {xs : List (Except Error Value)} :
      Expr.Outcome (selector.Forms (Expr.Reads catalog s row)) selector.captures selector.parts
        (Expr.Fails catalog s row) log (x, log₁) →
      Drains catalog s selector log₁ rows xs log' →
      Drains catalog s selector log (row :: rows) (x :: xs) log'

/-- A projector reads its rows so. -/
theorem drains_drain (p : Projector) (log : ReadLog) :
    Drains p.catalog p.schema p.plan.selector log p.rows (p.drain log).1 (p.drain log).2 := by
  obtain ⟨catalog, s, plan, rows⟩ := p
  induction rows generalizing log with
  | nil => exact .nil
  | cons row rows ih =>
    have hrows := ih ((plan.selector.project catalog s row).after log).2
    unfold drain at hrows ⊢
    rw [List.mapM_cons]
    exact .cons (Expr.outcome_project plan.selector log) hrows

/-- If no row fails, each reads all that is captured in the selector. -/
theorem Drains.log_eq {catalog : Catalog} {s : Schema} {selector : Expr} {log log' : ReadLog}
    {rows : List Entity} {xs : List (Except Error Value)}
    (h : Drains catalog s selector log rows xs log') (hxs : ∀ x ∈ xs, ∃ v, x = .ok v) :
    log' = log ++ (rows.flatMap fun _ => selector.captures).map Captured.id := by
  induction h with
  | nil => exact (List.append_nil _).symm
  | cons hrow _ ih =>
    rw [List.forall_mem_cons] at hxs
    obtain ⟨⟨v, rfl⟩, hxs⟩ := hxs
    rw [ih hxs, hrow.2, List.flatMap_cons, List.map_append, List.append_assoc]

end Projector

namespace Pipeline

/-- **Captured values are read once for each place that they stand in, or may
be written as literals.** A translation that succeeds has read those of
predicates and counts, in order, and those of the selector are read with each
row up to the part that fails, if there is one. If captured values are the
same at each reading, literals in their place make no difference to the
query. -/
theorem reads_captured (p : Pipeline) :
    (∀ log c log', p.compile.after log = (.ok c, log') →
      log' = log ++ (p.stages.flatMap Stage.evaluated).map Captured.id ∧
        c.plan.selector = (p.stages.findSome? Stage.selector?).getD .row) ∧
    (∀ (r : Projector) (log : ReadLog),
      Projector.Drains r.catalog r.schema r.plan.selector log r.rows (r.drain log).1
          (r.drain log).2 ∧
        ((∀ x ∈ (r.drain log).1, ∃ v, x = .ok v) → (r.drain log).2 =
          log ++ (r.rows.flatMap fun _ => r.plan.selector.captures).map Captured.id)) ∧
    (p.IsConstant → ∀ q, p.Inlines q → ∀ log log₁,
      ((∃ c log', p.compile.after log = (.ok c, log')) ↔
        ∃ c' log₁', q.compile.after log₁ = (.ok c', log₁')) ∧
      ∀ c c' log' log₁', p.compile.after log = (.ok c, log') →
        q.compile.after log₁ = (.ok c', log₁') →
        c' = { c with plan := { c.plan with selector := c'.plan.selector } }) := by
  refine ⟨?_, ?_, ?_⟩
  · intro log c log' h
    exact ⟨p.logs_compile log c log' h, selector_of_compile h⟩
  · intro r log
    exact ⟨r.drains_drain log, (r.drains_drain log).log_eq⟩
  · intro hp q h
    exact compile_inlines h hp

/-- Three persons over five with a number from outside, and what is tested,
counted and added are all captured. -/
def sampleAges : Pipeline where
  schema := sample.schema
  stages :=
    [.take (.captured ⟨2, .int64 3, []⟩),
      .filter (.conjunction [.comparison (.captured ⟨0, .int32 5, []⟩) .lt (.field "Age"),
        .negation (.captured ⟨1, .bool false, []⟩)]),
      .project (.record [.field "Age", .captured ⟨3, .int32 1, []⟩])]

/-- The same persons. The negated constant and the number are literals. -/
def sampleAgesInlined : Pipeline where
  schema := sample.schema
  stages :=
    [.take (.captured ⟨2, .int64 3, []⟩),
      .filter (.conjunction [.comparison (.captured ⟨0, .int32 5, []⟩) .lt (.field "Age"),
        .negation (.value (.bool false))]),
      .project (.record [.field "Age", .value (.int32 1)])]

theorem sampleAges_inlines : sampleAges.Inlines sampleAgesInlined where
  schema := rfl
  stages :=
    .cons (.take (.refl _))
      (.cons (.filter (.conjunction (.cons (.refl _) (.cons (.negation (.captured _)) .nil))))
        (.cons (.project (.record (.cons (.refl _) (.cons (.captured _) .nil)))) .nil))

/-- A person of an age. -/
def sampleRow : Entity := ⟨none, [("Age", ⟨.integer 7, true⟩)]⟩

/-- The count and the predicate are read as the stages come, and the selector
with each of two rows. -/
theorem reads_captured_sample :
    sampleAges.IsConstant ∧ sampleAges.Inlines sampleAgesInlined ∧
    ∃ c c', sampleAges.compile.after [] = (.ok c, [2, 0, 1]) ∧
      sampleAgesInlined.compile.after [] = (.ok c', [2, 0]) ∧
      c' = { c with plan := { c.plan with selector := c'.plan.selector } } ∧
      ((Projector.mk ⟨[]⟩ sample.schema c.plan [sampleRow, sampleRow]).drain []).2 = [3, 3] := by
  have hconstant : sampleAges.IsConstant := by
    simp [IsConstant, sampleAges, Stage.captures, Expr.captures, Expr.capturesOfAll, Expr.field,
      Captured.IsConstant]
  obtain ⟨c, hc, hdrain⟩ : ∃ c, sampleAges.compile.after [] = (.ok c, [2, 0, 1]) ∧
      ((Projector.mk ⟨[]⟩ sample.schema c.plan [sampleRow, sampleRow]).drain []).1 =
        [.ok (.record [.int32 7, .int32 1]), .ok (.record [.int32 7, .int32 1])] := ⟨_, rfl, rfl⟩
  obtain ⟨c', hc'⟩ : ∃ c', sampleAgesInlined.compile.after [] = (.ok c', [2, 0]) := ⟨_, rfl⟩
  obtain ⟨htranslate, hrows, hinline⟩ := reads_captured sampleAges
  refine ⟨hconstant, sampleAges_inlines, c, c', hc, hc',
    (hinline hconstant _ sampleAges_inlines [] []).2 c c' _ _ hc hc', ?_⟩
  rw [(hrows ⟨⟨[]⟩, sample.schema, c.plan, [sampleRow, sampleRow]⟩ []).2]
  · rw [(htranslate _ _ _ hc).2]
    rfl
  · rw [hdrain]
    simp

/-- **A row that fails reads less.** It has no age, and the captured value
behind it is read with the second row only. -/
theorem skips_captured :
    ∃ c, sampleAges.compile.after [] = (.ok c, [2, 0, 1]) ∧
      ((Projector.mk ⟨[]⟩ sample.schema c.plan [⟨none, []⟩, sampleRow]).drain []).2 = [3] ∧
      (([⟨none, []⟩, sampleRow] : List Entity).flatMap
        fun _ => c.plan.selector.captures).map Captured.id = [3, 3] :=
  ⟨_, rfl, rfl, rfl⟩

end Pipeline

end KindQuery
