import KindQuery.Proofs.Query.Evaluated
import KindQuery.Proofs.Query.Shown
import KindQuery.Proofs.Session.Calls
/-!
# Row by row

What a row is read as depends on the row alone, where captured values stay
the same. So a projector that is pulled gives one result for each row, in the
order of the rows and with errors in the places of the rows that have them
(`Plan.ReadsRowWise`). The call for all rows stops at the first error, and
`Session.reads_row_wise` says which one this is.
-/

namespace KindQuery

/-! ## One row -/

namespace Expr

variable (catalog : Catalog) (s : Schema) (row : Entity)

mutual

/-- A row is read the same at any time, if captured values are constant. -/
theorem settled_project : ∀ {e : Expr}, e.IsConstant → (e.project catalog s row).Settled
  | .captured _, h => Reading.settled_read (h _ (List.mem_singleton_self _))
  | .record fields, h =>
    have each : ∀ c ∈ capturesOfAll fields, c.IsConstant := h
    ((settled_projectAll each).bind fun _ => Reading.settled_pure _).1
  | .value _, _ => Reading.settled_pure _
  | .row, _ | .member _, _ => Reading.settled_ofExcept _
  | .negation _, _ | .comparison _ _ _, _ | .conjunction _, _ | .disjunction _, _
  | .call _ _ _, _ => Reading.settled_fail _

theorem settled_projectAll : ∀ {es : List Expr}, (∀ c ∈ capturesOfAll es, c.IsConstant) →
    (projectAll catalog s row es).Settled
  | [], _ => Reading.settled_pure _
  | _ :: _, h =>
    have ⟨first, rest⟩ := forall_mem_capturesOfAll_cons.1 h
    ((settled_project first).bind fun _ =>
      ((settled_projectAll rest).bind fun _ => Reading.settled_pure _).1).1

end

end Expr

/-- **What a plan reads a row as**, when nothing has been read before. -/
def Plan.value (plan : Plan) (catalog : Catalog) (s : Schema) (row : Entity) :
    Except Error Value :=
  (plan.selector.project catalog s row).now

/-! ## Pulling rows -/

namespace Projector

/-- The result for a row. -/
def value (p : Projector) : Entity → Except Error Value := p.plan.value p.catalog p.schema

/-- **Results that are pulled one after another**, and the projector that is
left. -/
inductive Pulls : Projector → ReadLog → List (Except Error Value) → Projector → ReadLog → Prop
  | nil {p : Projector} {log : ReadLog} : Pulls p log [] p log
  | cons {p p₁ p' : Projector} {log log₁ log' : ReadLog} {x : Except Error Value}
      {xs : List (Except Error Value)} :
      p.next? log = (some (x, p₁), log₁) → Pulls p₁ log₁ xs p' log' →
      Pulls p log (x :: xs) p' log'

variable {p r : Projector} {row : Entity} {rows : List Entity} {log log' : ReadLog}
  {xs : List (Except Error Value)}

theorem next?_nil (h : p.rows = []) (log : ReadLog) : p.next? log = (none, log) := by
  rw [next?, h]
  rfl

/-- **One pull takes one row**, and gives its result. -/
theorem exists_next?_cons (constant : p.plan.selector.IsConstant) (h : p.rows = row :: rows)
    (log : ReadLog) :
    ∃ log', p.next? log = (some (p.value row, { p with rows := rows }), log') := by
  have settled := Expr.settled_project p.catalog p.schema row constant
  rw [next?, h]
  refine ⟨((p.plan.selector.project p.catalog p.schema row).after log).2, Prod.ext ?_ rfl⟩
  exact congrArg (fun x => some (x, Projector.mk p.catalog p.schema p.plan rows)) (settled log)

/-- There is nothing to pull just if no row is left. -/
theorem next?_eq_none_iff : (p.next? log).1 = none ↔ p.rows = [] := by
  constructor
  · intro h
    cases hp : p.rows with
    | nil => rfl
    | cons row rows =>
      rw [next?, hp] at h
      cases h
  · intro h
    rw [next?_nil h]

/-- **Several pulls take the first rows**, and give their results. -/
theorem Pulls.exists_split (h : Pulls p log xs r log') (constant : p.plan.selector.IsConstant) :
    ∃ before after, p.rows = before ++ after ∧ xs = before.map p.value ∧
      r = { p with rows := after } := by
  induction h with
  | @nil p => exact ⟨[], p.rows, rfl, rfl, rfl⟩
  | @cons p _ _ log _ _ _ _ pull _ ih =>
    cases hp : p.rows with
    | nil =>
      rw [next?_nil hp] at pull
      cases pull
    | cons row rows =>
      obtain ⟨_, taken⟩ := exists_next?_cons constant hp log
      cases taken.symm.trans pull
      obtain ⟨before, after, rfl, rfl, rfl⟩ := ih constant
      exact ⟨row :: before, after, rfl, rfl, rfl⟩

/-- And any first rows can be pulled. -/
theorem exists_pulls {after : List Entity} (before : List Entity)
    (constant : p.plan.selector.IsConstant) (h : p.rows = before ++ after) (log : ReadLog) :
    ∃ log', Pulls p log (before.map p.value) { p with rows := after } log' := by
  induction before generalizing p log with
  | nil =>
    obtain ⟨catalog, s, plan, rows⟩ := p
    obtain rfl : rows = after := h
    exact ⟨log, .nil⟩
  | cons row before ih =>
    obtain ⟨log₁, pull⟩ := exists_next?_cons constant h log
    obtain ⟨log', rest⟩ := ih (p := { p with rows := before ++ after }) constant rfl log₁
    exact ⟨log', .cons pull rest⟩

theorem drain_eq (constant : p.plan.selector.IsConstant) (log : ReadLog) :
    (p.drain log).1 = p.rows.map p.value := by
  obtain ⟨catalog, s, plan, rows⟩ := p
  change plan.selector.IsConstant at constant
  induction rows generalizing log with
  | nil => rfl
  | cons row rows ih =>
    have first := Expr.settled_project catalog s row constant log
    have rest := ih ((plan.selector.project catalog s row).after log).2
    unfold drain at rest ⊢
    rw [List.mapM_cons]
    exact congrArg₂ List.cons first rest

end Projector

/-- **A plan reads rows one by one.** Draining a projector gives one result for
each row and in their order, which depends on this row alone. Whenever some
have been pulled, they are those of the first rows, and what is left is a
projector of the others, which knows how many they are. -/
structure Plan.ReadsRowWise (plan : Plan) (catalog : Catalog) (s : Schema) : Prop where
  drain : ∀ rows log,
    ((Projector.mk catalog s plan rows).drain log).1 = rows.map (plan.value catalog s)
  pulls : ∀ rows log xs r,
    (∃ log', (Projector.mk catalog s plan rows).Pulls log xs r log') ↔
      ∃ before after, rows = before ++ after ∧ xs = before.map (plan.value catalog s) ∧
        r = Projector.mk catalog s plan after
  pullsAll : ∀ rows log xs,
    (∃ r log', (Projector.mk catalog s plan rows).Pulls log xs r log' ∧
        (r.next? log').1 = none) ↔
      xs = rows.map (plan.value catalog s)
  sizeHint : ∀ rows log xs r log', (Projector.mk catalog s plan rows).Pulls log xs r log' →
    xs.length ≤ rows.length ∧
      r.sizeHint = (rows.length - xs.length, rows.length - xs.length)

theorem Plan.readsRowWise {plan : Plan} (constant : plan.selector.IsConstant) (catalog : Catalog)
    (s : Schema) : plan.ReadsRowWise catalog s where
  drain rows log := Projector.drain_eq (p := ⟨catalog, s, plan, rows⟩) constant log
  pulls rows log xs r := by
    constructor
    · rintro ⟨log', h⟩
      exact h.exists_split constant
    · rintro ⟨before, after, split, rfl, rfl⟩
      exact Projector.exists_pulls (p := ⟨catalog, s, plan, rows⟩) before constant split log
  pullsAll rows log xs := by
    constructor
    · rintro ⟨r, log', h, ended⟩
      obtain ⟨before, after, split, rfl, rfl⟩ := h.exists_split constant
      obtain rfl : after = [] := Projector.next?_eq_none_iff.1 ended
      obtain rfl : rows = before := split.trans (List.append_nil before)
      rfl
    · rintro rfl
      obtain ⟨log', h⟩ := Projector.exists_pulls (p := ⟨catalog, s, plan, rows⟩) rows constant
        (List.append_nil rows).symm log
      exact ⟨_, log', h, Projector.next?_eq_none_iff.2 rfl⟩
  sizeHint rows log xs r log' h := by
    obtain ⟨before, after, split, rfl, rfl⟩ := h.exists_split constant
    obtain rfl : rows = before ++ after := split
    rw [List.length_map, List.length_append, Nat.add_sub_cancel_left]
    exact ⟨Nat.le_add_right _ _, rfl⟩

/-! ## All rows -/

/-- A list is not worked through just if one of its members is the first that
is not. -/
theorem mapM_eq_error_iff {α β : Type} {f : α → Except Error β} {xs : List α} {e : Error} :
    xs.mapM f = .error e ↔ ∃ before x after, xs = before ++ x :: after ∧
      (∀ y ∈ before, ∃ b, f y = .ok b) ∧ f x = .error e := by
  induction xs with
  | nil =>
    refine ⟨nofun, ?_⟩
    rintro ⟨before, x, after, h, -⟩
    cases before <;> cases h
  | cons x xs ih =>
    rw [List.mapM_cons]
    cases hx : f x with
    | error e' =>
      constructor
      · intro h
        cases h
        exact ⟨[], x, xs, rfl, nofun, hx⟩
      · rintro ⟨_ | ⟨y, before⟩, z, after, h, good, bad⟩
        · cases h
          cases hx.symm.trans bad
          rfl
        · cases h
          obtain ⟨b, hb⟩ := good x List.mem_cons_self
          cases hx.symm.trans hb
    | ok b =>
      have rest : (do let b ← Except.ok b; let bs ← xs.mapM f; pure (b :: bs)) = .error e ↔
          xs.mapM f = .error e := by
        cases xs.mapM f with
        | error => exact ⟨id, id⟩
        | ok => exact ⟨nofun, nofun⟩
      refine rest.trans (ih.trans ?_)
      constructor
      · rintro ⟨before, z, after, rfl, good, bad⟩
        exact ⟨x :: before, z, after, rfl, List.forall_mem_cons.2 ⟨⟨b, hx⟩, good⟩, bad⟩
      · rintro ⟨_ | ⟨y, before⟩, z, after, h, good, bad⟩
        · cases h
          cases hx.symm.trans bad
        · cases h
          exact ⟨before, z, after, rfl, (List.forall_mem_cons.1 good).2, bad⟩

/-- Settled computations for the members of a list are settled together. -/
theorem Reading.settled_mapM {γ δ : Type} {f : γ → Reading δ} (h : ∀ x, (f x).Settled)
    (xs : List γ) : (xs.mapM f).Settled ∧ (xs.mapM f).now = xs.mapM fun x => (f x).now := by
  induction xs with
  | nil => exact ⟨settled_pure _, rfl⟩
  | cons x xs ih =>
    have rest : ∀ b : δ, Settled (do let bs ← xs.mapM f; pure (b :: bs)) ∧
        now (do let bs ← xs.mapM f; pure (b :: bs)) =
          (do let bs ← xs.mapM fun x => (f x).now; pure (b :: bs)) := by
      intro b
      have tail := ih.1.bind fun bs => settled_pure (b :: bs)
      rw [ih.2] at tail
      exact tail
    have whole := (h x).bind fun b => (rest b).1
    rw [List.mapM_cons, List.mapM_cons, whole.2]
    exact ⟨whole.1, bind_congr fun b => (rest b).2⟩

/-- **What a row is for a query**: it is read with the plan, and loaded. -/
def Query.rowOf {α β : Type} (q : Query α β) (plan : Plan) (row : Entity) : Except Error β :=
  plan.value q.model.catalog q.model.schema row >>= q.load

/-- The selector of a plan has captured values of the pipeline. -/
theorem Pipeline.selector_isConstant {p : Pipeline} {log log' : ReadLog} {c : Compiled}
    (constant : p.IsConstant) (h : p.compile.after log = (.ok c, log')) :
    c.plan.selector.IsConstant := by
  rw [selector_of_compile h]
  cases found : p.stages.findSome? Stage.selector? with
  | none => exact nofun
  | some e =>
    obtain ⟨st, hst, selects⟩ := List.exists_of_findSome?_eq_some found
    cases st with
    | project => cases selects; exact constant _ hst
    | _ => cases selects

namespace Session

variable {τ σ α β : Type} {st st' : State τ σ}

/-- A chain of two actions succeeds when both do. -/
theorem bind_apply_eq_ok {x : Action τ σ α} {f : α → Action τ σ β} {b : β} :
    (x >>= f) st = (.ok b, st') ↔ ∃ a st₁, x st = (.ok a, st₁) ∧ f a st₁ = (.ok b, st') := by
  rw [bind_apply]
  rcases x st with ⟨e | a, st₁⟩
  · exact ⟨nofun, fun ⟨_, _, h, _⟩ => nomatch h⟩
  · constructor
    · exact fun h => ⟨a, st₁, rfl, h⟩
    · rintro ⟨_, _, ⟨⟩, h⟩
      exact h

/-- What is fetched has been compiled. -/
theorem exists_compile_of_fetch {s : Session τ σ} {p : Pipeline} {c : Compiled}
    {rows : List Entity} (h : s.fetch p st = (.ok (c, rows), st')) :
    ∃ log', p.compile.after st.reads = (.ok c, log') := by
  obtain ⟨c', _, compiled, h⟩ := bind_apply_eq_ok.1 h
  obtain ⟨_, _, -, h⟩ := bind_apply_eq_ok.1 h
  obtain ⟨_, _, -, h⟩ := bind_apply_eq_ok.1 h
  obtain ⟨_, _, -, h⟩ := bind_apply_eq_ok.1 h
  cases h
  rw [reading_apply] at compiled
  exact ⟨_, Prod.ext (Prod.mk.inj compiled).1 rfl⟩

variable {q : Query α β} {c : Compiled} {rows : List Entity}

/-- **All rows are what each row is**, as long as there is no error. -/
theorem all_eq (s : Session τ σ) (constant : q.pipeline.IsConstant)
    (h : s.fetch q.pipeline st = (.ok (c, rows), st')) :
    (s.all q st).1 = rows.mapM (q.rowOf c.plan) := by
  obtain ⟨log', compiled⟩ := exists_compile_of_fetch h
  have selector := Pipeline.selector_isConstant constant compiled
  have each : ∀ row, (readRow q c.plan row).Settled ∧
      (readRow q c.plan row).now = q.rowOf c.plan row := fun row =>
    (Expr.settled_project _ _ row selector).bind fun v => Reading.settled_ofExcept (q.load v)
  obtain ⟨settled, now⟩ := Reading.settled_mapM (fun row => (each row).1) rows
  rw [all, bind_apply, h]
  dsimp only
  rw [reading_apply, settled, now]
  exact congrArg (fun f => rows.mapM f) (funext fun row => (each row).2)

/-- **Rows are read one by one.** The plan of a query reads each row by itself,
whatever has been read before. The call for all rows gives what they are for the
query, one for each and in their order, if all of them can be read and loaded;
else it gives the error of the first one that cannot. If there are no rows to be
had, it gives the error of that. -/
theorem reads_row_wise (s : Session τ σ) (q : Query α β) (constant : q.pipeline.IsConstant) :
    (∀ log c log', q.pipeline.compile.after log = (.ok c, log') →
      c.plan.ReadsRowWise q.model.catalog q.model.schema) ∧
    (∀ st c rows st', s.fetch q.pipeline st = (.ok (c, rows), st') →
      (∀ bs, (s.all q st).1 = .ok bs ↔
        List.Forall₂ (fun row b => q.rowOf c.plan row = .ok b) rows bs) ∧
      ∀ e, (s.all q st).1 = .error e ↔ ∃ before row after, rows = before ++ row :: after ∧
        (∀ r ∈ before, ∃ b, q.rowOf c.plan r = .ok b) ∧ q.rowOf c.plan row = .error e) ∧
    ∀ st e st', s.fetch q.pipeline st = (.error e, st') → (s.all q st).1 = .error e := by
  refine ⟨fun log c log' compiled => ?_, fun st c rows st' fetched => ?_, fun st e st' failed => ?_⟩
  · exact Plan.readsRowWise (Pipeline.selector_isConstant constant compiled) _ _
  · rw [all_eq s constant fetched]
    exact ⟨fun bs => mapM_eq_ok_iff, fun e => mapM_eq_error_iff⟩
  · rw [all, bind_apply, failed]

/-- The ages of persons, each with the same number from outside. -/
def numberedAges : Query Record Value :=
  (Query.all (.ofSchema ⟨[]⟩ Pipeline.sample.schema)).select
    (.value (.record [.field "Age", .captured ⟨3, .int32 1, []⟩]))

/-- A session whose store has one answer. -/
def oneAnswer : Session Script Unit :=
  ⟨Script.transport, fun _ advisor => (.ok (), advisor), .standard⟩

/-- The state in which these rows are the answer. -/
def answering (rows : List Entity) : State Script Unit := ⟨⟨[.ok rows], [], []⟩, (), [], []⟩

/-- The second row has no age. All three rows have a result in their place, and
the call for all rows gives the error; without this row it gives the others. -/
theorem reads_row_wise_numberedAges :
    (oneAnswer.all numberedAges
        (answering [Pipeline.sampleRow, ⟨none, []⟩, Pipeline.sampleRow])).1 =
      .error (.of (.invalidResult (.columnAbsent "Age"))) ∧
    (oneAnswer.all numberedAges (answering [Pipeline.sampleRow, Pipeline.sampleRow])).1 =
      .ok [.record [.int32 7, .int32 1], .record [.int32 7, .int32 1]] ∧
    ∃ c, numberedAges.pipeline.compile.after [] = (.ok c, []) ∧
      ((Projector.mk ⟨[]⟩ Pipeline.sample.schema c.plan
          [Pipeline.sampleRow, ⟨none, []⟩, Pipeline.sampleRow]).drain [3, 3]).1 =
        [.ok (.record [.int32 7, .int32 1]), .error (.of (.invalidResult (.columnAbsent "Age"))),
          .ok (.record [.int32 7, .int32 1])] := by
  have constant : numberedAges.pipeline.IsConstant := by
    simp [Pipeline.IsConstant, Query.pipeline, numberedAges, Query.select, Query.all,
      Selector.lower, Stage.captures, Expr.captures, Expr.capturesOfAll, Expr.field,
      Captured.IsConstant]
  obtain ⟨plan, answered, -⟩ := reads_row_wise oneAnswer numberedAges constant
  obtain ⟨c, compiled⟩ : ∃ c, numberedAges.pipeline.compile.after [] = (.ok c, []) := ⟨_, rfl⟩
  have fetched : ∀ rows, ∃ st', oneAnswer.fetch numberedAges.pipeline (answering rows) =
      (.ok (c, rows), st') := by
    cases compiled
    exact fun rows => ⟨_, rfl⟩
  have adult : numberedAges.rowOf c.plan Pipeline.sampleRow =
      .ok (.record [.int32 7, .int32 1]) := by
    cases compiled
    rfl
  have ageless : numberedAges.rowOf c.plan ⟨none, []⟩ =
      .error (.of (.invalidResult (.columnAbsent "Age"))) := by
    cases compiled
    rfl
  refine ⟨?_, ?_, c, compiled, ?_⟩
  · obtain ⟨_, h⟩ := fetched [Pipeline.sampleRow, ⟨none, []⟩, Pipeline.sampleRow]
    refine ((answered _ c _ _ h).2 _).2 ⟨[Pipeline.sampleRow], _, _, rfl, ?_, ageless⟩
    exact List.forall_mem_singleton.2 ⟨_, adult⟩
  · obtain ⟨_, h⟩ := fetched [Pipeline.sampleRow, Pipeline.sampleRow]
    exact ((answered _ c _ _ h).1 _).2 (.cons adult (.cons adult .nil))
  · refine ((plan [] c [] compiled).drain _ _).trans ?_
    cases compiled
    rfl

end Session

end KindQuery
