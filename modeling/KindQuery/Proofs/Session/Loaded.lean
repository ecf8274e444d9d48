import KindQuery.Proofs.Session.RowWise
/-!
# What was selected

A selector is lowered to an expression, the expression has a value for an
entity, and the selector loads this value. A tuple finds its components in the
slots of a record, so that it loads what its leaves load from values of their own
(`Selector.loadsSelected`). A query gets its loader and a stage from the same
selector. If it can be compiled, there is one such stage at most, and the loader
is that of its selector (`Query.loads_selected`).
-/

namespace KindQuery

/-! ## Values of records -/

/-- A record is read from left to right, as long as captured values are
constant. -/
theorem Expr.now_project_record_eq_ok {catalog : Catalog} {s : Schema} {entity : Entity}
    {es : List Expr} {v : Value} (constant : ∀ e ∈ es, e.IsConstant) :
    ((Expr.record es).project catalog s entity).now = .ok v ↔
      ∃ vs, List.Forall₂ (fun e v => (e.project catalog s entity).now = .ok v) es vs ∧
        v = .record vs := by
  have all : (projectAll catalog s entity es).Settled ∧ (projectAll catalog s entity es).now =
      es.mapM fun e => (e.project catalog s entity).now := by
    induction es with
    | nil => exact ⟨Reading.settled_pure _, rfl⟩
    | cons e es ih =>
      obtain ⟨first, rest⟩ := List.forall_mem_cons.1 constant
      have tail := fun v => (ih rest).1.bind fun vs => Reading.settled_pure (v :: vs)
      have whole := (settled_project catalog s entity first).bind fun v => (tail v).1
      rw [projectAll, List.mapM_cons]
      refine ⟨whole.1, whole.2.trans (bind_congr fun v => ?_)⟩
      rw [(tail v).2, (ih rest).2]
      rfl
  have record := all.1.bind fun vs => Reading.settled_pure (Value.record vs)
  rw [project, record.2, all.2, bind_eq_ok]
  refine exists_congr fun vs => and_congr mapM_eq_ok_iff ?_
  rw [Reading.now_pure, Except.ok.injEq, eq_comm]

namespace Selector

variable {α β γ δ : Type}

/-! ## Leaves -/

/-- Some selector, whatever it selects. -/
abbrev Any (α : Type) := (β : Type) × Selector α β

/-- **A typed selector** has whole elements, fields and constants as its leaves. -/
def IsTyped {β : Type} : Selector α β → Prop
  | row | path _ | literal _ => True
  | value _ => False
  | pair a b => a.IsTyped ∧ b.IsTyped
  | triple a b c => a.IsTyped ∧ b.IsTyped ∧ c.IsTyped

/-- A selector that is no tuple. -/
def IsLeaf : Selector α β → Prop
  | pair _ _ | triple _ _ _ => False
  | row | path _ | literal _ | value _ => True

/-- What is no tuple in a selector, from left to right. -/
def leaves {β : Type} : Selector α β → List (Any α)
  | pair a b => a.leaves ++ b.leaves
  | triple a b c => a.leaves ++ (b.leaves ++ c.leaves)
  | row => [⟨_, row⟩]
  | path p => [⟨_, path p⟩]
  | literal b => [⟨_, literal b⟩]
  | value e => [⟨_, value e⟩]

variable (m : Model α) (entity : Entity)

/-- **The value of a selector** for an entity, when nothing has been read before. -/
def valueFor (s : Selector α β) : Except Error Value :=
  (s.lower.project m.catalog m.schema entity).now

/-- What a selector loads from the value of its own. -/
def loadOwn (s : Selector α β) : Except Error β := do s.load m (← s.valueFor m entity)

/-- **What a selector loads leaf by leaf**, in its own shape. -/
def loadLeaves {β : Type} : Selector α β → Except Error β
  | pair a b => do
    let x ← a.loadLeaves
    let y ← b.loadLeaves
    .ok (x, y)
  | triple a b c => do
    let x ← a.loadLeaves
    let y ← b.loadLeaves
    let z ← c.loadLeaves
    .ok (x, y, z)
  | row => row.loadOwn m entity
  | path p => (path p).loadOwn m entity
  | literal b => (literal b).loadOwn m entity
  | value e => (value e).loadOwn m entity

/-- **How a selector loads its value.** A leaf loads the value of its own. A tuple
has a record with one slot for each component, which holds the value of this
component, and loads the component from there. -/
inductive Loads : {β : Type} → Selector α β → Value → Except Error β → Prop
  | leaf {β : Type} {s : Selector α β} {v : Value} :
      s.IsLeaf → s.valueFor m entity = .ok v → Loads s v (s.load m v)
  | pair {β γ : Type} {a : Selector α β} {b : Selector α γ} {va vb : Value}
      {x : Except Error β} {y : Except Error γ} :
      Loads a va x → Loads b vb y →
      Loads (.pair a b) (.record [va, vb]) (do
        let x ← x
        let y ← y
        .ok (x, y))
  | triple {β γ δ : Type} {a : Selector α β} {b : Selector α γ} {c : Selector α δ}
      {va vb vc : Value} {x : Except Error β} {y : Except Error γ} {z : Except Error δ} :
      Loads a va x → Loads b vb y → Loads c vc z →
      Loads (.triple a b c) (.record [va, vb, vc]) (do
        let x ← x
        let y ← y
        let z ← z
        .ok (x, y, z))

/-- The error of a result. -/
def errorOf? {β : Type} : Except Error β → Option Error
  | .ok _ => none
  | .error e => some e

/-- **A selector loads what it has selected** from the value `v`. -/
structure LoadsSelected (s : Selector α β) (v : Value) : Prop where
  /-- Each leaf has a value. -/
  values : ∀ l ∈ s.leaves, ∃ w, l.2.valueFor m entity = .ok w
  /-- Tuples find their components in the slots of records. -/
  loads : s.Loads m entity v (s.load m v)
  /-- What is loaded is what the leaves load. -/
  leafwise : s.load m v = s.loadLeaves m entity
  /-- If this fails, it is with the error of the first leaf that cannot be
  loaded. -/
  first : errorOf? (s.load m v) = s.leaves.findSome? fun l => errorOf? (l.2.loadOwn m entity)

variable {m entity} {a : Selector α β} {b : Selector α γ} {c : Selector α δ} {s : Selector α β}
  {v : Value}

/-! ## Values of selectors -/

/-- Typed selectors have no captured values. -/
theorem IsTyped.isConstant (h : s.IsTyped) : s.lower.IsConstant := by
  have none : s.lower.captures = [] := by
    induction s with
    | row | path | literal => rfl
    | value => cases h
    | pair a b iha ihb =>
      simp only [lower, Expr.captures, Expr.capturesOfAll, iha h.1, ihb h.2, List.append_nil]
    | triple a b c iha ihb ihc =>
      simp only [lower, Expr.captures, Expr.capturesOfAll, iha h.1, ihb h.2.1, ihc h.2.2,
        List.append_nil]
  intro c hc
  rw [none] at hc
  cases hc

/-- So they have the same value at any time. -/
theorem IsTyped.valueFor_eq (h : s.IsTyped) {log log' : ReadLog} {r : Except Error Value}
    (value : (s.lower.project m.catalog m.schema entity).after log = (r, log')) :
    s.valueFor m entity = r := by
  rw [valueFor, ← Expr.settled_project _ _ _ h.isConstant log, value]

/-- The value of a pair has one slot for each component. -/
theorem exists_slots_of_pair (ha : a.IsTyped) (hb : b.IsTyped)
    (h : (pair a b).valueFor m entity = .ok v) :
    ∃ va vb, a.valueFor m entity = .ok va ∧ b.valueFor m entity = .ok vb ∧
      v = .record [va, vb] := by
  obtain ⟨vs, slots, rfl⟩ := (Expr.now_project_record_eq_ok (by simp [ha.isConstant, hb.isConstant])).1 h
  simp only [List.forall₂_cons_left_iff, List.forall₂_nil_left_iff] at slots
  obtain ⟨va, _, hva, ⟨vb, _, hvb, rfl, rfl⟩, rfl⟩ := slots
  exact ⟨va, vb, hva, hvb, rfl⟩

theorem exists_slots_of_triple (ha : a.IsTyped) (hb : b.IsTyped) (hc : c.IsTyped)
    (h : (triple a b c).valueFor m entity = .ok v) :
    ∃ va vb vc, a.valueFor m entity = .ok va ∧ b.valueFor m entity = .ok vb ∧
      c.valueFor m entity = .ok vc ∧ v = .record [va, vb, vc] := by
  obtain ⟨vs, slots, rfl⟩ := (Expr.now_project_record_eq_ok
    (by simp [ha.isConstant, hb.isConstant, hc.isConstant])).1 h
  simp only [List.forall₂_cons_left_iff, List.forall₂_nil_left_iff] at slots
  obtain ⟨va, _, hva, ⟨vb, _, hvb, ⟨vc, _, hvc, rfl, rfl⟩, rfl⟩, rfl⟩ := slots
  exact ⟨va, vb, vc, hva, hvb, hvc, rfl⟩

/-- **A typed selector finds its components** in the value that it has. -/
theorem IsTyped.loads (typed : s.IsTyped) (h : s.valueFor m entity = .ok v) :
    s.Loads m entity v (s.load m v) := by
  induction s generalizing v with
  | row | path | literal => exact .leaf trivial h
  | value => cases typed
  | pair a b iha ihb =>
    obtain ⟨va, vb, hva, hvb, rfl⟩ := exists_slots_of_pair typed.1 typed.2 h
    exact .pair (iha typed.1 hva) (ihb typed.2 hvb)
  | triple a b c iha ihb ihc =>
    obtain ⟨va, vb, vc, hva, hvb, hvc, rfl⟩ :=
      exists_slots_of_triple typed.1 typed.2.1 typed.2.2 h
    exact .triple (iha typed.1 hva) (ihb typed.2.1 hvb) (ihc typed.2.2 hvc)

/-! ## What is loaded -/

theorem IsLeaf.leaves_eq (h : s.IsLeaf) : s.leaves = [⟨β, s⟩] := by
  cases s with
  | pair | triple => exact h.elim
  | row | path | literal | value => rfl

theorem IsLeaf.loadLeaves_eq (h : s.IsLeaf) : s.loadLeaves m entity = s.loadOwn m entity := by
  cases s with
  | pair | triple => exact h.elim
  | row | path | literal | value => rfl

theorem loadOwn_of_valueFor (h : s.valueFor m entity = .ok v) : s.loadOwn m entity = s.load m v := by
  rw [loadOwn, h]
  rfl

namespace Loads

variable {r : Except Error β}

theorem values (h : s.Loads m entity v r) : ∀ l ∈ s.leaves, ∃ w, l.2.valueFor m entity = .ok w := by
  induction h with
  | leaf leaf own =>
    rw [leaf.leaves_eq]
    exact List.forall_mem_singleton.2 ⟨_, own⟩
  | pair _ _ iha ihb => exact List.forall_mem_append.2 ⟨iha, ihb⟩
  | triple _ _ _ iha ihb ihc =>
    exact List.forall_mem_append.2 ⟨iha, List.forall_mem_append.2 ⟨ihb, ihc⟩⟩

theorem eq_loadLeaves (h : s.Loads m entity v r) : r = s.loadLeaves m entity := by
  induction h with
  | leaf leaf own => rw [leaf.loadLeaves_eq, loadOwn_of_valueFor own]
  | pair _ _ iha ihb => rw [iha, ihb, loadLeaves]
  | triple _ _ _ iha ihb ihc => rw [iha, ihb, ihc, loadLeaves]

theorem errorOf?_eq (h : s.Loads m entity v r) :
    errorOf? r = s.leaves.findSome? fun l => errorOf? (l.2.loadOwn m entity) := by
  induction h with
  | leaf leaf own => rw [leaf.leaves_eq, List.findSome?_singleton, loadOwn_of_valueFor own]
  | @pair _ _ a b _ _ x y _ _ iha ihb =>
    rw [leaves, List.findSome?_append, ← iha, ← ihb]
    cases x <;> cases y <;> rfl
  | @triple _ _ _ a b c _ _ _ x y z _ _ _ iha ihb ihc =>
    rw [leaves, List.findSome?_append, List.findSome?_append, ← iha, ← ihb, ← ihc]
    cases x <;> cases y <;> cases z <;> rfl

end Loads

theorem loadsSelected (typed : s.IsTyped) (h : s.valueFor m entity = .ok v) :
    s.LoadsSelected m entity v :=
  have loads := typed.loads h
  ⟨loads.values, loads, loads.eq_loadLeaves, loads.errorOf?_eq⟩

end Selector

/-! ## Loaders -/

/-- How rows of some type are loaded. -/
abbrev Loader := (β : Type) × (Value → Except Error β)

/-- The loader of a query. -/
def Query.loader {α β : Type} (q : Query α β) : Loader := ⟨β, q.load⟩

/-- The loader of a selector. -/
def Selector.Any.loader {α : Type} (m : Model α) (s : Any α) : Loader := ⟨s.1, s.2.load m⟩

/-! ## Queries -/

namespace Query

open Selector (Any)

/-- **Calls that build a query**, one after the other. -/
inductive Calls (α : Type) : Type → Type 1 where
  /-- Every element. -/
  | all : Calls α α
  | filter {β : Type} (calls : Calls α β) (condition : Term Bool) : Calls α β
  | orderBy {β γ : Type} (calls : Calls α β) (p : Path α γ) (direction : Direction) : Calls α β
  | take {β : Type} (calls : Calls α β) (count : Term Int64) : Calls α β
  | skip {β : Type} (calls : Calls α β) (count : Term Int64) : Calls α β
  | select {β γ : Type} (calls : Calls α β) (s : Selector α γ) : Calls α γ
  | terminal {β : Type} (calls : Calls α β) (kind : Terminal) (condition : Option (Term Bool)) :
      Calls α β

namespace Calls

variable {α β : Type}

/-- The query that is built. -/
def query (m : Model α) {β : Type} : Calls α β → Query α β
  | all => .all m
  | filter calls condition => (calls.query m).filter condition
  | orderBy calls p direction => (calls.query m).orderBy p direction
  | take calls count => (calls.query m).take count
  | skip calls count => (calls.query m).skip count
  | select calls s => (calls.query m).select s
  | terminal calls kind condition => (calls.query m).terminal kind condition

/-- The selectors that are selected, in the order of the calls. -/
def selectors {β : Type} : Calls α β → List (Any α)
  | all => []
  | select calls s => calls.selectors ++ [⟨_, s⟩]
  | filter calls _ | orderBy calls _ _ | take calls _ | skip calls _ | terminal calls _ _ =>
    calls.selectors

/-- **The selector of a compiled query.** It is the only one that has been
selected, or that of the whole element. Rows are evaluated with its expression
and loaded with its loader. -/
structure Reads (m : Model α) (calls : Calls α β) (c : Compiled) (s : Any α) : Prop where
  only : calls.selectors = [s] ∨ calls.selectors = [] ∧ s = ⟨α, .row⟩
  stages : (calls.query m).stages.filterMap Stage.selector? =
    calls.selectors.map fun s => s.2.lower
  plan : c.plan.selector = s.2.lower
  loader : (calls.query m).loader = s.loader m

variable {m : Model α}

/-- Each selector has a stage. -/
theorem filterMap_selector?_stages (calls : Calls α β) :
    (calls.query m).stages.filterMap Stage.selector? = calls.selectors.map fun s => s.2.lower := by
  have pushed : ∀ {β : Type} (q : Query α β) (st : Stage), st.selector? = none →
      (q.push st).stages.filterMap Stage.selector? = q.stages.filterMap Stage.selector? := by
    intro β q st none
    rw [Query.push, List.filterMap_append, List.filterMap_cons_none none, List.filterMap_nil,
      List.append_nil]
  induction calls with
  | all => rfl
  | filter _ _ ih | orderBy _ _ _ ih | take _ _ ih | skip _ _ ih | terminal _ _ _ ih =>
    exact (pushed _ _ rfl).trans ih
  | select calls s ih =>
    rw [query, Query.select, List.filterMap_append, ih, selectors, List.map_append]
    rfl

theorem model_query (calls : Calls α β) : (calls.query m).model = m := by
  induction calls with
  | all => rfl
  | filter _ _ ih | orderBy _ _ _ ih | take _ _ ih | skip _ _ ih | select _ _ ih
  | terminal _ _ _ ih => exact ih

/-- **The loader is that of the last selector.** -/
theorem loader_query (calls : Calls α β) :
    (calls.query m).loader = (calls.selectors.getLast?.getD ⟨α, .row⟩).loader m := by
  induction calls with
  | all => rfl
  | filter _ _ ih | orderBy _ _ _ ih | take _ _ ih | skip _ _ ih | terminal _ _ _ ih => exact ih
  | select calls s ih =>
    rw [selectors, List.getLast?_concat]
    change (⟨_, s.load (calls.query m).model⟩ : Loader) = ⟨_, s.load m⟩
    rw [model_query]

/-- A query that can be compiled has one selector at most. -/
theorem exists_reads (calls : Calls α β) {log log' : ReadLog} {c : Compiled}
    (h : (calls.query m).pipeline.compile.after log = (.ok c, log')) :
    ∃ s, calls.Reads m c s := by
  obtain ⟨_, _, _, behind⟩ := Pipeline.exists_behind h
  have stages := filterMap_selector?_stages (m := m) calls
  have loader := loader_query (m := m) calls
  have plan := Pipeline.selector_of_compile h
  have one : (calls.selectors.map fun s => s.2.lower).length ≤ 1 := stages ▸ behind.oneSelector
  rw [← List.head?_filterMap] at plan
  change c.plan.selector = ((calls.query m).stages.filterMap Stage.selector?).head?.getD .row at plan
  rw [stages] at plan
  match hs : calls.selectors, one with
  | [], _ =>
    rw [hs] at loader plan
    exact ⟨⟨α, .row⟩, .inr ⟨hs, rfl⟩, stages, plan, loader⟩
  | [s], _ =>
    rw [hs] at loader plan
    exact ⟨s, .inl hs, stages, plan, loader⟩

end Calls

/-- **What is loaded is what was selected.** A typed selector loads the value that
it has for an entity as its leaves load theirs, in its own shape, and fails with the
error of the first leaf that cannot be loaded. A query that can be compiled loads
its rows as its only selector does, or as whole elements if there is none. -/
theorem loads_selected {α : Type} (m : Model α) :
    (∀ {β : Type} (s : Selector α β) (entity : Entity) (v : Value) (log log' : ReadLog),
      s.IsTyped → (s.lower.project m.catalog m.schema entity).after log = (.ok v, log') →
      s.LoadsSelected m entity v) ∧
    ∀ {β : Type} (calls : Calls α β) (c : Compiled) (log log' : ReadLog),
      (calls.query m).pipeline.compile.after log = (.ok c, log') → ∃ s, calls.Reads m c s :=
  ⟨fun _ _ _ _ _ typed value => Selector.loadsSelected typed (typed.valueFor_eq value),
    fun calls _ _ _ compiled => calls.exists_reads compiled⟩

/-- Persons as records. -/
def persons : Model Record := .ofSchema ⟨[]⟩ Pipeline.sample.schema

/-- A person with a key. -/
def adaRow : Entity :=
  ⟨some ⟨"Person", "ada"⟩, [("Adult", ⟨.boolean true, true⟩), ("Age", ⟨.integer 7, true⟩)]⟩

/-- The key and the age of a person, and the whole person with a constant. -/
def nested : Selector Record ((String × Int32) × (Bool × Int64 × Record)) :=
  .pair (.pair (.path ⟨"Id"⟩) (.path ⟨"Age"⟩)) (.triple (.path ⟨"Adult"⟩) (.literal 9) .row)

/-- The same with fields of other types. -/
def mistyped : Selector Record ((String × Bool) × (String × Int64 × Record)) :=
  .pair (.pair (.path ⟨"Id"⟩) (.path ⟨"Age"⟩)) (.triple (.path ⟨"Adult"⟩) (.literal 9) .row)

/-- The first three adults, selected as above. -/
def nestedCalls : Calls Record ((String × Int32) × (Bool × Int64 × Record)) :=
  ((Calls.all.filter ⟨.field "Adult"⟩).select nested).take ⟨.value (.int64 3)⟩

/-- A tuple of tuples loads what its leaves load. Where two of them fail, the first
error remains. The loader is that of the selector, with other calls around it. -/
theorem loads_selected_nested :
    (∃ v, (nested.lower.project ⟨[]⟩ Pipeline.sample.schema adaRow).after [] = (.ok v, []) ∧
      nested.load persons v =
        .ok (("ada", 7), true, 9, [.text "ada", .bool true, .int32 7])) ∧
    (∃ v, (mistyped.lower.project ⟨[]⟩ Pipeline.sample.schema adaRow).after [] = (.ok v, []) ∧
      Selector.errorOf? (mistyped.load persons v) =
        some (.of (.conversion "I32(7)" "bool"))) ∧
    ∃ c s, (nestedCalls.query persons).pipeline.compile.after [] = (.ok c, []) ∧
      nestedCalls.Reads persons c s := by
  obtain ⟨loaded, compiled⟩ := loads_selected persons
  obtain ⟨v, hv⟩ : ∃ v, (nested.lower.project ⟨[]⟩ Pipeline.sample.schema adaRow).after [] =
    (.ok v, []) := ⟨_, rfl⟩
  obtain ⟨w, hw⟩ : ∃ w, (mistyped.lower.project ⟨[]⟩ Pipeline.sample.schema adaRow).after [] =
    (.ok w, []) := ⟨_, rfl⟩
  obtain ⟨c, hc⟩ : ∃ c, (nestedCalls.query persons).pipeline.compile.after [] = (.ok c, []) :=
    ⟨_, rfl⟩
  obtain ⟨s, reads⟩ := compiled nestedCalls c [] [] hc
  refine ⟨⟨v, hv, ?_⟩, ⟨w, hw, ?_⟩, c, s, hc, reads⟩
  · exact (loaded nested adaRow v [] [] (by simp [nested, Selector.IsTyped]) hv).leafwise.trans rfl
  · exact (loaded mistyped adaRow w [] [] (by simp [mistyped, Selector.IsTyped]) hw).first.trans rfl

end Query

end KindQuery
