import KindQuery.Proofs.Query.Predicate
import KindQuery.Proofs.Query.Run
/-!
# Queries that can be written

Writing a query fails only where a text in it is empty, or where the two
marks of an ordering do not come together. The second never happens to the
draft of a ledger, and the first does not if the kind and its fields have
names: `exists_render` and `Run.writable`.
-/

namespace KindQuery

variable {s : Schema}

/-! ## Columns -/

/-- Every column that a member can read has the property. -/
def Schema.Columns (s : Schema) (P : String → Prop) : Prop :=
  ∀ m column, s.column m = .ok column → P column

variable {P : String → Prop}

/-- What the fields of a schema and the key column are called. -/
theorem Schema.columns_of_forall (hs : ∀ f ∈ s.fields, P f.name) (hkey : P keyColumn) :
    s.Columns P := by
  intro m column h
  obtain ⟨name, -, hf, rfl⟩ := Schema.column_eq_ok.1 h
  obtain ⟨f, hmem, rfl⟩ := Schema.isSome_field?.1 hf
  split
  · exact hkey
  · exact hs f hmem

/-- What a predicate amounts to compares columns that members read. -/
theorem Expr.conditions_columns (hs : s.Columns P) (e : Expr) {i : Option String}
    {c : Conjunction} {log log' : ReadLog} (h : (e.conditions s i).after log = (.ok c, log')) :
    ∀ k ∈ c.conditions, P k.column := by
  intro k hk
  obtain ⟨m, -, hc⟩ := (yields_of_mem_conditions e h k hk).readsFrom
  exact hs m k.column hc

/-! ## Plans -/

namespace Expr

mutual

/-- Every column that a selector asks for is one that a member of it is read
from. -/
theorem readsFrom_of_mem_sources :
    ∀ (e : Expr) {sources : List Source}, e.sources s = .ok sources →
      ∀ column, .column column ∈ sources → e.ReadsFrom s column
  | .row, _, h => by
    cases h
    simp
  | .value _, _, h | .captured _, _, h => by
    cases h
    simp
  | .member m, _, h => by
    simp only [sources, bind_eq_ok, Except.ok.injEq] at h
    obtain ⟨column, hc, rfl⟩ := h
    intro column' hmem
    cases List.mem_singleton.1 hmem
    exact ⟨m, List.mem_singleton_self m, hc⟩
  | .record es, _, h => readsFrom_of_mem_sourcesOfAll es h
  | .negation _, _, h | .comparison _ _ _, _, h | .conjunction _, _, h | .disjunction _, _, h
  | .call _ _ _, _, h => by simp [sources] at h

theorem readsFrom_of_mem_sourcesOfAll :
    ∀ (es : List Expr) {sources : List Source}, sourcesOfAll s es = .ok sources →
      ∀ column, .column column ∈ sources → ∃ m ∈ membersOfAll es, s.column m = .ok column
  | [], _, h => by
    cases h
    simp
  | e :: es, _, h => by
    simp only [sourcesOfAll, bind_eq_ok, Except.ok.injEq] at h
    obtain ⟨a, ha, b, hb, rfl⟩ := h
    intro column hmem
    rcases List.mem_append.1 hmem with hmem | hmem
    · obtain ⟨m, hm, hc⟩ := readsFrom_of_mem_sources e ha column hmem
      exact ⟨m, List.mem_append_left _ hm, hc⟩
    · obtain ⟨m, hm, hc⟩ := readsFrom_of_mem_sourcesOfAll es hb column hmem
      exact ⟨m, List.mem_append_right _ hm, hc⟩

end

end Expr

/-- A list of columns that have names is not an empty text. -/
theorem Plan.columnText_ne_empty {plan : Plan} (h : ∀ column ∈ plan.columns, column ≠ "") :
    plan.columnText ≠ "" := by
  unfold columnText selectsAll
  match hc : plan.columns with
  | [] => decide
  | [column] =>
    rw [String.intercalate_singleton]
    exact h column (by simp [hc])
  | column :: next :: rest =>
    have hne : column ≠ "" := h column (by simp [hc])
    simp [String.intercalate_cons_cons, hne]

/-- The columns of a plan are those that members of its selector are read
from. -/
theorem Pipeline.readsFrom_of_mem_columns {p : Pipeline} {plan : Plan} (h : p.plan = .ok plan) :
    ∀ column ∈ plan.columns, plan.selector.ReadsFrom p.schema column := by
  obtain ⟨-, sources, hsources, hcolumns⟩ := plan_eq_ok.1 h
  intro column hmem
  rw [hcolumns, requiredColumns] at hmem
  split at hmem
  · cases hmem
  · obtain ⟨source, hsource, hcolumn⟩ := List.mem_filterMap.1 (mem_distinct.1 hmem)
    cases source with
    | wholeRow => cases hcolumn
    | column name =>
      cases hcolumn
      exact Expr.readsFrom_of_mem_sources _ hsources _ hsource

theorem Pipeline.plan_columns {p : Pipeline} (hs : p.schema.Columns P)
    {plan : Plan} (h : p.plan = .ok plan) : ∀ column ∈ plan.columns, P column := by
  intro column hmem
  obtain ⟨m, -, hc⟩ := readsFrom_of_mem_columns h column hmem
  exact hs m column hc

/-! ## Ledgers -/

/-- Conditions and ordering of a ledger refer to columns with the property. -/
structure Ledger.Refers (P : String → Prop) (l : Ledger) : Prop where
  conditions : ∀ k ∈ l.conditions, P k.column
  order : ∀ o ∈ l.order, P o.2

/-- A ledger in which every text that is written has a letter. -/
structure Ledger.Writable (l : Ledger) : Prop extends Ledger.Refers (· ≠ "") l where
  columns : l.columns ≠ ""
  kind : l.kind ≠ ""

namespace Ledger

variable {mode : Mode} {l l' : Ledger} {log log' : ReadLog}

theorem Refers.require (h : l.Refers P) {c : Conjunction} (hc : ∀ k ∈ c.conditions, P k.column) :
    (l.require c).Refers P :=
  { h with conditions := List.forall_mem_append.2 ⟨h.conditions, hc⟩ }

/-- What a stage adds refers to columns that members read. -/
theorem Step.refers (hs : s.Columns P) {st : Stage} (h : Step s mode l log st l' log')
    (hl : l.Refers P) : l'.Refers P := by
  cases h with
  | filter hc => exact hl.require (Expr.conditions_columns hs _ hc)
  | project | repeated => exact hl
  | orderBy ho hc =>
    refine { hl with order := fun o hmem => ?_ }
    cases hmem
    exact hs _ _ hc
  | page | close => exact ⟨hl.conditions, hl.order⟩
  | filterClose hc =>
    have hrequire := hl.require (Expr.conditions_columns hs _ hc)
    exact ⟨hrequire.conditions, hrequire.order⟩

theorem Step.columns_eq {st : Stage} (h : Step s mode l log st l' log') :
    l'.columns = l.columns ∧ l'.kind = l.kind := by
  cases h <;> exact ⟨rfl, rfl⟩

namespace Run

variable {stages : List Stage}

/-- **A run refers to columns that members read.** -/
theorem refers (hs : s.Columns P) (h : Run s mode l log stages l' log') (hl : l.Refers P) :
    l'.Refers P := by
  induction h with
  | nil => exact hl
  | cons hst _ ih => exact ih (hst.refers hs hl)

/-- What is projected, and of which kind, is settled before the first stage. -/
theorem columns_eq (h : Run s mode l log stages l' log') :
    l'.columns = l.columns ∧ l'.kind = l.kind := by
  induction h with
  | nil => exact ⟨rfl, rfl⟩
  | cons hst _ ih => exact ⟨ih.1.trans hst.columns_eq.1, ih.2.trans hst.columns_eq.2⟩

/-- **A run keeps its ledger writable.** -/
theorem writable (hs : s.Columns (· ≠ "")) (h : Run s mode l log stages l' log')
    (hl : l.Writable) : l'.Writable := by
  obtain ⟨hcolumns, hkind⟩ := h.columns_eq
  refine { h.refers hs hl.toRefers with columns := ?_, kind := ?_ }
  · rw [hcolumns]
    exact hl.columns
  · rw [hkind]
    exact hl.kind

end Run

theorem refers_start {plan : Plan} : (start s plan).Refers P where
  conditions := by simp [start]
  order := by simp [start]

theorem writable_start {plan : Plan} (hkind : s.name ≠ "")
    (hplan : ∀ column ∈ plan.columns, column ≠ "") : (start s plan).Writable where
  toRefers := refers_start
  columns := Plan.columnText_ne_empty hplan
  kind := hkind

end Ledger

/-! ## Fragments -/

/-- A fragment whose text, if it has one, is not empty. -/
def Fragment.Writable : Fragment → Prop
  | .projection text | .kind text | .member text | .param text | .constant text
  | .orderByField text => text ≠ ""
  | _ => True

theorem requireText_of_ne_empty {fragment text : String} (h : text ≠ "") :
    requireText fragment text = .ok text := by
  simp [requireText, h]

theorem Fragment.Writable.exists_inPlace {f : Fragment} (h : f.Writable) :
    ∃ text, f.inPlace .named = .ok text := by
  cases f with
  | param name =>
    exact ⟨"@" ++ name, by
      simp only [inPlace, Placeholder.write, requireText_of_ne_empty h, Placeholder.named]
      rfl⟩
  | orderByField name =>
    exact ⟨"", by
      simp only [inPlace, requireText_of_ne_empty h]
      rfl⟩
  | projection text | kind text | member text | constant text =>
    exact ⟨text, requireText_of_ne_empty h⟩
  | _ => exact ⟨_, rfl⟩

/-- A list is worked through when each of its members is. -/
theorem exists_mapM_eq_ok {α β : Type} {f : α → Except Error β} {xs : List α}
    (h : ∀ x ∈ xs, ∃ y, f x = .ok y) : ∃ ys, xs.mapM f = .ok ys := by
  induction xs with
  | nil => exact ⟨[], rfl⟩
  | cons x xs ih =>
    obtain ⟨⟨y, hy⟩, hxs⟩ := List.forall_mem_cons.1 h
    obtain ⟨ys, hys⟩ := ih hxs
    refine ⟨y :: ys, ?_⟩
    rw [List.mapM_cons, bind_eq_ok]
    exact ⟨y, hy, bind_eq_ok.2 ⟨ys, hys, rfl⟩⟩

theorem Condition.writable_of_mem_clause {n : Nat} {cs : List Condition} {f : Fragment}
    (hcs : ∀ k ∈ cs, k.column ≠ "") (h : f ∈ clause n cs) : f.Writable := by
  have hone : ∀ (m : Nat) (k : Condition), k.column ≠ "" → f ∈ k.fragments m → f.Writable := by
    intro m k hk hf
    have hname : Param.numberedName m ≠ "" := by simp [Param.numberedName]
    cases hb : k.bindsParam <;> simp [fragments, hb] at hf <;> rcases hf with rfl | rfl | rfl <;>
      simp [Fragment.Writable, hk, hname]
  induction cs generalizing n with
  | nil => cases h
  | cons k cs ih =>
    rw [List.forall_mem_cons] at hcs
    by_cases hne : cs = []
    · subst hne
      exact hone _ k hcs.1 h
    · rw [clause_cons hne, List.mem_append, List.mem_cons] at h
      rcases h with h | rfl | h
      · exact hone _ k hcs.1 h
      · trivial
      · exact ih hcs.2 h

namespace Draft.Keeps

variable {d : Draft} {l : Ledger}

/-- Each fragment of the draft of a writable ledger can be written. -/
theorem writable (h : d.Keeps l) (hl : l.Writable) : ∀ f ∈ d.ast.fragments, f.Writable := by
  intro f hf
  cases hm : f.isMark with
  | false =>
    -- It belongs to `SELECT` and `FROM`, or to the clause of the conditions.
    have hplace : f ∈ l.inPlace := by
      rw [← h.inPlace]
      exact List.mem_filter.2 ⟨hf, by simp [hm]⟩
    simp only [Ledger.inPlace, Ledger.clause, List.mem_append, List.mem_cons, List.not_mem_nil,
      or_false] at hplace
    rcases hplace with (rfl | rfl | rfl | rfl) | hplace
    · trivial
    · exact hl.columns
    · trivial
    · exact hl.kind
    · split at hplace
      · cases hplace
      · rcases List.mem_cons.1 hplace with rfl | hplace
        · trivial
        · exact Condition.writable_of_mem_clause hl.conditions hplace
  | true =>
    -- The only mark with a text is the property that orders.
    cases f with
    | orderByField name =>
      have horder : Fragment.orderByField name ∈ l.ordering := by
        rw [← h.ordering]
        exact List.mem_filter.2 ⟨hf, rfl⟩
      cases ho : l.order with
      | none => simp [Ledger.ordering, ho] at horder
      | some o =>
        obtain ⟨dir, column⟩ := o
        have hname : name = column := by simpa [Ledger.ordering, ho] using horder
        rw [hname]
        exact hl.order _ ho
    | take | skip | orderBy => trivial
    | _ => cases hm

/-- What is found among marks of the ordering only is found among
them. -/
theorem findSome?_eq {α : Type} {g : Fragment → Option α} (h : d.Keeps l)
    (hg : ∀ f, f.isOrder = false → g f = none) :
    d.ast.fragments.findSome? g = l.ordering.findSome? g := by
  rw [← h.ordering, ← List.head?_filterMap, ← List.head?_filterMap, List.filterMap_filter]
  congr 2
  funext f
  cases hf : f.isOrder with
  | true => rfl
  | false => exact hg f hf

theorem direction?_eq (h : d.Keeps l) : d.ast.direction? = l.order.map Prod.fst := by
  rw [Ast.direction?, h.findSome?_eq (fun f hf => by cases f <;> first | rfl | cases hf),
    Ledger.ordering]
  cases l.order <;> rfl

theorem orderedField?_eq (h : d.Keeps l) : d.ast.orderedField? = l.order.map Prod.snd := by
  rw [Ast.orderedField?, h.findSome?_eq (fun f hf => by cases f <;> first | rfl | cases hf),
    Ledger.ordering]
  cases l.order <;> rfl

/-- The two marks of an ordering come together. -/
theorem exists_orderClause (h : d.Keeps l) : ∃ text, d.ast.orderClause = .ok text := by
  rw [Ast.orderClause, h.direction?_eq, h.orderedField?_eq]
  cases l.order <;> exact ⟨_, rfl⟩

/-- **The draft of a writable ledger can be written.** -/
theorem exists_render (h : d.Keeps l) (hl : l.Writable) :
    ∃ text, d.ast.render .named = .ok text := by
  obtain ⟨pieces, hpieces⟩ := exists_mapM_eq_ok fun f hf => (h.writable hl f hf).exists_inPlace
  obtain ⟨order, horder⟩ := h.exists_orderClause
  have hpaging : ∀ pg : Paging, ∀ keyword,
      ∃ text, d.ast.pagingClause .named pg.fragment keyword pg.paramName = .ok text := by
    intro pg keyword
    unfold Ast.pagingClause
    split
    · cases pg <;> exact ⟨_, rfl⟩
    · exact ⟨"", rfl⟩
  obtain ⟨limit, hlimit⟩ := hpaging .take " LIMIT "
  obtain ⟨offset, hoffset⟩ := hpaging .skip " OFFSET "
  simp only [Ast.render, bind_eq_ok]
  exact ⟨_, pieces, hpieces, order, horder, limit, hlimit, offset, hoffset, rfl⟩

end Draft.Keeps

end KindQuery
