import KindQuery.Proofs.Codec.Columns
import KindQuery.Proofs.Index.Needed
/-!
# Composite indexes

A composite index is over two properties at least, and over each of them once.
Whether a query needs one is decided by the number of its references, not by
that of the columns it refers to. So an index is composite just if its query
refers to no column twice; where it does, the index has this column twice, and
is needed even if there is no other one (`Pipeline.isComposite_iff_refersOnce`).
-/

namespace KindQuery

/-- **A composite index**: over two properties at least, each of them once. -/
structure Index.IsComposite (i : Index) : Prop where
  nodup : i.properties.Nodup
  two_le_length : 2 ≤ i.properties.length

namespace Compiled

variable {q : Compiled} {i : Index}

/-- **A query that refers to each column once**: its conditions compare distinct
columns, it is ordered by another one, and what it projects is neither compared
nor ordered by. -/
structure RefersOnce (q : Compiled) : Prop where
  compared : q.ast.comparedColumns.Nodup
  ordered : ∀ column ∈ q.ast.orderedField?, column ∉ q.ast.comparedColumns
  projected : ∀ column ∈ q.plan.columns,
    column ∉ q.ast.comparedColumns ∧ column ∉ q.ast.orderedField?

/-! ## References -/

/-- The number of references of a query. Its projection is one, however many
columns it has. -/
def references (q : Compiled) : Nat :=
  q.ast.members.length + if q.plan.selectsAll then 0 else 1

theorem requiredIndex?_eq_some_iff :
    q.requiredIndex? = some i ↔ 1 < q.references ∧ i = ⟨q.kind, q.columns, false⟩ := by
  change (if q.references ≤ 1 then none else some (Index.mk q.kind q.columns false)) = some i ↔ _
  by_cases few : q.references ≤ 1
  · simp [few, Nat.not_lt.2 few]
  · simp [few, Nat.lt_of_not_le few, eq_comm]

theorem requiredIndex?_eq_none_iff : q.requiredIndex? = none ↔ q.references ≤ 1 := by
  change (if q.references ≤ 1 then none else some (Index.mk q.kind q.columns false)) = none ↔ _
  simp

/-- Every reference is to a column, if not to several. -/
theorem references_le_length : q.references ≤ q.columns.length := by
  rw [references, columns, List.length_append]
  refine Nat.add_le_add_left ?_ _
  split
  · exact Nat.zero_le _
  next some =>
    rw [Plan.selectsAll, Bool.not_eq_true, List.isEmpty_eq_false_iff] at some
    exact List.length_pos_iff.2 some

/-- A column that a query refers to twice makes two references, since a
projection has no column twice. -/
theorem one_lt_references (plan : q.plan.columns.Nodup) (twice : ¬ q.columns.Nodup) :
    1 < q.references := by
  rw [columns] at twice
  cases members : q.ast.members with
  | nil =>
    rw [members] at twice
    exact absurd plan twice
  | cons name names =>
    cases names with
    | nil =>
      have some : q.plan.selectsAll = false := by
        refine List.isEmpty_eq_false_iff.2 fun none => twice ?_
        rw [members, none]
        exact List.nodup_singleton name
      simp [references, members, some]
    | cons name' names =>
      rw [references, members, List.length_cons, List.length_cons]
      omega

/-! ## Columns that are referred to twice -/

theorem nodup_columns_iff (placed : q.ast.IsPlaced) (plan : q.plan.columns.Nodup) :
    q.columns.Nodup ↔ q.RefersOnce := by
  have perm : q.columns.Perm
      (q.ast.orderedField?.toList ++ q.ast.comparedColumns ++ q.plan.columns) :=
    placed.members_perm.append_right q.plan.columns
  rw [perm.nodup_iff, List.nodup_append', List.nodup_append']
  constructor
  · rintro ⟨⟨-, compared, ordered⟩, -, projected⟩
    refine ⟨compared, fun column hc => ordered (Option.mem_toList.2 hc), fun column hc => ?_⟩
    exact ⟨fun hcompared => projected (List.mem_append_right _ hcompared) hc,
      fun hordered => projected (List.mem_append_left _ (Option.mem_toList.2 hordered)) hc⟩
  · intro once
    refine ⟨⟨?_, once.compared, fun column hc => once.ordered column (Option.mem_toList.1 hc)⟩,
      plan, fun column hc hp => ?_⟩
    · cases q.ast.orderedField? with
      | none => exact List.nodup_nil
      | some column => exact List.nodup_singleton column
    · rcases List.mem_append.1 hc with hc | hc
      · exact (once.projected column hp).2 (Option.mem_toList.1 hc)
      · exact (once.projected column hp).1 hc

/-- **An index is composite** just if its query refers to each column once. -/
theorem forall_isComposite_iff (placed : q.ast.IsPlaced) (plan : q.plan.columns.Nodup) :
    (∀ i, q.requiredIndex? = some i → i.IsComposite) ↔ q.RefersOnce := by
  rw [← nodup_columns_iff placed plan]
  constructor
  · intro composite
    by_contra twice
    have needed : q.requiredIndex? = some ⟨q.kind, q.columns, false⟩ :=
      requiredIndex?_eq_some_iff.2 ⟨one_lt_references plan twice, rfl⟩
    exact twice (composite _ needed).nodup
  · intro once i needed
    obtain ⟨many, rfl⟩ := requiredIndex?_eq_some_iff.1 needed
    exact ⟨once, Nat.le_trans many references_le_length⟩

/-- **A query that refers to one column only** needs no index just if it refers to
it once. -/
theorem requiredIndex?_eq_none_iff_of_single (placed : q.ast.IsPlaced)
    (plan : q.plan.columns.Nodup) {column : String} (single : ∀ name ∈ q.columns, name = column) :
    q.requiredIndex? = none ↔ q.RefersOnce := by
  rw [← nodup_columns_iff placed plan, requiredIndex?_eq_none_iff]
  constructor
  · intro few
    by_contra twice
    exact absurd (one_lt_references plan twice) (Nat.not_lt.2 few)
  · intro once
    -- One name, and no name twice, is one column at most.
    have replicated : q.columns = List.replicate q.columns.length column :=
      List.eq_replicate_iff.2 ⟨rfl, single⟩
    rw [replicated, List.nodup_replicate] at once
    exact Nat.le_trans references_le_length once

end Compiled

namespace Pipeline

variable {p : Pipeline} {log log' : ReadLog} {q : Compiled}

/-- **When an advised index is composite.** It has two properties at least, which
are all that the query refers to. It has none of them twice just if the query
refers to each column once, and just then is a query that refers to one column
only given no index. -/
theorem isComposite_iff_refersOnce (h : p.compile.after log = (.ok q, log')) :
    ((∀ i, q.requiredIndex? = some i → i.IsComposite) ↔ q.RefersOnce) ∧
    (∀ column, (∀ name ∈ q.columns, name = column) →
      (q.requiredIndex? = none ↔ q.RefersOnce)) ∧
    ∀ i, q.requiredIndex? = some i → i.kind = p.schema.name ∧ 2 ≤ i.properties.length ∧
      ∀ column, column ∈ i.properties ↔ column ∈ q.ast.orderedField? ∨
        column ∈ q.ast.comparedColumns ∨ column ∈ q.plan.columns := by
  obtain ⟨plan, d, l, behind⟩ := exists_behind h
  obtain ⟨text, -, hq⟩ := behind.exists_text h
  have placed : q.ast.IsPlaced := behind.isPlaced
  have distinct : q.plan.columns.Nodup := by
    rw [hq]
    exact nodup_columns behind.planned
  refine ⟨Compiled.forall_isComposite_iff placed distinct,
    fun column => Compiled.requiredIndex?_eq_none_iff_of_single placed distinct, ?_⟩
  intro i needed
  obtain ⟨many, rfl⟩ := Compiled.requiredIndex?_eq_some_iff.1 needed
  refine ⟨by rw [hq]; rfl, Nat.le_trans many Compiled.references_le_length, fun column => ?_⟩
  change column ∈ q.columns ↔ _
  rw [Compiled.columns, List.mem_append, placed.members_perm.mem_iff, List.mem_append,
    Option.mem_toList, Option.mem_def, or_assoc]

/-- Those who are of age, by a comparison of the column. -/
def grownUp : Expr := .comparison (.field "Age") .gt (.value (.int32 17))

/-- A range of ages. -/
def ageRange : Pipeline :=
  ofPeople [.filter (.conjunction [grownUp,
    .comparison (.field "Age") .lt (.value (.int32 67))])]

/-- Two columns make a composite index, and two bounds of one column do not. -/
theorem isComposite_adults :
    (∃ q i, filteredFirst.compile.after [] = (.ok q, []) ∧ q.requiredIndex? = some i ∧
      i.IsComposite) ∧
    ∃ q i, ageRange.compile.after [] = (.ok q, []) ∧ q.requiredIndex? = some i ∧
      ¬ i.IsComposite := by
  obtain ⟨q, i, h, needed, once⟩ :
      ∃ q i, filteredFirst.compile.after [] = (.ok q, []) ∧ q.requiredIndex? = some i ∧
        q.RefersOnce :=
    ⟨_, _, rfl, rfl, by decide, by decide, by decide⟩
  obtain ⟨q', i', h', needed', single⟩ :
      ∃ q i, ageRange.compile.after [] = (.ok q, []) ∧ q.requiredIndex? = some i ∧
        ∀ name ∈ q.columns, name = "Age" :=
    ⟨_, _, rfl, rfl, by decide⟩
  obtain ⟨composite, -, -⟩ := isComposite_iff_refersOnce h
  obtain ⟨composite', unneeded, -⟩ := isComposite_iff_refersOnce h'
  refine ⟨⟨q, i, h, needed, composite.2 once i needed⟩, q', i', h', needed', fun genuine => ?_⟩
  have once' : q'.RefersOnce := composite'.1 fun i hi => by
    cases needed'.symm.trans hi
    exact genuine
  cases needed'.symm.trans ((unneeded "Age" single).2 once')

/-- The pipeline compiles to a query that refers to one column only, and needs an
index that has it twice. -/
def NeedsTwice (p : Pipeline) (column : String) : Prop :=
  ∃ q, p.compile.after [] = (.ok q, []) ∧ (∀ name ∈ q.columns, name = column) ∧
    q.requiredIndex? = some ⟨p.schema.name, [column, column], false⟩

/-- **One column may be asked an index of two properties for**: if it is compared
with two bounds, compared and ordered by, or compared and projected. -/
theorem requiredIndex?_of_single_column :
    ¬ Index.IsComposite ⟨"Person", ["Age", "Age"], false⟩ ∧
      ageRange.NeedsTwice "Age" ∧
      (ofPeople [.filter grownUp, .orderBy (.field "Age") .asc]).NeedsTwice "Age" ∧
      (ofPeople [.filter grownUp, .project (.field "Age")]).NeedsTwice "Age" := by
  have repeated : ¬ Index.IsComposite ⟨"Person", ["Age", "Age"], false⟩ :=
    fun composite => absurd composite.nodup (by decide)
  exact ⟨repeated, ⟨_, rfl, by decide, rfl⟩, ⟨_, rfl, by decide, rfl⟩, _, rfl, by decide, rfl⟩

end Pipeline

end KindQuery
