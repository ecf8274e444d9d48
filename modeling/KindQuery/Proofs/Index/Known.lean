import KindQuery.Proofs.Index.Composite
/-!
# The known indexes after a run

Queries are advised on one after another, and an index is kept the first time
that a query needs it. Two indexes count as one if they are of the same kind
over the same properties in the same order, whatever else they say
(`Index.SameAs`). One call keeps its index or changes nothing
(`KnownIndexes.advise_eq`), and by induction a run adds to the indexes that are
known those it is the first to need (`KnownIndexes.indexes_adviseAll`).
-/

namespace KindQuery

namespace Index

variable {i j l : Index} {is : List Index}

/-- **One index**: the same kind over the same properties. -/
def SameAs (i j : Index) : Prop := i.kind = j.kind ∧ i.properties = j.properties

instance : DecidableRel SameAs := fun i j =>
  inferInstanceAs (Decidable (i.kind = j.kind ∧ i.properties = j.properties))

theorem SameAs.refl (i : Index) : i.SameAs i := ⟨rfl, rfl⟩

theorem SameAs.symm (h : i.SameAs j) : j.SameAs i := ⟨h.1.symm, h.2.symm⟩

theorem SameAs.trans (h : i.SameAs j) (h' : j.SameAs l) : i.SameAs l :=
  ⟨h.1.trans h'.1, h.2.trans h'.2⟩

/-- The indexes without those that come after the same one. -/
def firstOnes : List Index → List Index
  | [] => []
  | i :: is => i :: (firstOnes is).filter fun j => ¬ i.SameAs j

/-- What is left out comes after an index that is the same. -/
theorem exists_sameAs_mem_firstOnes (h : i ∈ is) : ∃ j ∈ firstOnes is, j.SameAs i := by
  induction is with
  | nil => cases h
  | cons first rest ih =>
    by_cases same : first.SameAs i
    · exact ⟨first, List.mem_cons_self, same⟩
    · have later : i ∈ rest := by
        rcases List.mem_cons.1 h with rfl | later
        · exact absurd (SameAs.refl i) same
        · exact later
      obtain ⟨j, kept, hj⟩ := ih later
      have apart : ¬ first.SameAs j := fun h => same (h.trans hj)
      exact ⟨j, List.mem_cons_of_mem first
        (List.mem_filter.2 ⟨kept, decide_eq_true apart⟩), hj⟩

theorem firstOnes_sublist (is : List Index) : (firstOnes is).Sublist is := by
  induction is with
  | nil => exact .slnil
  | cons first rest ih => exact .cons_cons first (List.filter_sublist.trans ih)

/-- No index is left that is the same as an earlier one. -/
theorem pairwise_firstOnes (is : List Index) : (firstOnes is).Pairwise fun i j => ¬ i.SameAs j := by
  induction is with
  | nil => exact .nil
  | cons first rest ih =>
    refine List.pairwise_cons.2 ⟨fun j hj => ?_, ih.filter _⟩
    exact of_decide_eq_true (List.mem_filter.1 hj).2

end Index

namespace KnownIndexes

variable {k : KnownIndexes} {i j : Index} {q : Compiled} {qs qs' : List Compiled}

theorem knows_iff : k.knows i = true ↔ ∃ j ∈ k.indexes, j.SameAs i := by
  simp only [knows, List.any_eq_true, Bool.and_eq_true, beq_iff_eq, Index.SameAs]

/-- Which index is asked for makes no difference as long as it is the same. -/
theorem knows_congr (same : i.SameAs j) : k.knows i = k.knows j := by
  rw [Bool.eq_iff_iff, knows_iff, knows_iff]
  constructor
  · rintro ⟨l, kept, h⟩
    exact ⟨l, kept, h.trans same⟩
  · rintro ⟨l, kept, h⟩
    exact ⟨l, kept, h.trans same.symm⟩

theorem record_fst : (k.record i).1 = !k.knows i := by
  rw [record]
  cases k.knows i <;> rfl

/-! ## One call -/

/-- The known indexes with one more at the end. -/
def adding (k : KnownIndexes) (i : Index) : KnownIndexes := ⟨k.indexes ++ [i]⟩

theorem knows_adding : (k.adding i).knows j = (k.knows j || decide (i.SameAs j)) := by
  rw [Bool.eq_iff_iff, Bool.or_eq_true, decide_eq_true_iff, knows_iff, knows_iff, adding]
  simp only [List.mem_append, List.mem_singleton, or_and_right, exists_or, exists_eq_left]

/-- **One call** keeps the index that its query needs if it is not known, and
changes nothing otherwise. -/
theorem advise_eq (k : KnownIndexes) (q : Compiled) :
    k.advise q =
      match q.requiredIndex?.filter fun i => !k.knows i with
      | some i => k.adding i
      | none => k := by
  cases needs : q.requiredIndex? with
  | none => simp only [advise, needs, Option.filter_none]
  | some i =>
    cases known : k.knows i with
    | true => simp [advise, needs, record, known, Option.filter]
    | false => simp [advise, needs, record, known, Option.filter, adding]

theorem advise_of_needless (needless : q.requiredIndex? = none) : k.advise q = k := by
  rw [advise_eq, needless]
  rfl

theorem advise_of_known (needs : q.requiredIndex? = some i) (known : k.knows i = true) :
    k.advise q = k := by
  rw [advise_eq, needs, Option.filter_some, if_neg (by simp [known])]

theorem advise_of_new (needs : q.requiredIndex? = some i) (new : k.knows i = false) :
    k.advise q = k.adding i := by
  rw [advise_eq, needs, Option.filter_some, if_pos (by simp [new])]

/-! ## Calls one after another -/

/-- Advises on queries one after another. -/
def adviseAll (k : KnownIndexes) (qs : List Compiled) : KnownIndexes := qs.foldl advise k

/-- **A run adds the indexes that it is the first to need**, in the order in which
it needs them. -/
theorem indexes_adviseAll (k : KnownIndexes) (qs : List Compiled) :
    (k.adviseAll qs).indexes = k.indexes ++
      (Index.firstOnes (qs.filterMap Compiled.requiredIndex?)).filter fun i => !k.knows i := by
  induction qs generalizing k with
  | nil => exact (List.append_nil _).symm
  | cons q qs ih =>
    change ((k.advise q).adviseAll qs).indexes = _
    rw [ih (k.advise q)]
    cases needs : q.requiredIndex? with
    | none => rw [advise_of_needless needs, List.filterMap_cons_none needs]
    | some i =>
      rw [List.filterMap_cons_some needs, Index.firstOnes]
      cases known : k.knows i with
      | true =>
        -- Whatever is the same as the index is known as well.
        rw [advise_of_known needs known, List.filter_cons_of_neg (by simp [known]),
          List.filter_filter]
        refine congrArg (k.indexes ++ ·) (List.filter_congr fun j _ => ?_)
        by_cases same : i.SameAs j
        · simp [← knows_congr same, known]
        · simp [same]
      | false =>
        rw [advise_of_new needs known, List.filter_cons_of_pos (by simp [known]),
          List.filter_filter, adding, List.append_assoc, List.singleton_append]
        refine congrArg (k.indexes ++ i :: ·) (List.filter_congr fun j _ => ?_)
        change (!(k.adding i).knows j) = _
        rw [knows_adding, Bool.not_or, decide_not]

theorem indexes_adviseAll_empty (qs : List Compiled) :
    (empty.adviseAll qs).indexes = Index.firstOnes (qs.filterMap Compiled.requiredIndex?) := by
  rw [indexes_adviseAll]
  exact (List.nil_append _).trans (List.filter_eq_self.2 fun _ _ => rfl)

/-- Queries that need the same index need one that is equal, since no index that
a query needs says more than its kind and its properties. -/
theorem eq_of_sameAs {q' : Compiled} (hi : q.requiredIndex? = some i)
    (hj : q'.requiredIndex? = some j) (same : i.SameAs j) : i = j := by
  obtain ⟨-, rfl⟩ := Compiled.requiredIndex?_eq_some_iff.1 hi
  obtain ⟨-, rfl⟩ := Compiled.requiredIndex?_eq_some_iff.1 hj
  obtain ⟨kind, columns⟩ := same
  exact congrArg₂ (Index.mk · · false) kind columns

theorem mem_indexes_adviseAll_iff :
    i ∈ (empty.adviseAll qs).indexes ↔ ∃ q ∈ qs, q.requiredIndex? = some i := by
  rw [indexes_adviseAll_empty]
  constructor
  · intro kept
    exact List.mem_filterMap.1 ((Index.firstOnes_sublist _).subset kept)
  · rintro ⟨q, hq, needs⟩
    obtain ⟨j, kept, same⟩ :=
      Index.exists_sameAs_mem_firstOnes (List.mem_filterMap.2 ⟨q, hq, needs⟩)
    obtain ⟨q', -, needs'⟩ := List.mem_filterMap.1 ((Index.firstOnes_sublist _).subset kept)
    rwa [eq_of_sameAs needs' needs same] at kept

/-- An index is known after a run just if a query of it needed the index. -/
theorem knows_adviseAll_iff :
    (empty.adviseAll qs).knows i = true ↔
      ∃ q ∈ qs, ∃ j, q.requiredIndex? = some j ∧ j.SameAs i := by
  rw [knows_iff]
  simp only [mem_indexes_adviseAll_iff]
  constructor
  · rintro ⟨j, ⟨q, hq, needs⟩, same⟩
    exact ⟨q, hq, j, needs, same⟩
  · rintro ⟨q, hq, j, needs, same⟩
    exact ⟨j, ⟨q, hq, needs⟩, same⟩

/-! ## The order of the calls -/

theorem nodup_indexes_adviseAll (qs : List Compiled) : (empty.adviseAll qs).indexes.Nodup := by
  rw [indexes_adviseAll_empty]
  refine (Index.pairwise_firstOnes _).imp fun apart same => ?_
  subst same
  exact apart (Index.SameAs.refl _)

/-- The order of the queries decides nothing but the order of the indexes. -/
theorem indexes_adviseAll_perm (perm : qs.Perm qs') :
    (empty.adviseAll qs).indexes.Perm (empty.adviseAll qs').indexes := by
  refine (List.perm_ext_iff_of_nodup (nodup_indexes_adviseAll qs)
    (nodup_indexes_adviseAll qs')).2 fun i => ?_
  simp only [mem_indexes_adviseAll_iff, perm.mem_iff]

/-- **Known are the first ones that were needed.** After a run they are the
indexes that its queries need, in order and each where it first occurs. One more
index is then added just if no query of the run needed the same one, advising
again on a query of the run changes nothing, and the same queries in another
order leave the same indexes. -/
theorem adviseAll_keepsFirst (qs : List Compiled) :
    (empty.adviseAll qs).indexes = Index.firstOnes (qs.filterMap Compiled.requiredIndex?) ∧
    (∀ i, ((empty.adviseAll qs).record i).1 = true ↔
      ¬ ∃ q ∈ qs, ∃ j, q.requiredIndex? = some j ∧ j.SameAs i) ∧
    (∀ q ∈ qs, (empty.adviseAll qs).advise q = empty.adviseAll qs) ∧
    ∀ qs', qs.Perm qs' → (empty.adviseAll qs).indexes.Perm (empty.adviseAll qs').indexes := by
  refine ⟨indexes_adviseAll_empty qs, fun i => ?_, fun q hq => ?_,
    fun qs' => indexes_adviseAll_perm⟩
  · rw [record_fst, ← knows_adviseAll_iff, Bool.not_eq_true', Bool.not_eq_true]
  · cases needs : q.requiredIndex? with
    | none => exact advise_of_needless needs
    | some i =>
      exact advise_of_known needs (knows_adviseAll_iff.2 ⟨q, hq, i, needs, Index.SameAs.refl i⟩)

/-- A query in between changes nothing about which one comes first, and its own
index comes after. -/
theorem adviseAll_adults :
    ∃ q q' i j, Pipeline.filteredFirst.compile.after [] = (.ok q, []) ∧
      Pipeline.ageRange.compile.after [] = (.ok q', []) ∧
      (empty.adviseAll [q, q', q]).indexes = [i, j] ∧
      ((empty.adviseAll [q]).record j).1 = true ∧
      ((empty.adviseAll [q, q']).record i).1 = false ∧
      (empty.adviseAll [q', q, q]).indexes.Perm [i, j] := by
  obtain ⟨q, q', i, j, h, h', needs, needs', apart⟩ :
      ∃ q q' i j, Pipeline.filteredFirst.compile.after [] = (.ok q, []) ∧
        Pipeline.ageRange.compile.after [] = (.ok q', []) ∧
        q.requiredIndex? = some i ∧ q'.requiredIndex? = some j ∧ ¬ i.SameAs j :=
    ⟨_, _, _, _, rfl, rfl, rfl, rfl, by decide⟩
  obtain ⟨order, -, -, perm⟩ := adviseAll_keepsFirst [q, q', q]
  have kept : (empty.adviseAll [q, q', q]).indexes = [i, j] := by
    simp [order, needs, needs', Index.firstOnes, apart, Index.SameAs.refl]
  refine ⟨q, q', i, j, h, h', kept, ?_, ?_, ?_⟩
  · refine ((adviseAll_keepsFirst [q]).2.1 j).2 fun ⟨q'', hq, l, hl, same⟩ => apart ?_
    cases List.mem_singleton.1 hq
    cases needs.symm.trans hl
    exact same
  · refine Bool.not_eq_true _ ▸ fun added => ?_
    exact ((adviseAll_keepsFirst [q, q']).2.1 i).1 added
      ⟨q, List.mem_cons_self, i, needs, Index.SameAs.refl i⟩
  · exact kept ▸ (perm [q', q, q] (List.Perm.swap q' q [q])).symm

end KnownIndexes

end KindQuery
