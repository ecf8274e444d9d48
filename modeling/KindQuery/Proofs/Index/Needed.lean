import KindQuery.Index
import KindQuery.Proofs.Query.Spelled
/-!
# The index that a query needs

Queries of one text refer to the same properties, so that an index is needed
for all of them or for none, over the same properties. In which order the
properties stand is another matter: the ordering is written at the end of the
text, but stands among the conditions where it was asked for (`isPlaced`). Two
queries of one text get the same index just if its place makes no difference
(`RefersAlike.requiredIndex?_eq_iff`), as it does not if no predicate follows
the ordering.
-/

namespace KindQuery

/-! ## Members of a query -/

/-- Is the fragment the property that the query is ordered by? -/
def Fragment.isOrderedField : Fragment → Bool
  | .orderByField _ => true
  | _ => false

namespace Ast

/-- The columns that the conditions compare. -/
def comparedColumns (a : Ast) : List String := a.written.map Written.column

/-- The number of conditions that stand before the ordering. -/
def orderingPlace (a : Ast) : Nat :=
  (a.fragments.takeWhile fun f => !f.isOrderedField).countP Fragment.isMember

/-- The properties that a query refers to are those that its conditions compare,
and that of its ordering at its place among them. -/
structure IsPlaced (a : Ast) : Prop where
  le_length : a.orderingPlace ≤ a.comparedColumns.length
  members_eq : a.members = a.comparedColumns.take a.orderingPlace ++ a.orderedField?.toList ++
    a.comparedColumns.drop a.orderingPlace

/-- The columns of the conditions between two places. -/
def columnsBetween (a : Ast) (i j : Nat) : List String :=
  (a.comparedColumns.take (max i j)).drop (min i j)

end Ast

namespace Fragment

variable {fs : List Fragment}

/-- Apart from the ordering, only conditions refer to properties. -/
theorem filterMap_memberName?_of_unordered (h : ∀ f ∈ fs, f.isOrderedField = false) :
    fs.filterMap memberName? = (fs.filter fun f => !f.isMark).filterMap memberName? := by
  rw [List.filterMap_filter]
  refine List.filterMap_congr fun f hf => ?_
  have unordered := h f hf
  cases f <;> first | rfl | cases unordered

theorem countP_isMember (h : ∀ f ∈ fs, f.isOrderedField = false) :
    fs.countP isMember = (fs.filterMap memberName?).length := by
  induction fs with
  | nil => rfl
  | cons f fs ih =>
    rw [List.forall_mem_cons] at h
    rw [List.countP_cons, ih h.2]
    cases f with
    | orderByField => cases h.1
    | _ => rfl

end Fragment

theorem Condition.filterMap_memberName?_clause {n : Nat} {ks : List Condition} :
    (clause n ks).filterMap Fragment.memberName? = ks.map Condition.column := by
  have one : ∀ (k : Condition) m, (k.fragments m).filterMap Fragment.memberName? = [k.column] := by
    intro k m
    cases hb : k.bindsParam <;> simp [fragments, hb, Fragment.memberName?]
  induction ks generalizing n with
  | nil => rfl
  | cons k ks ih =>
    by_cases hks : ks = []
    · subst hks
      exact one k _
    · rw [clause_cons hks, List.filterMap_append, one, List.filterMap_cons, ih]
      rfl

theorem Ledger.filterMap_memberName?_inPlace (l : Ledger) :
    l.inPlace.filterMap Fragment.memberName? = l.conditions.map Condition.column := by
  rw [inPlace, List.filterMap_append, clause]
  cases hl : l.conditions with
  | nil => rfl
  | cons k ks => exact Condition.filterMap_memberName?_clause

namespace Draft.Keeps

variable {d : Draft} {l : Ledger}

theorem comparedColumns_eq (h : d.Keeps l) :
    d.ast.comparedColumns = l.conditions.map Condition.column := by
  rw [Ast.comparedColumns, h.written, Condition.map_column_written]

/-- Fragments that refer to properties and are in place belong to conditions. -/
theorem filterMap_unmarked (h : d.Keeps l) :
    (d.ast.fragments.filter fun f => !f.isMark).filterMap Fragment.memberName? =
      d.ast.comparedColumns := by
  rw [h.inPlace, l.filterMap_memberName?_inPlace, h.comparedColumns_eq]

theorem filter_isOrderedField (h : d.Keeps l) :
    d.ast.fragments.filter Fragment.isOrderedField =
      d.ast.orderedField?.toList.map Fragment.orderByField := by
  have among : d.ast.fragments.filter Fragment.isOrderedField =
      (d.ast.fragments.filter Fragment.isOrder).filter Fragment.isOrderedField := by
    rw [List.filter_filter]
    refine List.filter_congr fun f _ => ?_
    cases f <;> rfl
  rw [among, h.ordering, h.orderedField?_eq, Ledger.ordering]
  cases l.order <;> rfl

/-- The ordering, if there is one, divides the fragments of a query. -/
theorem exists_divided (h : d.Keeps l) :
    ∃ front back : List Fragment, (∀ f ∈ front, f.isOrderedField = false) ∧
      (∀ f ∈ back, f.isOrderedField = false) ∧
      d.ast.fragments = front ++ d.ast.orderedField?.toList.map .orderByField ++ back ∧
      (d.ast.fragments.takeWhile fun f => !f.isOrderedField) = front := by
  have ordering := h.filter_isOrderedField
  have unordered : ∀ {fs : List Fragment}, (∀ f ∈ fs, ¬ f.isOrderedField = true) →
      ∀ f ∈ fs, f.isOrderedField = false := fun hfs f hf => Bool.eq_false_iff.2 (hfs f hf)
  cases ho : d.ast.orderedField? with
  | none =>
    rw [ho] at ordering
    have all := unordered (List.filter_eq_nil_iff.1 ordering)
    have whole : (d.ast.fragments.takeWhile fun f => !f.isOrderedField) = d.ast.fragments :=
      List.takeWhile_eq_self_iff.2 fun f hf => by rw [all f hf]; rfl
    exact ⟨d.ast.fragments, [], all, nofun, by simp, whole⟩
  | some column =>
    rw [ho] at ordering
    obtain ⟨front, back, fragments, hfront, -, rest⟩ := List.filter_eq_cons_iff.1 ordering
    refine ⟨front, back, unordered hfront, unordered (List.filter_eq_nil_iff.1 rest), ?_, ?_⟩
    · rw [fragments]
      simp
    · rw [fragments, List.takeWhile_append_of_pos fun f hf => by rw [unordered hfront f hf]; rfl]
      exact List.append_nil front

/-- **The members of a query** are the columns of its conditions, in order, and
that of the ordering at its place among them. -/
theorem isPlaced (h : d.Keeps l) : d.ast.IsPlaced := by
  obtain ⟨front, back, hfront, hback, fragments, taken⟩ := h.exists_divided
  have ordered : (d.ast.orderedField?.toList.map Fragment.orderByField).filterMap
      Fragment.memberName? = d.ast.orderedField?.toList := by
    rw [List.filterMap_map]
    exact List.filterMap_some
  have unmarked : ((d.ast.orderedField?.toList.map Fragment.orderByField).filter
      fun f => !f.isMark) = [] := by
    refine List.filter_eq_nil_iff.2 fun f hf => ?_
    obtain ⟨column, -, rfl⟩ := List.mem_map.1 hf
    exact Bool.false_ne_true
  have compared : d.ast.comparedColumns =
      front.filterMap Fragment.memberName? ++ back.filterMap Fragment.memberName? := by
    rw [← h.filterMap_unmarked, fragments, List.filter_append, List.filter_append, unmarked,
      List.append_nil, List.filterMap_append,
      ← Fragment.filterMap_memberName?_of_unordered hfront,
      ← Fragment.filterMap_memberName?_of_unordered hback]
  have place : d.ast.orderingPlace = (front.filterMap Fragment.memberName?).length := by
    rw [Ast.orderingPlace, taken, Fragment.countP_isMember hfront]
  refine ⟨by rw [place, compared, List.length_append]; exact Nat.le_add_right _ _, ?_⟩
  rw [place, compared, List.take_left, List.drop_left, Ast.members, fragments,
    List.filterMap_append, List.filterMap_append, ordered]

end Draft.Keeps

/-! ## Where the ordering stands -/

/-- A value put at two places among others makes the same list just if all that
is between the places is that value. -/
theorem insert_eq_iff {α : Type} {xs : List α} {a : α} {i j : Nat} (hij : i ≤ j)
    (hj : j ≤ xs.length) :
    xs.take i ++ a :: xs.drop i = xs.take j ++ a :: xs.drop j ↔
      ∀ x ∈ (xs.take j).drop i, a = x := by
  induction xs generalizing i j with
  | nil =>
    obtain rfl : j = 0 := Nat.le_zero.1 hj
    obtain rfl : i = 0 := Nat.le_zero.1 hij
    simp
  | cons x xs ih =>
    cases j with
    | zero =>
      obtain rfl : i = 0 := Nat.le_zero.1 hij
      simp
    | succ j =>
      have hj' : j ≤ xs.length := Nat.le_of_succ_le_succ hj
      cases i with
      | zero =>
        have later := ih (Nat.zero_le j) hj'
        simp only [List.take_zero, List.nil_append, List.drop_zero] at later
        simp only [List.take_zero, List.nil_append, List.drop_zero, List.take_succ_cons,
          List.cons_append, List.drop_succ_cons, List.cons.injEq, List.forall_mem_cons]
        refine and_congr_right ?_
        rintro rfl
        exact later
      | succ i =>
        have later := ih (Nat.le_of_succ_le_succ hij) hj'
        simpa only [List.take_succ_cons, List.drop_succ_cons, List.cons_append, List.cons.injEq,
          true_and] using later

/-- **No predicate follows the ordering**: stages that do not order come first,
and then stages without predicates. -/
def OrdersLast (stages : List Stage) : Prop :=
  ∃ before after, stages = before ++ after ∧ (∀ st ∈ before, st.isOrderBy = false) ∧
    ∀ st ∈ after, st.predicate? = none

namespace Draft

variable {s : Schema} {mode : Mode} {d d' : Draft} {log log' : ReadLog}

/-- Marks only have been added to a draft. -/
def Marks (d d' : Draft) : Prop :=
  ∃ marks : List Fragment, (∀ f ∈ marks, f.isMark = true) ∧
    d'.ast.fragments = d.ast.fragments ++ marks

theorem Marks.refl (d : Draft) : d.Marks d := ⟨[], nofun, (List.append_nil _).symm⟩

theorem Marks.trans {d₁ : Draft} (h : d.Marks d₁) (h' : d₁.Marks d') : d.Marks d' := by
  obtain ⟨marks, hmarks, fragments⟩ := h
  obtain ⟨marks', hmarks', fragments'⟩ := h'
  refine ⟨marks ++ marks', List.forall_mem_append.2 ⟨hmarks, hmarks'⟩, ?_⟩
  rw [fragments', fragments, List.append_assoc]

theorem marks_push {f : Fragment} (hf : f.isMark = true) (h : d'.ast = d.ast.push f) :
    d.Marks d' := by
  rcases Ast.fragments_push d.ast f with same | added
  · exact ⟨[], nofun, by rw [h, same, List.append_nil]⟩
  · exact ⟨[f], by simpa using hf, by rw [h, added]⟩

/-- **A stage without a predicate leaves marks only.** -/
theorem marks_stage {st : Stage} (hst : st.predicate? = none)
    (h : (stage s mode d st).after log = (.ok d', log')) : d.Marks d' := by
  have page : ∀ {pg : Paging} {n : Expr}, (d.page mode pg n).after log = (.ok d', log') →
      d.Marks d' := by
    intro pg n h
    rcases page_eq_ok.1 h with ⟨-, k, -, rfl⟩ | ⟨-, -, rfl, -⟩
    · exact marks_push (by cases pg <;> rfl) rfl
    · exact .refl _
  match st with
  | .filter _ => cases hst
  | .project _ =>
    cases h
    exact .refl d
  | .orderBy key dir =>
    obtain ⟨m, column, -, -, -, rfl⟩ := orderBy_eq_ok.1 (Prod.mk.inj h).1
    have direction : d.Marks { d with ast := d.ast.push (.orderBy dir) } := marks_push rfl rfl
    exact direction.trans (marks_push rfl rfl)
  | .take n | .skip n => exact page h
  | .terminal kind none =>
    cases h
    exact marks_push rfl rfl

theorem marks_foldlM {stages : List Stage} (hs : ∀ st ∈ stages, st.predicate? = none)
    (h : Reading.after (stages.foldlM (stage s mode) d) log = (.ok d', log')) : d.Marks d' := by
  induction stages generalizing d log with
  | nil =>
    cases h
    exact .refl _
  | cons st stages ih =>
    rw [List.forall_mem_cons] at hs
    rw [List.foldlM_cons] at h
    obtain ⟨d₁, log₁, hst, h⟩ := Reading.after_bind_eq_ok.1 h
    exact (marks_stage hs.1 hst).trans (ih hs.2 h)

end Draft

theorem Ledger.Run.order_eq {s : Schema} {mode : Mode} {l l' : Ledger} {log log' : ReadLog}
    {stages : List Stage} (h : Run s mode l log stages l' log')
    (hs : ∀ st ∈ stages, st.isOrderBy = false) : l'.order = l.order := by
  induction h with
  | nil => rfl
  | cons step _ ih =>
    rw [List.forall_mem_cons] at hs
    rw [ih hs.2]
    cases step with
    | orderBy => cases hs.1
    | _ => rfl

/-- **An ordering that no predicate follows stands behind all conditions.** -/
theorem Pipeline.Behind.orderingPlace_eq {p : Pipeline} {mode : Mode} {log log' : ReadLog}
    {q : Compiled} {plan : Plan} {d : Draft} {l : Ledger} (h : p.Behind mode log log' q plan d l)
    (last : OrdersLast p.stages) : d.ast.orderingPlace = d.ast.comparedColumns.length := by
  obtain ⟨before, after, stages, hbefore, hafter⟩ := last
  have run := h.run
  have walked := h.walked
  rw [stages] at run walked
  obtain ⟨l₁, log₁, first, -⟩ := Ledger.Run.append_iff.1 run
  obtain ⟨d₁, hd₁, keeps⟩ := Draft.keeps_start.exists_foldlM first
  rw [List.foldlM_append, Reading.after_bind_eq_ok] at walked
  obtain ⟨d₂, log₂, hd₂, rest⟩ := walked
  rw [hd₁] at hd₂
  cases hd₂
  obtain ⟨marks, hmarks, fragments⟩ := Draft.marks_foldlM hafter rest
  have unordered : ∀ f ∈ d₁.ast.fragments, f.isOrderedField = false := by
    have ordered := keeps.filter_isOrderedField
    rw [keeps.orderedField?_eq, first.order_eq hbefore] at ordered
    exact fun f hf => Bool.eq_false_iff.2 (List.filter_eq_nil_iff.1 ordered f hf)
  have unmarked : (marks.filter fun f => !f.isMark) = [] :=
    List.filter_eq_nil_iff.2 fun f hf => by rw [hmarks f hf]; decide
  have place : d.ast.orderingPlace = d₁.ast.fragments.countP Fragment.isMember := by
    have none : (marks.takeWhile fun f => !f.isOrderedField).countP Fragment.isMember = 0 := by
      refine List.countP_eq_zero.2 fun f hf => ?_
      have mark := hmarks f (List.takeWhile_subset _ hf)
      cases f <;> first | exact Bool.false_ne_true | cases mark
    rw [Ast.orderingPlace, fragments,
      List.takeWhile_append_of_pos fun f hf => by rw [unordered f hf]; rfl,
      List.countP_append, none, Nat.add_zero]
  rw [place, Fragment.countP_isMember unordered, ← h.keeps.filterMap_unmarked, fragments,
    List.filter_append, unmarked, List.append_nil,
    ← Fragment.filterMap_memberName?_of_unordered unordered]

/-! ## Queries that refer to the same columns -/

namespace Ast

variable {a a' : Ast}

theorem IsPlaced.members_perm (h : a.IsPlaced) :
    a.members.Perm (a.orderedField?.toList ++ a.comparedColumns) := by
  rw [h.members_eq, List.append_assoc]
  exact (List.perm_append_comm_assoc _ _ _).trans (by rw [List.take_append_drop])

/-- **Members come in the same order** just if all columns between the places of
the ordering are its own. -/
theorem IsPlaced.members_eq_iff (h : a.IsPlaced) (h' : a'.IsPlaced)
    (compared : a.comparedColumns = a'.comparedColumns)
    (ordered : a.orderedField? = a'.orderedField?) :
    a.members = a'.members ↔ ∀ name ∈ a.orderedField?,
      ∀ column ∈ a.columnsBetween a.orderingPlace a'.orderingPlace, name = column := by
  have le := h.le_length
  have le' := h'.le_length
  rw [h.members_eq, h'.members_eq, columnsBetween, ← ordered, ← compared]
  rw [← compared] at le'
  cases ho : a.orderedField? with
  | none => simp
  | some name =>
    simp only [Option.toList_some, List.append_assoc, List.singleton_append, Option.mem_some_iff,
      forall_eq']
    rcases Nat.le_total a.orderingPlace a'.orderingPlace with hle | hle
    · rw [max_eq_right hle, min_eq_left hle]
      exact insert_eq_iff hle le'
    · rw [max_eq_left hle, min_eq_right hle, eq_comm]
      exact insert_eq_iff hle le

end Ast

namespace Compiled

/-- Queries that refer to the same columns: they compare the same ones in one
order, and have the same kind, ordering and projection. -/
structure RefersAlike (q q' : Compiled) : Prop where
  kind : q.kind = q'.kind
  projected : q.plan.columns = q'.plan.columns
  compared : q.ast.comparedColumns = q'.ast.comparedColumns
  ordered : q.ast.orderedField? = q'.ast.orderedField?

namespace RefersAlike

variable {q q' : Compiled}

theorem members_perm (alike : q.RefersAlike q') (h : q.ast.IsPlaced) (h' : q'.ast.IsPlaced) :
    q.ast.members.Perm q'.ast.members := by
  have perm := h'.members_perm
  rw [← alike.ordered, ← alike.compared] at perm
  exact h.members_perm.trans perm.symm

theorem requiredIndex?_cases (alike : q.RefersAlike q') (h : q.ast.IsPlaced)
    (h' : q'.ast.IsPlaced) :
    (q.requiredIndex? = none ∧ q'.requiredIndex? = none ∧ q.ast.members.length ≤ 1) ∨
      (q.requiredIndex? = some ⟨q.kind, q.ast.members ++ q.plan.columns, false⟩ ∧
        q'.requiredIndex? = some ⟨q.kind, q'.ast.members ++ q.plan.columns, false⟩) := by
  have length := (alike.members_perm h h').length_eq
  have same : q'.ast.members.length + (if q'.plan.selectsAll then 0 else 1) =
      q.ast.members.length + if q.plan.selectsAll then 0 else 1 := by
    rw [Plan.selectsAll, Plan.selectsAll, ← alike.projected, length]
  unfold requiredIndex?
  rw [same, columns, columns, ← alike.kind, ← alike.projected]
  by_cases few : q.ast.members.length + (if q.plan.selectsAll then 0 else 1) ≤ 1
  · exact .inl ⟨if_pos few, if_pos few, Nat.le_trans (Nat.le_add_right _ _) few⟩
  · exact .inr ⟨if_neg few, if_neg few⟩

/-- **The same index is needed** just if all columns between the places of the
ordering are its own. -/
theorem requiredIndex?_eq_iff (alike : q.RefersAlike q') (h : q.ast.IsPlaced)
    (h' : q'.ast.IsPlaced) :
    q.requiredIndex? = q'.requiredIndex? ↔ ∀ name ∈ q.ast.orderedField?,
      ∀ column ∈ q.ast.columnsBetween q.ast.orderingPlace q'.ast.orderingPlace, name = column := by
  rw [← h.members_eq_iff h' alike.compared alike.ordered]
  rcases alike.requiredIndex?_cases h h' with ⟨none, none', few⟩ | ⟨some, some'⟩
  · -- One reference has only one order.
    have perm := alike.members_perm h h'
    refine ⟨fun _ => ?_, fun _ => none.trans none'.symm⟩
    match hm : q.ast.members, few with
    | [], _ =>
      rw [hm] at perm
      exact perm.nil_eq
    | [name], _ =>
      rw [hm] at perm
      exact perm.singleton_eq
  · rw [some, some', Option.some.injEq, Index.mk.injEq, List.append_cancel_right_eq]
    simp

end RefersAlike

end Compiled

namespace Pipeline

variable {p p' : Pipeline} {mode mode' : Mode} {log log' log₁ log₁' : ReadLog} {q q' : Compiled}
  {plan plan' : Plan} {d d' : Draft} {l l' : Ledger}

namespace Behind

theorem isPlaced (h : p.Behind mode log log' q plan d l) : q.ast.IsPlaced := by
  rw [h.ast]
  exact h.keeps.isPlaced

/-- Ledgers that compare the same columns, and are ordered alike, are behind
queries that refer to the same ones. -/
theorem refersAlike (h : p.Behind mode log log' q plan d l)
    (h' : p'.Behind mode' log₁ log₁' q' plan' d' l') (kind : q.kind = q'.kind)
    (projected : q.plan.columns = q'.plan.columns)
    (compared : l.conditions.map Condition.column = l'.conditions.map Condition.column)
    (ordered : l.order = l'.order) : q.RefersAlike q' where
  kind := kind
  projected := projected
  compared := by
    rw [h.ast, h'.ast, h.keeps.comparedColumns_eq, h'.keeps.comparedColumns_eq, compared]
  ordered := by
    rw [h.ast, h'.ast, h.keeps.orderedField?_eq, h'.keeps.orderedField?_eq, ordered]

end Behind

/-- Queries of one text, whose columns are words, refer to the same columns. -/
theorem refersAlike_of_text (schema : p.schema = p'.schema)
    (words : ∀ f ∈ p.schema.fields, IsColumnWord f.name)
    (h : (p.translate mode).after log = (.ok q, log'))
    (h' : (p'.translate mode').after log₁ = (.ok q', log₁')) (text : q.text = q'.text) :
    q.RefersAlike q' := by
  obtain ⟨plan, d, l, behind⟩ := exists_behind h
  obtain ⟨plan', d', l', behind'⟩ := exists_behind h'
  obtain ⟨t, ht, hq⟩ := behind.exists_text h
  obtain ⟨t', ht', hq'⟩ := behind'.exists_text h'
  obtain rfl : t = t' := by rwa [hq, hq'] at text
  have columns : p.schema.Columns IsColumnWord := Schema.columns_of_forall words (by decide)
  have columns' := columns
  rw [schema] at columns'
  have refers {p : Pipeline} {mode log log' q plan d l} (columns : p.schema.Columns IsColumnWord)
      (behind : p.Behind mode log log' q plan d l) : l.Refers IsWord :=
    behind.run.refers (fun m column hm => (columns m column hm).toIsWord) Ledger.refers_start
  have start := behind.run.columns_eq
  have start' := behind'.run.columns_eq
  have kind : l.kind = l'.kind := by
    rw [start.2, start'.2]
    exact congrArg Schema.name schema
  obtain ⟨projected, compared, ordered⟩ := behind.keeps.read_back behind'.keeps ht ht' start.1
    start'.1 kind (refers columns behind) (refers columns' behind')
    (plan_columns columns behind.planned) (plan_columns columns' behind'.planned)
  refine behind.refersAlike behind' ?_ ?_ compared ordered
  · rw [hq, hq']
    exact congrArg Schema.name schema
  · rw [hq, hq']
    exact projected

/-- And so do pipelines of the same stages in another order. -/
theorem refersAlike_of_reorders (schema : p.schema = p'.schema)
    (reorders : Reorders p.stages p'.stages) (constant : p.IsConstant)
    (h : p.compile.after log = (.ok q, log')) (h' : p'.compile.after log₁ = (.ok q', log₁')) :
    q.RefersAlike q' := by
  obtain ⟨plan, d, l, behind⟩ := exists_behind h
  obtain ⟨plan', d', l', behind'⟩ := exists_behind h'
  obtain ⟨c, log₂, hc, alike⟩ := exists_compile_of_reorders schema reorders constant h log₁
  obtain rfl : q' = c := Except.ok.inj (Prod.mk.inj (h'.symm.trans hc)).1
  obtain ⟨_, -, hq⟩ := behind.exists_text h
  obtain ⟨_, -, hq'⟩ := behind'.exists_text h'
  have plans : plan' = plan := by
    have := alike.plan
    rwa [hq, hq'] at this
  have collects := behind'.run.collects (constant.reorder reorders)
  rw [← schema, plans] at collects
  have ledgers : l = l' := (behind.run.collects constant).eq collects
    (fun st => reorders.perm.mem_iff) reorders.predicates
  exact behind.refersAlike behind' alike.kind.symm (congrArg Plan.columns alike.plan.symm)
    (by rw [ledgers]) (by rw [ledgers])

/-- **The index that a query needs** is told by its text, if the columns are
words, but for the place of the ordering. So it is for the same stages in
another order. An index is needed for both of two such queries or for neither,
and has the same properties. It is the same index just if all conditions
between the places of the ordering compare the column that it orders by, as
they do if no predicate follows it. -/
theorem requiredIndex?_iff (schema : p.schema = p'.schema)
    (h : p.compile.after log = (.ok q, log')) (h' : p'.compile.after log₁ = (.ok q', log₁'))
    (same : (∀ f ∈ p.schema.fields, IsColumnWord f.name) ∧ q.text = q'.text ∨
      p.IsConstant ∧ Reorders p.stages p'.stages) :
    (q.requiredIndex? = none ↔ q'.requiredIndex? = none) ∧
    (∀ i i', q.requiredIndex? = some i → q'.requiredIndex? = some i' →
      i.kind = i'.kind ∧ i.ancestor = i'.ancestor ∧ i.properties.Perm i'.properties) ∧
    (q.requiredIndex? = q'.requiredIndex? ↔ ∀ name ∈ q.ast.orderedField?,
      ∀ column ∈ q.ast.columnsBetween q.ast.orderingPlace q'.ast.orderingPlace, name = column) ∧
    (OrdersLast p.stages → OrdersLast p'.stages → q.requiredIndex? = q'.requiredIndex?) := by
  have alike : q.RefersAlike q' := by
    rcases same with ⟨words, text⟩ | ⟨constant, reorders⟩
    · exact refersAlike_of_text schema words h h' text
    · exact refersAlike_of_reorders schema reorders constant h h'
  obtain ⟨plan, d, l, behind⟩ := exists_behind h
  obtain ⟨plan', d', l', behind'⟩ := exists_behind h'
  have equal := alike.requiredIndex?_eq_iff behind.isPlaced behind'.isPlaced
  refine ⟨?_, ?_, equal, ?_⟩
  · rcases alike.requiredIndex?_cases behind.isPlaced behind'.isPlaced with
      ⟨none, none', -⟩ | ⟨some, some'⟩
    · rw [none, none']
    · rw [some, some']
      exact iff_of_false nofun nofun
  · intro i i' hi hi'
    rcases alike.requiredIndex?_cases behind.isPlaced behind'.isPlaced with
      ⟨none, -, -⟩ | ⟨some, some'⟩
    · cases none.symm.trans hi
    · obtain rfl := Option.some.inj (some.symm.trans hi)
      obtain rfl := Option.some.inj (some'.symm.trans hi')
      exact ⟨rfl, rfl,
        (alike.members_perm behind.isPlaced behind'.isPlaced).append_right q.plan.columns⟩
  · intro last last'
    -- Both places are the last one, so that nothing is between them.
    have place := behind.orderingPlace_eq last
    have place' := behind'.orderingPlace_eq last'
    rw [← behind.ast] at place
    rw [← behind'.ast, ← alike.compared, ← place] at place'
    refine equal.2 fun name _ column hcolumn => ?_
    rw [Ast.columnsBetween, place', max_self, min_self, List.drop_take, Nat.sub_self,
      List.take_zero] at hcolumn
    cases hcolumn

/-- Stages over people. -/
def ofPeople (stages : List Stage) : Pipeline where
  schema := ⟨"Person", [⟨"Adult", .bool, .normal⟩, ⟨"Age", .int32, .normal⟩]⟩
  stages := stages

/-- Three adults by age. -/
def limitedLast : Pipeline :=
  ofPeople [.filter (.field "Adult"), .orderBy (.field "Age") .asc, .take (.value (.int32 3))]

/-- The same with the limit in front. -/
def limitedFirst : Pipeline :=
  ofPeople [.take (.value (.int32 3)), .filter (.field "Adult"), .orderBy (.field "Age") .asc]

theorem requiredIndex?_limited :
    ∃ q q', limitedLast.compile.after [] = (.ok q, []) ∧
      limitedFirst.compile.after [] = (.ok q', []) ∧ q.text = q'.text ∧ q.ast ≠ q'.ast ∧
      q.requiredIndex? = q'.requiredIndex? ∧ q.requiredIndex? ≠ none := by
  obtain ⟨q, q', h, h', text, asts, needed⟩ :
      ∃ q q', limitedLast.compile.after [] = (.ok q, []) ∧
        limitedFirst.compile.after [] = (.ok q', []) ∧ q.text = q'.text ∧ q.ast ≠ q'.ast ∧
        q.requiredIndex? ≠ none :=
    ⟨_, _, rfl, rfl, rfl, by decide, Option.some_ne_none _⟩
  have words : ∀ f ∈ limitedLast.schema.fields, IsColumnWord f.name := by decide
  have last : OrdersLast limitedLast.stages :=
    ⟨[.filter (.field "Adult")], [.orderBy (.field "Age") .asc, .take (.value (.int32 3))], rfl,
      by simp [Stage.isOrderBy], by simp [Stage.predicate?]⟩
  have last' : OrdersLast limitedFirst.stages :=
    ⟨[.take (.value (.int32 3)), .filter (.field "Adult")], [.orderBy (.field "Age") .asc], rfl,
      by simp [Stage.isOrderBy], by simp [Stage.predicate?]⟩
  have schema : limitedLast.schema = limitedFirst.schema := rfl
  obtain ⟨-, -, -, equal⟩ := requiredIndex?_iff schema h h' (.inl ⟨words, text⟩)
  exact ⟨q, q', h, h', text, asts, equal last last', needed⟩

/-- Adults by age. -/
def filteredFirst : Pipeline := ofPeople [.filter (.field "Adult"), .orderBy (.field "Age") .asc]

/-- The same with the ordering in front. -/
def orderedFirst : Pipeline := ofPeople [.orderBy (.field "Age") .asc, .filter (.field "Adult")]

/-- A filter that follows an ordering is written before it all the same, and
stands behind it in the index. -/
theorem requiredIndex?_ne_of_text :
    ∃ q q', Reorders filteredFirst.stages orderedFirst.stages ∧
      filteredFirst.compile.after [] = (.ok q, []) ∧
      orderedFirst.compile.after [] = (.ok q', []) ∧ q.text = q'.text ∧
      q.requiredIndex? = some ⟨"Person", ["Adult", "Age"], false⟩ ∧
      q'.requiredIndex? = some ⟨"Person", ["Age", "Adult"], false⟩ ∧
      q.requiredIndex? ≠ q'.requiredIndex? := by
  have ends : TerminalEnds filteredFirst.stages := by
    simp [TerminalEnds, filteredFirst, ofPeople, Stage.terminal?]
  have ends' : TerminalEnds orderedFirst.stages := by
    simp [TerminalEnds, orderedFirst, ofPeople, Stage.terminal?]
  have reorders : Reorders filteredFirst.stages orderedFirst.stages :=
    ⟨.swap _ _ _, rfl, ends, ends'⟩
  exact ⟨_, _, reorders, rfl, rfl, rfl, rfl, rfl, by decide⟩

end Pipeline

end KindQuery
