import KindQuery.Proofs.Query.Parameters
import KindQuery.Proofs.Query.Supported
/-!
# What a run collects

What the stages of a run have added to a ledger, said of the stages as they
stand in the pipeline: an ordering and a count are those of some stage, a
mark is left by some stage, and the conditions are those of the predicates
from left to right. Only the last of these depends on an order, so that the
ledger at the end is told by which stages there are and by the order of
their predicates (`Collects.eq`).
-/

namespace KindQuery

variable {s : Schema} {i : Option String}

/-! ## Stages -/

/-- A count that is constant does not depend on what has been read. -/
theorem Draft.settled_count {pg : Paging} {n : Expr} (h : n.IsConstant) :
    (Draft.count pg n).Settled := by
  cases n with
  | value v => exact Reading.settled_ofExcept _
  | captured c =>
    have hc : c.IsConstant := h c (by simp [Expr.captures])
    exact ((Reading.settled_read hc).bind fun v => Reading.settled_ofExcept _).1
  | _ => exact Reading.settled_fail _

/-- So that neither does the count that a stage enters. -/
theorem Stage.Counts.of_isConstant {st : Stage} {pg : Paging} {log : ReadLog} {k : Int64}
    (hk : ∀ k ∈ st.captures, k.IsConstant) (h : st.Counts pg log k) : st.Counts pg [] k := by
  cases h with
  | terminal hpg => exact .terminal hpg
  | @page _ n _ log' hst hn =>
    have hconstant : n.IsConstant := by
      cases st <;> cases hst <;> exact hk
    have hsettled : (Draft.count pg n).Settled := Draft.settled_count hconstant
    have hnow := hsettled.exists_after_eq_ok.1 ⟨log', hn⟩
    obtain ⟨log₁, hn₁⟩ : ∃ log₁, (Draft.count pg n).after [] = (.ok k, log₁) :=
      hsettled.exists_after_eq_ok.2 hnow
    exact .page hst hn₁

namespace Stage

/-- A mark that a stage leaves beside those of its predicate. -/
def leaves (m : Mark) : Stage → Bool
  | .terminal kind _ => (Draft.terminalMarks kind).contains m
  | _ => false

/-- A stage that orders by a column. -/
def Orders (s : Schema) (dir : Direction) (column : String) (st : Stage) : Prop :=
  ∃ m, st = .orderBy (.member m) dir ∧ s.column m = .ok column

/-- What the predicate of a stage amounts to, if it has one. -/
def conjunction (s : Schema) (i : Option String) (st : Stage) : Except Error Conjunction :=
  match st.predicate? with
  | some e => (e.conditions s i).now
  | none => .ok (.none i)

/-- What the predicates of stages amount to, from left to right. -/
def conjunctionOfAll (s : Schema) (i : Option String) (stages : List Stage) :
    Except Error Conjunction :=
  (Expr.conditionsOfAll s i (stages.filterMap Stage.predicate?)).now

variable {st : Stage} {stages : List Stage}

theorem conjunction_of_none (h : st.predicate? = none) :
    st.conjunction s i = .ok (.none i) := by
  rw [conjunction, h]

theorem conjunction_of_some {e : Expr} (h : st.predicate? = some e) :
    st.conjunction s i = (e.conditions s i).now := by
  rw [conjunction, h]

theorem captures_of_predicate? {e : Expr} (h : st.predicate? = some e) :
    st.captures = e.captures := by
  cases st with
  | filter => cases h; rfl
  | terminal => cases h; rfl
  | _ => cases h

theorem isConstant_predicates (hk : ∀ st ∈ stages, ∀ k ∈ st.captures, k.IsConstant) :
    ∀ k ∈ Expr.capturesOfAll (stages.filterMap Stage.predicate?), k.IsConstant := by
  induction stages with
  | nil => exact List.forall_mem_nil _
  | cons st stages ih =>
    rw [List.forall_mem_cons] at hk
    cases hp : st.predicate? with
    | none =>
      rw [List.filterMap_cons_none hp]
      exact ih hk.2
    | some e =>
      rw [List.filterMap_cons_some hp, Expr.forall_mem_capturesOfAll_cons]
      refine ⟨?_, ih hk.2⟩
      rw [Expr.IsConstant, ← captures_of_predicate? hp]
      exact hk.1

theorem conjunctionOfAll_cons (hk : ∀ st' ∈ st :: stages, ∀ k ∈ st'.captures, k.IsConstant)
    {a b : Conjunction} (ha : st.conjunction s i = .ok a)
    (hb : conjunctionOfAll s a.inequality stages = .ok b) :
    conjunctionOfAll s i (st :: stages) = .ok (a.append b) := by
  have hconstant := isConstant_predicates hk
  unfold conjunctionOfAll at hb ⊢
  cases hp : st.predicate? with
  | none =>
    rw [conjunction_of_none hp] at ha
    cases ha
    rw [List.filterMap_cons_none hp]
    exact hb
  | some e =>
    rw [conjunction_of_some hp] at ha
    rw [List.filterMap_cons_some hp] at hconstant ⊢
    exact (Expr.now_conditionsOfAll_cons hconstant).2 ⟨a, b, ha, hb, rfl⟩

end Stage

/-! ## Runs -/

namespace Ledger

/-- **What stages add to a ledger** when they are walked. -/
structure Collects (s : Schema) (l : Ledger) (stages : List Stage) (l' : Ledger) : Prop where
  columns : l'.columns = l.columns
  kind : l'.kind = l.kind
  order : ∀ dir column, l'.order = some (dir, column) ↔
    l.order = some (dir, column) ∨ ∃ st ∈ stages, st.Orders s dir column
  /-- A count does not depend on what has been read. -/
  count : ∀ pg k, l'.count pg = some k ↔
    l.count pg = some k ∨ ∃ st ∈ stages, st.Counts pg [] k
  predicates : ∃ c, Stage.conjunctionOfAll s l.inequality stages = .ok c ∧
    l'.conditions = l.conditions ++ c.conditions ∧ l'.inequality = c.inequality ∧
      ∀ m, l'.shape.has m = (l.shape.has m || c.shape.has m || stages.any (Stage.leaves m))

variable {l l₁ l' : Ledger} {log log' : ReadLog} {st : Stage} {stages : List Stage}

theorem Step.order_iff (h : Step s .strict l log st l' log') (dir : Direction) (column : String) :
    l'.order = some (dir, column) ↔ l.order = some (dir, column) ∨ st.Orders s dir column := by
  have hother : st.isOrderBy = false → ¬ st.Orders s dir column := by
    rintro hst ⟨m, rfl, -⟩
    cases hst
  cases h with
  | @orderBy m dir' column' ho hc =>
    simp only [setOrder, ho, Stage.Orders, Option.some.injEq, Prod.mk.injEq, Stage.orderBy.injEq,
      Expr.member.injEq]
    constructor
    · rintro ⟨rfl, rfl⟩
      exact .inr ⟨m, ⟨rfl, rfl⟩, hc⟩
    · rintro (h | ⟨_, ⟨rfl, rfl⟩, hc'⟩)
      · cases h
      · exact ⟨rfl, Except.ok.inj (hc.symm.trans hc')⟩
  | page hst =>
    have hne : st.isOrderBy = false := by cases st <;> first | rfl | cases hst
    exact (or_iff_left (hother hne)).symm
  | repeated _ hm => cases hm
  | filter | project | close | filterClose => exact (or_iff_left (hother rfl)).symm

theorem Step.count_iff (hk : ∀ k ∈ st.captures, k.IsConstant)
    (h : Step s .strict l log st l' log') (pg : Paging) (k : Int64) :
    l'.count pg = some k ↔ l.count pg = some k ∨ st.Counts pg [] k := by
  cases hc : st.cuts pg with
  | false =>
    have hnone : ¬ st.Counts pg [] k := by
      intro hcounts
      rw [hcounts.cuts_eq] at hc
      cases hc
    rw [h.count_eq hc]
    exact (or_iff_left hnone).symm
  | true =>
    obtain ⟨hnone, -⟩ := h.count_of_cuts hc
    obtain ⟨k', hcounts, hcount⟩ := h.exists_counts hnone hc
    have hcounts' := hcounts.of_isConstant hk
    rw [hcount, hnone, Option.some.injEq]
    constructor
    · rintro rfl
      exact .inr hcounts'
    · rintro (h | h)
      · cases h
      · exact hcounts'.eq h

/-- A step adds what its predicate amounts to, and the marks of a terminal
stage. -/
theorem Step.exists_conjunction (hk : ∀ k ∈ st.captures, k.IsConstant)
    (h : Step s .strict l log st l' log') :
    ∃ c, st.conjunction s l.inequality = .ok c ∧ l'.conditions = l.conditions ++ c.conditions ∧
      l'.inequality = c.inequality ∧
      ∀ m, l'.shape.has m = (l.shape.has m || c.shape.has m || st.leaves m) := by
  cases h with
  | filter hc =>
    exact ⟨_, Expr.now_conditions hk hc, rfl, rfl, fun m => (Bool.or_false _).symm⟩
  | filterClose hc =>
    exact ⟨_, Expr.now_conditions hk hc, rfl, rfl, fun m => rfl⟩
  | close =>
    refine ⟨_, rfl, (List.append_nil _).symm, rfl, fun m => ?_⟩
    rw [Conjunction.none, Shape.has_empty, Bool.or_false]
    rfl
  | project | orderBy =>
    refine ⟨_, rfl, (List.append_nil _).symm, rfl, fun m => ?_⟩
    simp [Conjunction.none, Stage.leaves, setOrder]
  | page hst =>
    have hp : st.predicate? = none := by cases st <;> first | rfl | cases hst
    have hm : ∀ m, st.leaves m = false := by cases st <;> first | exact fun _ => rfl | cases hst
    refine ⟨_, Stage.conjunction_of_none hp, (List.append_nil _).symm, rfl, fun m => ?_⟩
    simp [Conjunction.none, hm, setCount]
  | repeated _ hm => cases hm

/-- **A run collects** what its stages add. -/
theorem Run.collects (hk : ∀ st ∈ stages, ∀ k ∈ st.captures, k.IsConstant)
    (h : Run s .strict l log stages l' log') : Collects s l stages l' := by
  induction h with
  | nil =>
    exact ⟨rfl, rfl, by simp, by simp, _, rfl, (List.append_nil _).symm, rfl, by
      simp [Conjunction.none]⟩
  | @cons l l₁ l' _ _ _ st stages hst hrun ih =>
    have hks := hk
    rw [List.forall_mem_cons] at hk
    have ih := ih hk.2
    obtain ⟨hcolumns, hkind⟩ := hst.columns_eq
    obtain ⟨a, ha, hconditions, hinequality, hshape⟩ := hst.exists_conjunction hk.1
    obtain ⟨b, hb, hconditions', hinequality', hshape'⟩ := ih.predicates
    rw [hinequality] at hb
    refine ⟨ih.columns.trans hcolumns, ih.kind.trans hkind, fun dir column => ?_, fun pg k => ?_,
      a.append b, Stage.conjunctionOfAll_cons hks ha hb, ?_, hinequality', fun m => ?_⟩
    · rw [ih.order, hst.order_iff, or_assoc, List.exists_mem_cons_iff]
    · rw [ih.count, hst.count_iff hk.1, or_assoc, List.exists_mem_cons_iff]
    · rw [hconditions', hconditions, Conjunction.append, List.append_assoc]
    · rw [hshape', hshape, List.any_cons, Conjunction.append, Shape.has_union]
      ac_rfl

/-- **A ledger at the end is told** by the stages that there are and by their
predicates from left to right. -/
theorem Collects.eq {xs ys : List Stage} {l₂ : Ledger} (h : Collects s l xs l₁)
    (h' : Collects s l ys l₂) (hmem : ∀ st, st ∈ xs ↔ st ∈ ys)
    (hpredicates : xs.filterMap Stage.predicate? = ys.filterMap Stage.predicate?) : l₁ = l₂ := by
  obtain ⟨c, hc, hconditions, hinequality, hshape⟩ := h.predicates
  obtain ⟨c', hc', hconditions', hinequality', hshape'⟩ := h'.predicates
  have heq : c = c' := by
    rw [Stage.conjunctionOfAll, hpredicates] at hc
    exact Except.ok.inj (hc.symm.trans hc')
  subst heq
  have horder : l₁.order = l₂.order := by
    refine Option.ext fun (dir, column) => ?_
    rw [h.order, h'.order]
    simp only [hmem]
  have hcount : l₁.count = l₂.count := by
    funext pg
    refine Option.ext fun k => ?_
    rw [h.count, h'.count]
    simp only [hmem]
  have hmarks : ∀ m, xs.any (Stage.leaves m) = ys.any (Stage.leaves m) := by
    intro m
    rw [Bool.eq_iff_iff, List.any_eq_true, List.any_eq_true]
    simp only [hmem]
  have hshape : l₁.shape = l₂.shape := Shape.ext (funext fun m => by rw [hshape, hshape', hmarks])
  obtain ⟨columns, kind, conditions, inequality, shape, order, count⟩ := l₁
  obtain ⟨columns', kind', conditions', inequality', shape', order', count'⟩ := l₂
  rw [mk.injEq]
  exact ⟨h.columns.trans h'.columns.symm, h.kind.trans h'.kind.symm,
    hconditions.trans hconditions'.symm, hinequality.trans hinequality'.symm, hshape, horder,
    hcount⟩

end Ledger

end KindQuery
