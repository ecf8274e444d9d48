/-!
# Shapes

A shape is a set of marks that describe a query. The first three marks
say in which stage a walk is; the others add up to a description of the
whole query.
-/

namespace KindQuery

/-- One thing that can be said of a query. -/
inductive Mark where
  | inTake
  | inSkip
  | inNot
  | hasMember
  | hasConstantBoolean
  | hasInequality
  | isFirst
  | isSingle
  | isAny
  | allowDefault
deriving DecidableEq, Repr

namespace Mark

/-- All marks, in the order in which a shape shows them. -/
def all : List Mark :=
  [inTake, inSkip, inNot, hasMember, hasConstantBoolean, hasInequality, isFirst, isSingle,
    isAny, allowDefault]

theorem mem_all (m : Mark) : m ∈ all := by cases m <;> decide

/-- The name of a mark. -/
def name : Mark → String
  | inTake => "IN_TAKE"
  | inSkip => "IN_SKIP"
  | inNot => "IN_NOT"
  | hasMember => "HAS_MEMBER"
  | hasConstantBoolean => "HAS_CONSTANT_BOOLEAN"
  | hasInequality => "HAS_INEQUALITY"
  | isFirst => "IS_FIRST"
  | isSingle => "IS_SINGLE"
  | isAny => "IS_ANY"
  | allowDefault => "ALLOW_DEFAULT"

end Mark

/-- A set of marks. -/
@[ext]
structure Shape where
  has : Mark → Bool

namespace Shape

/-- The shape without marks. -/
def empty : Shape := ⟨fun _ => false⟩

/-- The shape with the given marks. -/
def ofMarks (marks : List Mark) : Shape := ⟨fun m => marks.contains m⟩

/-- The marks of either shape. -/
def union (s t : Shape) : Shape := ⟨fun m => s.has m || t.has m⟩

/-- The marks of the first shape that the second one does not have. -/
def without (s t : Shape) : Shape := ⟨fun m => s.has m && !t.has m⟩

/-- Does the shape have all marks of the other? -/
def contains (s t : Shape) : Bool := Mark.all.all fun m => !t.has m || s.has m

/-- Does the shape have no marks? -/
def isEmpty (s : Shape) : Bool := Mark.all.all fun m => !s.has m

/-- The marks of a shape, in order. -/
def marks (s : Shape) : List Mark := Mark.all.filter s.has

/-- A shape as text: the names of its marks in braces. -/
def text (s : Shape) : String :=
  "\x7b" ++ String.intercalate ", " (s.marks.map Mark.name) ++ "\x7d"

theorem ext_all {s t : Shape} (h : ∀ m ∈ Mark.all, s.has m = t.has m) : s = t := by
  ext m
  exact h m (Mark.mem_all m)

instance : DecidableEq Shape := fun s t =>
  if h : ∀ m ∈ Mark.all, s.has m = t.has m then .isTrue (ext_all h)
  else .isFalse fun e => h fun _ _ => by rw [e]

@[simp] theorem has_empty (m : Mark) : empty.has m = false := rfl

@[simp] theorem has_union (s t : Shape) (m : Mark) : (s.union t).has m = (s.has m || t.has m) :=
  rfl

@[simp] theorem has_without (s t : Shape) (m : Mark) :
    (s.without t).has m = (s.has m && !t.has m) :=
  rfl

theorem contains_iff {s t : Shape} :
    s.contains t = true ↔ ∀ m, t.has m = true → s.has m = true := by
  simp only [contains, List.all_eq_true, Bool.or_eq_true, Bool.not_eq_true']
  constructor
  · intro h m hm
    rcases h m (Mark.mem_all m) with h | h
    · rw [h] at hm; cases hm
    · exact h
  · intro h m _
    cases hm : t.has m
    · exact .inl rfl
    · exact .inr (h m hm)

end Shape

end KindQuery
