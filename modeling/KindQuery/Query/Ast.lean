import KindQuery.Pipeline
/-!
# Fragments of a query

A query under construction is a sequence of fragments in the order in
which they were emitted. Most kinds of fragment are *singletons*: the
first one of its kind stays, later ones are dropped. Connectives,
operators, members, parameters and constants may occur many times; they
only ever belong to the `WHERE` clause.
-/

namespace KindQuery

/-- One piece of a query. -/
inductive Fragment where
  | select
  /-- The projected columns, or `*`. -/
  | projection (columns : String)
  | source
  /-- The kind that is queried. -/
  | kind (name : String)
  | condition
  | and
  | operator (op : Comparison)
  /-- The name of a property, or the key column. -/
  | member (name : String)
  /-- A placeholder for the parameter of a name. -/
  | param (name : String)
  /-- Text that stands as it is. -/
  | constant (text : String)
  /-- The query has a limit. -/
  | take
  /-- The query has an offset. -/
  | skip
  /-- The query is ordered. -/
  | orderBy (direction : Direction)
  /-- The property that the query is ordered by. -/
  | orderByField (name : String)
deriving DecidableEq, Repr

namespace Fragment

/-- The kinds of fragments. -/
inductive Kind where
  | select
  | projection
  | source
  | kind
  | condition
  | and
  | operator
  | member
  | param
  | constant
  | take
  | skip
  | orderBy
  | orderByField
deriving DecidableEq, Repr

/-- The kind of a fragment. -/
def kindOf : Fragment → Kind
  | select => .select
  | projection _ => .projection
  | source => .source
  | kind _ => .kind
  | condition => .condition
  | and => .and
  | operator _ => .operator
  | member _ => .member
  | param _ => .param
  | constant _ => .constant
  | take => .take
  | skip => .skip
  | orderBy _ => .orderBy
  | orderByField _ => .orderByField

/-- A kind of which a query has at most one fragment. -/
def Kind.isSingleton : Kind → Bool
  | and | operator | member | param | constant => false
  | _ => true

/-- Does the fragment occur at most once? -/
def isSingleton (f : Fragment) : Bool := f.kindOf.isSingleton

/-- Is the fragment the name of a property in a condition? -/
def isMember : Fragment → Bool
  | member _ => true
  | _ => false

/-- The property that a condition or the ordering refers to. -/
def memberName? : Fragment → Option String
  | member name => some name
  | orderByField name => some name
  | _ => none

end Fragment

/-- The fragments of one query, in the order of their emission. -/
structure Ast where
  fragments : List Fragment
deriving DecidableEq, Repr

namespace Ast

/-- No fragments. -/
def empty : Ast := ⟨[]⟩

/-- Is there a fragment of the same kind? -/
def contains (a : Ast) (f : Fragment) : Bool :=
  a.fragments.any fun g => g.kindOf == f.kindOf

/-- Appends a fragment. A singleton of which there is one already is
dropped. -/
def push (a : Ast) (f : Fragment) : Ast :=
  if f.isSingleton && a.contains f then a else ⟨a.fragments ++ [f]⟩

/-- Appends fragments one by one. -/
def extend (a : Ast) (fs : List Fragment) : Ast := fs.foldl push a

/-- Is there a `WHERE` clause? -/
def hasCondition (a : Ast) : Bool := a.contains .condition

/-- Drops the `WHERE` clause if it refers to no property. Tells whether it
did. -/
def removeCondition (a : Ast) : Bool × Ast :=
  if a.hasCondition && !a.fragments.any Fragment.isMember then
    (true, ⟨a.fragments.filter fun f => f.isSingleton && f != .condition⟩)
  else (false, a)

/-- The properties that conditions and the ordering refer to. -/
def members (a : Ast) : List String := a.fragments.filterMap Fragment.memberName?

theorem push_of_contains {a : Ast} {f : Fragment} (hs : f.isSingleton = true)
    (hc : a.contains f = true) : a.push f = a := by
  simp [push, hs, hc]

theorem push_of_not_contains {a : Ast} {f : Fragment} (hc : a.contains f = false) :
    a.push f = ⟨a.fragments ++ [f]⟩ := by
  simp [push, hc]

theorem push_of_not_isSingleton {a : Ast} {f : Fragment} (hs : f.isSingleton = false) :
    a.push f = ⟨a.fragments ++ [f]⟩ := by
  simp [push, hs]

/-- A push appends the fragment or drops it. -/
theorem fragments_push (a : Ast) (f : Fragment) :
    (a.push f).fragments = a.fragments ∨ (a.push f).fragments = a.fragments ++ [f] := by
  unfold push
  split
  · exact .inl rfl
  · exact .inr rfl

/-- Either way the query has a fragment of its kind afterwards. -/
theorem contains_push (a : Ast) (f g : Fragment) :
    (a.push f).contains g = (a.contains g || f.kindOf == g.kindOf) := by
  unfold push
  split
  next h =>
    cases hk : f.kindOf == g.kindOf with
    | false => simp
    | true =>
      simp only [Bool.and_eq_true, contains] at h ⊢
      simpa [eq_of_beq hk] using h.2
  next h => simp [contains]

/-- Fragments that are no singletons are all appended. -/
theorem extend_of_not_isSingleton {a : Ast} {fs : List Fragment}
    (h : ∀ f ∈ fs, f.isSingleton = false) : a.extend fs = ⟨a.fragments ++ fs⟩ := by
  induction fs generalizing a with
  | nil => simp [extend]
  | cons f fs ih =>
    have ih := ih (a := a.push f) fun g hg => h g (by simp [hg])
    rw [push_of_not_isSingleton (h f (by simp))] at ih
    simpa [extend, push_of_not_isSingleton (h f (by simp))] using ih

end Ast

end KindQuery
