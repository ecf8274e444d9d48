import KindQuery.Query.Condition
/-!
# Projection plans

A selector says what each row of the result looks like. The plan for it
lists the columns that the store has to return: those that the leaves of
the selector read, each of them once, in the order in which they first
occur. A selector that needs the whole row, or no column at all, gets
every property.
-/

namespace KindQuery

/-- The columns that a query returns, and the selector that each row is
read with. No columns means every property. -/
structure Plan where
  columns : List String
  selector : Expr

namespace Plan

/-- The plan of a query without a selector. -/
def all : Plan := ⟨[], .row⟩

/-- Does the plan return every property? -/
def selectsAll (p : Plan) : Bool := p.columns.isEmpty

/-- The columns as query text. -/
def columnText (p : Plan) : String :=
  if p.selectsAll then "*" else String.intercalate ", " p.columns

end Plan

/-- What a leaf of a selector reads from a row. -/
inductive Source where
  | wholeRow
  | column (name : String)
deriving DecidableEq, Repr

namespace Source

/-- The column that is read. -/
def column? : Source → Option String
  | wholeRow => none
  | column name => some name

end Source

mutual

/-- What the leaves of a selector read, from left to right. -/
def Expr.sources (s : Schema) : Expr → Except Error (List Source)
  | .row => .ok [.wholeRow]
  | .value _ | .captured _ => .ok []
  | .member m => do .ok [.column (← s.column m)]
  | .record fields => Expr.sourcesOfAll s fields
  | .call receiver name _ => (callFault receiver name).raise
  | _ => Fault.raise (.unsupportedShape .projection)

/-- What the leaves of several selectors read. -/
def Expr.sourcesOfAll (s : Schema) : List Expr → Except Error (List Source)
  | [] => .ok []
  | e :: es => do
    let a ← Expr.sources s e
    let b ← Expr.sourcesOfAll s es
    .ok (a ++ b)

end

/-- Each name once, where it first occurs. -/
def distinct : List String → List String
  | [] => []
  | name :: names => name :: (distinct names).filter (· != name)

/-- The columns that have to be returned for what is read. -/
def requiredColumns (sources : List Source) : List String :=
  if sources.contains .wholeRow then [] else distinct (sources.filterMap Source.column?)

/-- The plan for a selector. -/
def Schema.plan (s : Schema) (selector : Expr) : Except Error Plan := do
  .ok ⟨requiredColumns (← selector.sources s), selector⟩

theorem mem_distinct {name : String} {names : List String} :
    name ∈ distinct names ↔ name ∈ names := by
  induction names with
  | nil => simp [distinct]
  | cons n names ih =>
    by_cases h : name = n <;> simp [distinct, h, ih]

end KindQuery
