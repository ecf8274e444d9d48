import KindQuery.Query.Ast
import KindQuery.Query.Param
import KindQuery.Text.Blank
/-!
# Query text

Most fragments are written where they stand. The ordering, the limit and
the offset are written at the end, in this order, wherever their fragments
are. How a parameter is written is left to a *placeholder policy*: as a
name, for the store, or as the value bound to it, for a person.
-/

namespace KindQuery

/-- How the parameter of a name is written. -/
abbrev Placeholder := String → Except Error String

namespace Placeholder

/-- A parameter is written by its name. -/
def named : Placeholder := fun name => .ok ("@" ++ name)

/-- A parameter is written as the value that is bound to it. -/
def inline (params : List Param) : Placeholder := fun name =>
  match Param.find? name params with
  | some v => .ok ("@" ++ v.displayText)
  | none => Fault.raise (.emptyFragment ("parameter " ++ ticked name))

end Placeholder

/-- Text that must not be empty. -/
def requireText (fragment text : String) : Except Error String :=
  if text.isEmpty then Fault.raise (.emptyFragment fragment) else .ok text

/-- A parameter, whose name must not be empty. -/
def Placeholder.write (p : Placeholder) (name : String) : Except Error String := do
  p (← requireText "parameter" name)

/-- What is written where a fragment stands. -/
def Fragment.inPlace (p : Placeholder) : Fragment → Except Error String
  | select => .ok "SELECT "
  | projection columns => requireText "projection" columns
  | source => .ok " FROM "
  | kind name => requireText "kind" name
  | condition => .ok " WHERE "
  | and => .ok " AND "
  | operator op => .ok (" " ++ op.symbol ++ " ")
  | member name => requireText "member" name
  | param name => p.write name
  | constant text => requireText "constant" text
  | take | skip | orderBy _ => .ok ""
  | orderByField name => do
    let _ ← requireText "order by" name
    .ok ""

namespace Ast

/-- The direction of the ordering. -/
def direction? (a : Ast) : Option Direction :=
  a.fragments.findSome? fun
    | .orderBy direction => some direction
    | _ => none

/-- The property of the ordering. -/
def orderedField? (a : Ast) : Option String :=
  a.fragments.findSome? fun
    | .orderByField name => some name
    | _ => none

/-- The `ORDER BY` clause. Direction and property must come together. -/
def orderClause (a : Ast) : Except Error String :=
  match a.direction?, a.orderedField? with
  | some direction, some name => .ok (" ORDER BY " ++ name ++ " " ++ direction.symbol)
  | none, none => .ok ""
  | _, _ => Fault.raise (.emptyFragment "order by")

/-- A clause with a parameter, if the query has the fragment for it. -/
def pagingClause (a : Ast) (p : Placeholder) (f : Fragment) (keyword name : String) :
    Except Error String := do
  if a.contains f then .ok (keyword ++ (← p.write name)) else .ok ""

/-- The text of a query. -/
def render (a : Ast) (p : Placeholder) : Except Error String := do
  let pieces ← a.fragments.mapM (Fragment.inPlace p)
  let order ← a.orderClause
  let limit ← a.pagingClause p .take " LIMIT " Param.takeName
  let offset ← a.pagingClause p .skip " OFFSET " Param.skipName
  .ok (trim (String.join pieces ++ order ++ limit ++ offset))

end Ast

end KindQuery
