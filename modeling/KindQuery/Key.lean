import KindQuery.Text.Quoted
/-!
# Keys

A key identifies a stored entity by its kind and its name.
-/

namespace KindQuery

/-- The kind and the name of a stored entity. -/
structure Key where
  kind : String
  name : String
deriving DecidableEq, Repr

/-- A key as display text. The name stands between quotes and is not
escaped. -/
def Key.displayText (k : Key) : String := "KEY(" ++ k.kind ++ ", \"" ++ k.name ++ "\")"

end KindQuery
