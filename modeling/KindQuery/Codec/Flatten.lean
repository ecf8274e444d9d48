import KindQuery.Schema
import KindQuery.Text.Cut
/-!
# Flattened maps

The entries of a map are stored as properties of their own. Each is named
after the field and the entry, between a mark and a divider. A name is
taken apart at the first divider, so that an entry may contain the divider
and a field may not.
-/

namespace KindQuery

/-- How the name of every flattened entry begins. -/
def flattenStart : String := "g/kv_"

/-- What stands between the field and the entry in such a name. -/
def flattenDivider : String := "_g/k_"

/-- The name of the property that a map entry is stored under. -/
def flattenedName (field entry : String) : String :=
  flattenStart ++ field ++ flattenDivider ++ entry

/-- Does the name look like that of a flattened entry? -/
def isFlattened (name : String) : Bool := startsWith flattenStart.toList name.toList

/-- The field and the entry that a flattened name was made from. Neither
may be blank. -/
def splitFlattened? (name : String) : Option (String × String) :=
  match splitFirst? flattenDivider.toList name.toList with
  | none => none
  | some (head, entry) =>
    let field := String.ofList ((dropStart? flattenStart.toList head).getD head)
    let entry := String.ofList entry
    if isBlank field || isBlank entry then none else some (field, entry)

/-- Could the field be mistaken for a flattened entry? -/
def Field.collides (f : Field) : Bool :=
  isFlattened f.name || occursIn flattenDivider.toList f.name.toList

/-- Refuses a schema with a field that could be mistaken for a flattened
entry. -/
def Schema.checkFieldNames (s : Schema) : Except Error Unit :=
  match s.fields.find? Field.collides with
  | some f => Fault.raise (.invalidSchema (.collision f.name s.name))
  | none => .ok ()

example : splitFlattened? "g/kv_Map_g/k_a_g/k_b" = some ("Map", "a_g/k_b") := by decide

end KindQuery
