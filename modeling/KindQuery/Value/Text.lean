import KindQuery.Number.Shortest
import KindQuery.Text.Base64
import KindQuery.Text.Outline
import KindQuery.Value
/-!
# Values as text

A value has two texts. Its *outline* shows its constructor and is what
messages about the value contain. Its *display text* is what stands for it
in a query that is shown to a person.
-/

namespace KindQuery

/-- The outline of a key. -/
def Key.outline (k : Key) : Outline :=
  .fields "Key" [("kind", .ofText k.kind), ("name", .ofText k.name)]

/-- The outline of a variant, under the name of what it describes. -/
def Variant.outline (name : String) (v : Variant) : Outline :=
  .fields name [("name", .ofText v.name), ("discriminant", .ofInt v.number.toInt)]

/-- The outline of a boolean. -/
def Outline.ofBool (b : Bool) : Outline := .leaf (if b then "true" else "false")

namespace Value

mutual

/-- How a value is built. -/
def outline : Value → Outline
  | null => .leaf "Null"
  | bool b => .call "Bool" [.ofBool b]
  | int16 n => .call "I16" [.ofInt n.toInt]
  | int32 n => .call "I32" [.ofInt n.toInt]
  | int64 n => .call "I64" [.ofInt n.toInt]
  | double x => .call "F64" [.leaf (x.text .outline)]
  | decimal d => .call "Decimal" [.leaf d.text]
  | text s => .call "String" [.ofText s]
  | instant t => .call "DateTime" [.leaf t.fullText]
  | bytes bs => .call "Bytes" [.items (bs.map fun b => .ofInt b.toNat)]
  | variant v => .call "Enum" [v.outline "ValueEnum"]
  | key k => .call "Key" [k.outline]
  | list items => .call "List" [.items (outlineEach items)]
  | map entries => .call "Map" [.entries (outlineNamed entries)]
  | record fields => .call "Record" [.fields "ValueRecord" [("fields", .items (outlineEach fields))]]

/-- The outlines of the values of a list. -/
def outlineEach : List Value → List Outline
  | [] => []
  | v :: vs => v.outline :: outlineEach vs

/-- The outlines of named values. -/
def outlineNamed : List (String × Value) → List (String × Outline)
  | [] => []
  | (name, v) :: vs => (name, v.outline) :: outlineNamed vs

end

/-- A value as messages show it. -/
def described (v : Value) : String := v.outline.line

mutual

/-- A value as it stands in a query that is shown to a person. Texts are
not quoted, and an enumeration is shown by the name of its variant. -/
def displayText : Value → String
  | null => "NULL"
  | bool true => "True"
  | bool false => "False"
  | int16 n => toString n.toInt
  | int32 n => toString n.toInt
  | int64 n => toString n.toInt
  | double x => x.text .display
  | decimal d => d.text
  | text s => s
  | instant t => t.displayText
  | bytes bs => Base64.encode bs
  | variant v => v.name
  | key k => k.displayText
  | list items => "[" ++ Outline.commaJoined (displayEach items) ++ "]"
  | map entries => "\x7b" ++ Outline.commaJoined (displayNamed entries) ++ "\x7d"
  | record fields => "(" ++ Outline.commaJoined (displayEach fields) ++ ")"

/-- The display texts of the values of a list. -/
def displayEach : List Value → List String
  | [] => []
  | v :: vs => v.displayText :: displayEach vs

/-- The display texts of named values, each after its name. -/
def displayNamed : List (String × Value) → List String
  | [] => []
  | (name, v) :: vs => (name ++ ": " ++ v.displayText) :: displayNamed vs

end

end Value

end KindQuery
