import KindQuery.Schema
import KindQuery.Value.Text
/-!
# Loading values

Taking a value as one of a certain type. A value of another type is
refused with a message that shows it. Only enumerations are lenient: a
variant may be given by its number or by its name.
-/

namespace KindQuery

namespace Value

/-- Refuses a value where another type is wanted. -/
def refuse {α : Type u} (v : Value) (type : String) : Except Error α :=
  Fault.raise (.conversion v.described type)

/-- The fields of a record. -/
def toRecord : Value → Except Error Record
  | record fields => .ok fields
  | v => v.refuse "record"

/-- The items of a list. -/
def toList : Value → Except Error (List Value)
  | list items => .ok items
  | v => v.refuse "list"

/-- The entries of a map. -/
def toMap : Value → Except Error (Entries Value)
  | map entries => .ok entries
  | v => v.refuse "map"

/-- The key that a value is. -/
def toKey : Value → Except Error Key
  | key k => .ok k
  | v => v.refuse "Key"

/-- The variant that a value names: as itself, by its number or by its
name. -/
def toVariant (variants : List Variant) (v : Value) : Except Error Variant :=
  let found := match v with
    | variant w => Variant.byNumber? variants w.number
    | int64 n => Variant.byNumber? variants n
    | text name => Variant.byName? variants name
    | _ => none
  match found with
  | some w => .ok w
  | none => v.refuse "enum"

end Value

/-! ## Primitive types -/

/-- A type that fields can be compared as and projected to. -/
class Primitive (α : Type) where
  /-- The type of fields that hold such values. -/
  type : FieldType
  /-- The value for an element of the type. -/
  toValue : α → Value
  /-- The element that a value stands for. -/
  load : Value → Except Error α

instance : Primitive Bool where
  type := .bool
  toValue := .bool
  load
    | .bool b => .ok b
    | v => v.refuse "bool"

instance : Primitive Int16 where
  type := .int16
  toValue := .int16
  load
    | .int16 n => .ok n
    | v => v.refuse "i16"

instance : Primitive Int32 where
  type := .int32
  toValue := .int32
  load
    | .int32 n => .ok n
    | v => v.refuse "i32"

instance : Primitive Int64 where
  type := .int64
  toValue := .int64
  load
    | .int64 n => .ok n
    | v => v.refuse "i64"

instance : Primitive Double where
  type := .double
  toValue := .double
  load
    | .double x => .ok x
    | v => v.refuse "f64"

instance : Primitive Decimal where
  type := .decimal
  toValue := .decimal
  load
    | .decimal d => .ok d
    | v => v.refuse "Decimal"

instance : Primitive String where
  type := .text
  toValue := .text
  load
    | .text s => .ok s
    | v => v.refuse "String"

instance : Primitive Instant where
  type := .instant
  toValue := .instant
  load
    | .instant t => .ok t
    | v => v.refuse "DateTime<Utc>"

instance : Primitive (List UInt8) where
  type := .bytes
  toValue := .bytes
  load
    | .bytes bs => .ok bs
    | v => v.refuse "Vec<u8>"

/-- The value for an element that may be absent. -/
def Primitive.ofOption {α : Type} [Primitive α] : Option α → Value
  | some a => Primitive.toValue a
  | none => .null

end KindQuery
