import KindQuery.Codec.Decode
import KindQuery.Codec.Encode
import KindQuery.Value.Convert
/-!
# Models

A model says how the elements of a type are stored: under which schema,
as which record, and how an element is made from a record again. The
records of a schema are themselves a model, which is what a caller uses
who knows the schema only when the program runs.
-/

namespace KindQuery

/-- How the elements of a type are stored. -/
structure Model (α : Type) where
  catalog : Catalog
  schema : Schema
  /-- The values of the fields, in the order of the schema. -/
  toRecord : α → Record
  /-- The element of a record. -/
  load : Record → Except Error α

namespace Model

variable {α : Type}

/-- The entity of an element. -/
def encode (m : Model α) (a : α) : Except Error Entity := m.schema.encode m.catalog (m.toRecord a)

/-- The element of an entity. -/
def decode (m : Model α) (e : Entity) : Except Error α := do
  m.load (← m.schema.decode m.catalog e)

end Model

/-! ## Records as a model -/

/-- A value as one of a primitive type. -/
def loadAs (α : Type) [Primitive α] (v : Value) : Except Error Value :=
  (Primitive.load v : Except Error α).map Primitive.toValue

/-- A value as one of the type of a field. A nested record may be null. -/
def FieldType.load : FieldType → Value → Except Error Value
  | bool, v => loadAs Bool v
  | int16, v => loadAs Int16 v
  | int32, v => loadAs Int32 v
  | int64, v => loadAs Int64 v
  | double, v => loadAs Double v
  | decimal, v => loadAs Decimal v
  | text, v => loadAs String v
  | instant, v => loadAs Instant v
  | bytes, v => loadAs (List UInt8) v
  | enum variants, v => (v.toVariant variants).map .variant
  | list _, v => v.toList.map .list
  | map _, v => v.toMap.map .map
  | record _, .null => .ok .null
  | record _, v => v.toRecord.map .record

/-- The first values of a record as values of the fields. A missing value
counts as null, and values beyond the fields are dropped. -/
def loadFields : List Field → Record → Except Error Record
  | [], _ => .ok []
  | f :: fs, r => do
    let v ← f.type.load (r.head?.getD .null)
    let vs ← loadFields fs r.tail
    .ok (v :: vs)

/-- The records of a schema, as the elements of a model. -/
def Model.ofSchema (catalog : Catalog) (s : Schema) : Model Record where
  catalog := catalog
  schema := s
  toRecord := id
  load := loadFields s.fields

end KindQuery
