import KindQuery.Error
import KindQuery.Value
/-!
# Schemas

A schema names a kind and lists the fields of its records, each with a
type and a role. Records may nest: a type refers to the schema of a nested
record by its place in a catalog, so that schemas may be recursive.

At most one field is the *key* of a schema. Its value is kept in the key
of an entity and never as a property.
-/

namespace KindQuery

/-- The column under which the store answers for the key of an entity. -/
def keyColumn : String := "__key__"

/-- The type that a field is declared with. -/
inductive FieldType where
  | bool
  | int16
  | int32
  | int64
  | double
  | decimal
  | text
  | instant
  | bytes
  | enum (variants : List Variant)
  | list (item : FieldType)
  | map (item : FieldType)
  /-- A nested record, by the place of its schema in the catalog. -/
  | record (schema : Nat)
deriving Repr

/-- How a field is stored. -/
inductive FieldRole where
  | normal
  /-- The field holds the key of the record. -/
  | key
  /-- Stored, and kept out of the store's indexes. -/
  | notIndexed
  /-- Never stored. -/
  | notPersisted
deriving DecidableEq, Repr

/-- A field of a record. -/
structure Field where
  name : String
  type : FieldType
  role : FieldRole
deriving Repr

/-- A kind and the fields of its records, in order. -/
structure Schema where
  name : String
  fields : List Field
deriving Repr, Inhabited

/-- The schemas that types of nested records refer to. -/
structure Catalog where
  schemas : List Schema

/-- The schema at a place of the catalog. A place that is not there has a
schema without fields. -/
def Catalog.schema (catalog : Catalog) (ref : Nat) : Schema := catalog.schemas.getD ref default

namespace Variant

/-- The first variant that is stored as the number. -/
def byNumber? (variants : List Variant) (number : Int64) : Option Variant :=
  variants.find? fun v => v.number == number

/-- The first variant of the name. -/
def byName? (variants : List Variant) (name : String) : Option Variant :=
  variants.find? fun v => v.name == name

end Variant

namespace FieldType

/-- The name of a type in messages. -/
def name : FieldType → String
  | bool => "Bool"
  | int16 => "I16"
  | int32 => "I32"
  | int64 => "I64"
  | double => "F64"
  | decimal => "Decimal"
  | text => "String"
  | instant => "DateTime"
  | bytes => "Bytes"
  | enum _ => "Enum"
  | list _ => "List"
  | map _ => "Map"
  | record _ => "Record"

/-- Is it the type of booleans? -/
def isBool : FieldType → Bool
  | bool => true
  | _ => false

/-- Is a value of the type stored as one property without parts? -/
def isScalar : FieldType → Bool
  | list _ | map _ | record _ => false
  | _ => true

/-- The value of a field for which nothing is stored. An enumeration has
the variant with the number 0, or else its first one. -/
def zero : FieldType → Value
  | bool => .bool false
  | int16 => .int16 0
  | int32 => .int32 0
  | int64 => .int64 0
  | double => .double .zero
  | decimal => .decimal .zero
  | text => .text ""
  | instant => .instant .epoch
  | bytes => .bytes []
  | enum variants =>
    match (Variant.byNumber? variants 0).or variants.head? with
    | some v => .variant v
    | none => .null
  | list _ => .list []
  | map _ => .map []
  | record _ => .null

end FieldType

namespace Field

/-- A field that is stored. -/
def isPersisted (f : Field) : Bool := f.role != .notPersisted

/-- A field whose values the store indexes. -/
def isIndexed (f : Field) : Bool :=
  match f.role with
  | .notIndexed | .notPersisted => false
  | _ => true

/-- The first field that satisfies a condition, with its place. -/
def locate? (p : Field → Bool) : List Field → Option (Nat × Field)
  | [] => none
  | f :: fs => if p f then some (0, f) else (locate? p fs).map fun (i, g) => (i + 1, g)

theorem getElem?_of_locate? {p : Field → Bool} {fs : List Field} {i : Nat} {f : Field}
    (h : locate? p fs = some (i, f)) : fs[i]? = some f := by
  induction fs generalizing i with
  | nil => cases h
  | cons g fs ih =>
    unfold locate? at h
    split at h
    · cases h
      rfl
    · obtain ⟨⟨j, f'⟩, hl, he⟩ := Option.map_eq_some_iff.1 h
      cases he
      exact ih hl

theorem isSome_locate? {p : Field → Bool} {fs : List Field} :
    (locate? p fs).isSome = fs.any p := by
  induction fs with
  | nil => rfl
  | cons f fs ih => cases hf : p f <;> simp [locate?, hf, ih]

end Field

namespace Schema

/-- The field of a name, with its place. -/
def field? (s : Schema) (name : String) : Option (Nat × Field) :=
  Field.locate? (fun f => f.name == name) s.fields

theorem isSome_field? {s : Schema} {name : String} :
    (s.field? name).isSome ↔ ∃ f ∈ s.fields, f.name = name := by
  simp [field?, Field.isSome_locate?]

/-- Is the name `id`, in upper or lower case? -/
def isIdName (name : String) : Bool := name.toList.map Char.toLower == ['i', 'd']

/-- The key field: the first one whose role it is, or else the first one
named `id`. -/
def keyField? (s : Schema) : Option (Nat × Field) :=
  (Field.locate? (fun f => f.role == .key) s.fields).or
    (Field.locate? (fun f => isIdName f.name) s.fields)

/-- The place of the key field. -/
def keyIndex? (s : Schema) : Option Nat := s.keyField?.map Prod.fst

theorem getElem?_of_keyField? {s : Schema} {i : Nat} {f : Field}
    (h : s.keyField? = some (i, f)) : s.fields[i]? = some f := by
  rcases Option.or_eq_some_iff.1 h with h | ⟨-, h⟩ <;> exact Field.getElem?_of_locate? h

theorem keyIndex?_of_keyField? {s : Schema} {i : Nat} {f : Field}
    (h : s.keyField? = some (i, f)) : s.keyIndex? = some i := by
  rw [keyIndex?, h]
  rfl

/-- Is it the name of the key field? -/
def isKey (s : Schema) (name : String) : Bool :=
  match s.keyField? with
  | some (_, f) => f.name == name
  | none => false

/-- The key field, which must be there and hold text. -/
def requireKey (s : Schema) : Except Error (Nat × Field) :=
  match s.keyField? with
  | none => Fault.raise (.missingKey s.name)
  | some (i, f) =>
    match f.type with
    | .text => .ok (i, f)
    | type => Fault.raise (.unsupportedKeyType s.name type.name)

end Schema

end KindQuery
