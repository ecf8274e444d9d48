import KindQuery.Codec.Flatten
import KindQuery.Entity
/-!
# Decoding

An entity becomes a record: each property goes to the field of its name,
or into the map of the field whose entry it is. Properties that belong to
no field are ignored, and a field without a property has the zero of its
type. The key field is filled from the key of the entity.
-/

namespace KindQuery

/-- Where a property belongs. -/
inductive Target where
  /-- To no field. -/
  | nowhere
  /-- To the field at a place. -/
  | slot (index : Nat) (type : FieldType)
  /-- Into the map of the field at a place, under the name of an entry. -/
  | entry (index : Nat) (item : FieldType) (name : String)
deriving Repr

/-- Where the property of a name belongs. -/
def Schema.target (s : Schema) (name : String) : Except Error Target :=
  if isFlattened name then
    match splitFlattened? name with
    | none => Fault.raise (.malformedFlattenedKey name)
    | some (field, entry) =>
      match s.field? field with
      | none => .ok .nowhere
      | some (i, f) =>
        match f.type with
        | .map item => .ok (.entry i item entry)
        | _ => Fault.raise (.conversion (quoted name) "map entry")
  else
    match s.field? name with
    | none => .ok .nowhere
    | some (i, f) => .ok (if f.isPersisted then .slot i f.type else .nowhere)

/-- The record of a schema for which nothing is stored. -/
def Schema.zeros (s : Schema) : Record := s.fields.map fun f => f.type.zero

/-- A map with one more entry. What is no map is replaced by one. -/
def insertEntry (name : String) (v : Value) : Option Value → Value
  | some (.map entries) => .map (Entries.insert name v entries)
  | _ => .map [(name, v)]

/-- Refuses a wire value of another type. -/
def Wire.refuse (v : Wire) (type : FieldType) : Except Error Value :=
  Fault.raise (.conversion v.described type.name)

/-- An integer as a value of the type. -/
def decodeInteger (n : Int64) : FieldType → Except Error Value
  | .int16 =>
    if n.toInt16.toInt64 = n then .ok (.int16 n.toInt16)
    else Fault.raise (.conversion (toString n.toInt) "i16")
  | .int32 =>
    if n.toInt32.toInt64 = n then .ok (.int32 n.toInt32)
    else Fault.raise (.conversion (toString n.toInt) "i32")
  | .int64 => .ok (.int64 n)
  | .double => .ok (.double (.ofInt n.toInt))
  | .decimal => .ok (.decimal (.ofInt64 n))
  | .enum variants =>
    match Variant.byNumber? variants n with
    | some v => .ok (.variant v)
    | none => Fault.raise (.conversion (toString n.toInt) "enum variant")
  | type => (Wire.integer n).refuse type

/-- A text as a value of the type. -/
def decodeText (s : String) : FieldType → Except Error Value
  | .text => .ok (.text s)
  | .decimal =>
    match Decimal.parse? s with
    | some d => .ok (.decimal d)
    | none => Fault.raise (.conversion (quoted s) "Decimal")
  | .enum variants =>
    match Variant.byName? variants s with
    | some v => .ok (.variant v)
    | none => Fault.raise (.conversion (quoted s) "enum variant")
  | type => (Wire.text s).refuse type

/-- A double as a value of the type. -/
def decodeDouble (x : Double) : FieldType → Except Error Value
  | .double => .ok (.double x)
  | .decimal =>
    match Decimal.ofDouble? x with
    | some d => .ok (.decimal d)
    | none => Fault.raise (.conversion (x.text .outline) "Decimal")
  | type => (Wire.double x).refuse type

/-- Base64 text as a value of the type. -/
def decodeBlob (s : String) : FieldType → Except Error Value
  | .bytes =>
    match Base64.decode? s with
    | some bs => .ok (.bytes bs)
    | none => Fault.raise (.conversion (quoted s) "Vec<u8>")
  | type => (Wire.blob s).refuse type

mutual

/-- A wire value as a value of the type. Null is the zero of the type. -/
def Wire.toValue (catalog : Catalog) (type : FieldType) : Wire → Except Error Value
  | .null => .ok type.zero
  | .boolean b =>
    match type with
    | .bool => .ok (.bool b)
    | type => (Wire.boolean b).refuse type
  | .integer n => decodeInteger n type
  | .double x => decodeDouble x type
  | .text s => decodeText s type
  | .timestamp t =>
    match type with
    | .instant => .ok (.instant t)
    | type => (Wire.timestamp t).refuse type
  | .blob s => decodeBlob s type
  | .key k =>
    match type with
    | .text => .ok (.text k.name)
    | type => (Wire.key k).refuse type
  | .entity bag =>
    match type with
    | .record ref => do
      let s := catalog.schema ref
      .ok (.record (← decodeBag catalog s s.zeros bag))
    | type => (Wire.entity bag).refuse type
  | .list items =>
    match type with
    | .list item => do .ok (.list (← decodeItems catalog item items))
    | type => (Wire.list items).refuse type

/-- The items of a list as values of the type. -/
def decodeItems (catalog : Catalog) (item : FieldType) :
    List Property → Except Error (List Value)
  | [] => .ok []
  | ⟨v, _⟩ :: rest => do
    let a ← Wire.toValue catalog item v
    let as ← decodeItems catalog item rest
    .ok (a :: as)

/-- Puts the properties of a bag, one by one, into the record they belong
to. -/
def decodeBag (catalog : Catalog) (s : Schema) (r : Record) :
    List (String × Property) → Except Error Record
  | [] => .ok r
  | (name, ⟨v, _⟩) :: rest => do
    match ← s.target name with
    | .nowhere => decodeBag catalog s r rest
    | .slot i type => do
      let a ← Wire.toValue catalog type v
      decodeBag catalog s (r.set i a) rest
    | .entry i item entry => do
      let a ← Wire.toValue catalog item v
      decodeBag catalog s (r.set i (insertEntry entry a r[i]?)) rest

end

/-- Puts the name of the key into the key field. -/
def Schema.fillKey (s : Schema) (key : Option Key) (r : Record) : Record :=
  match s.keyIndex?, key with
  | some i, some k => r.set i (.text k.name)
  | _, _ => r

/-- The record of an entity. -/
def Schema.decode (catalog : Catalog) (s : Schema) (e : Entity) : Except Error Record := do
  .ok (s.fillKey e.key (← decodeBag catalog s s.zeros e.properties))

end KindQuery
