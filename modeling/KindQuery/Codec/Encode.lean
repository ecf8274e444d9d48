import KindQuery.Codec.Flatten
import KindQuery.Entity
/-!
# Encoding

A record becomes an entity: its key field becomes the key, and every
other field that is stored becomes a property. Null is not stored, nor is
an empty list. A map is flattened into one property per entry. A nested
record becomes a bag of properties of its own.
-/

namespace KindQuery

mutual

/-- A value as it travels. An enumeration travels as its number and a
decimal as text; maps and records have no such form. -/
def Value.toWire : Value → Except Error Wire
  | .null => .ok .null
  | .bool b => .ok (.boolean b)
  | .int16 n => .ok (.integer n.toInt64)
  | .int32 n => .ok (.integer n.toInt64)
  | .int64 n => .ok (.integer n)
  | .double x => .ok (.double x)
  | .decimal d => .ok (.text d.text)
  | .text s => .ok (.text s)
  | .instant t => .ok (.timestamp t)
  | .bytes bs => .ok (.blob (Base64.encode bs))
  | .variant v => .ok (.integer v.number)
  | .key k => .ok (.key k)
  | .list items => do .ok (.list (← Value.toWireEach items))
  | .map entries => Fault.raise (.conversion (Value.map entries).described "property value")
  | .record fields => Fault.raise (.conversion (Value.record fields).described "property value")

/-- The items of a list as they travel. All of them are indexed. -/
def Value.toWireEach : List Value → Except Error (List Property)
  | [] => .ok []
  | v :: vs => do
    let p ← v.toWire
    let ps ← Value.toWireEach vs
    .ok (⟨p, true⟩ :: ps)

end

/-- The fields of a schema in order, without those that are not stored as
properties: those that are never stored, and the one at the place of the
key. -/
def Schema.storedFields (s : Schema) (keyIndex : Option Nat) : List (Option Field) :=
  s.fields.zipIdx.map fun (f, i) =>
    if f.isPersisted && some i != keyIndex then some f else none

/-- A value that is not taken apart as a property. Maps and records belong
under types of their own. -/
def encodeWhole (type : FieldType) (indexed : Bool) (v : Value) : Except Error Property :=
  match type with
  | .map _ | .record _ => Fault.raise (.invalidSchema (.misfit v.described type.name))
  | _ => do .ok ⟨← v.toWire, indexed⟩

mutual

/-- A value inside a list or a map as a property. -/
def encodeElement (catalog : Catalog) (type : FieldType) (indexed : Bool) :
    Value → Except Error Property
  | .record fields =>
    match type with
    | .record ref => do
      (catalog.schema ref).checkFieldNames
      let pairs ← encodeFields catalog ((catalog.schema ref).storedFields none) fields
      .ok ⟨.entity (Entries.ofPairs pairs), indexed⟩
    | type => encodeWhole type indexed (.record fields)
  | v => encodeWhole type indexed v

/-- The items of a list as properties. -/
def encodeItems (catalog : Catalog) (item : FieldType) (indexed : Bool) :
    List Value → Except Error (List Property)
  | [] => .ok []
  | v :: vs => do
    let p ← encodeElement catalog item indexed v
    let ps ← encodeItems catalog item indexed vs
    .ok (p :: ps)

/-- The entries of the map in a field as properties. No entry may have a
blank name. -/
def encodeEntries (catalog : Catalog) (field : String) (item : FieldType) (indexed : Bool) :
    List (String × Value) → Except Error (List (String × Property))
  | [] => .ok []
  | (entry, v) :: rest => do
    if isBlank entry then Fault.raise (.malformedFlattenedKey (flattenedName field entry))
    let p ← encodeElement catalog item indexed v
    let ps ← encodeEntries catalog field item indexed rest
    .ok ((flattenedName field entry, p) :: ps)

/-- The properties that a field is stored as. -/
def encodeField (catalog : Catalog) (f : Field) : Value → Except Error (List (String × Property))
  | .null => .ok []
  | .list items =>
    match f.type with
    | .list item =>
      if items.isEmpty then .ok []
      else do .ok [(f.name, ⟨.list (← encodeItems catalog item f.isIndexed items), f.isIndexed⟩)]
    | type => do .ok [(f.name, ← encodeWhole type f.isIndexed (.list items))]
  | .map entries =>
    match f.type with
    | .map item => encodeEntries catalog f.name item f.isIndexed entries
    | type => do .ok [(f.name, ← encodeWhole type f.isIndexed (.map entries))]
  | .record fields =>
    match f.type with
    | .record ref => do
      (catalog.schema ref).checkFieldNames
      let pairs ← encodeFields catalog ((catalog.schema ref).storedFields none) fields
      .ok [(f.name, ⟨.entity (Entries.ofPairs pairs), f.isIndexed⟩)]
    | type => do .ok [(f.name, ← encodeWhole type f.isIndexed (.record fields))]
  | v => do .ok [(f.name, ← encodeWhole f.type f.isIndexed v)]

/-- The properties that the fields of a record are stored as, in order. A
field without a value is not stored. -/
def encodeFields (catalog : Catalog) :
    List (Option Field) → List Value → Except Error (List (String × Property))
  | _, [] => .ok []
  | [], _ :: _ => .ok []
  | none :: fs, _ :: vs => encodeFields catalog fs vs
  | some f :: fs, v :: vs => do
    let here ← encodeField catalog f v
    let rest ← encodeFields catalog fs vs
    .ok (here ++ rest)

end

/-- The key of a record, if its key field holds a text that is not
blank. -/
def Schema.recordKey? (s : Schema) (r : Record) : Option Key :=
  match s.keyIndex?.bind r.get? with
  | some (.text name) => if isBlank name then none else some ⟨s.name, name⟩
  | _ => none

/-- The entity of a record. -/
def Schema.encode (catalog : Catalog) (s : Schema) (r : Record) : Except Error Entity := do
  s.checkFieldNames
  let pairs ← encodeFields catalog (s.storedFields s.keyIndex?) r
  .ok ⟨s.recordKey? r, Entries.ofPairs pairs⟩

end KindQuery
