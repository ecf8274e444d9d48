import KindQuery.Error
import KindQuery.Value.Text
/-!
# Entities

What the store keeps and sends: an entity has a key and a bag of named
properties. A property holds a *wire value* and tells whether the store
indexes it.
-/

namespace KindQuery

mutual

/-- A value as it travels to and from the store. -/
inductive Wire where
  | null
  | boolean (b : Bool)
  | integer (n : Int64)
  | double (x : Double)
  | text (s : String)
  | timestamp (t : Instant)
  /-- Bytes as base64 text. -/
  | blob (base64 : String)
  | key (k : Key)
  /-- The properties of a nested record. -/
  | entity (bag : List (String × Property))
  | list (items : List Property)

/-- A wire value and whether the store indexes it. -/
structure Property where
  value : Wire
  indexed : Bool

end

instance : Inhabited Wire := ⟨.null⟩

/-- The properties of an entity, under distinct names. -/
abbrev PropertyBag := Entries Property

/-- An entity as the store sends and receives it. -/
structure Entity where
  key : Option Key
  properties : PropertyBag

instance : Inhabited Entity := ⟨⟨none, []⟩⟩

/-- A query as it is sent to the store. Values are never part of the text;
they travel as named arguments. -/
structure BoundQuery where
  text : String
  arguments : List (String × Wire)
  allowLiteral : Bool

namespace Wire

/-- The name of a kind of wire value. -/
def kindName : Wire → String
  | null => "null"
  | boolean _ => "boolean"
  | integer _ => "integer"
  | double _ => "double"
  | text _ => "string"
  | timestamp _ => "timestamp"
  | blob _ => "blob"
  | key _ => "key"
  | entity _ => "entity"
  | list _ => "list"

/-! ## Outlines -/

/-- The outline of a property, given that of its value. -/
def propertyOutline (value : Outline) (indexed : Bool) : Outline :=
  .fields "Property" [("value", value), ("indexed", .ofBool indexed)]

mutual

/-- How a wire value is built. -/
def outline : Wire → Outline
  | null => .leaf "Null"
  | boolean b => .call "Boolean" [.ofBool b]
  | integer n => .call "Integer" [.ofInt n.toInt]
  | double x => .call "Double" [.leaf (x.text .outline)]
  | text s => .call "String" [.ofText s]
  | timestamp t => .call "Timestamp" [.leaf t.fullText]
  | blob s => .call "Blob" [.ofText s]
  | key k => .call "Key" [k.outline]
  | entity bag => .call "Entity" [.entries (outlineBag bag)]
  | list items => .call "List" [.items (outlineItems items)]

/-- The outlines of the properties in a bag. -/
def outlineBag : List (String × Property) → List (String × Outline)
  | [] => []
  | (name, ⟨v, indexed⟩) :: rest => (name, propertyOutline v.outline indexed) :: outlineBag rest

/-- The outlines of the properties in a list. -/
def outlineItems : List Property → List Outline
  | [] => []
  | ⟨v, indexed⟩ :: rest => propertyOutline v.outline indexed :: outlineItems rest

end

/-- A wire value as messages show it. -/
def described (v : Wire) : String := v.outline.line

/-! ## Equality -/

mutual

/-- Equality of wire values: doubles are compared as numbers, and bags
without regard to order. -/
def same : Wire → Wire → Bool
  | null, null => true
  | boolean a, boolean b => a == b
  | integer a, integer b => a == b
  | double a, double b => a.same b
  | text a, text b => a == b
  | timestamp a, timestamp b => a == b
  | blob a, blob b => a == b
  | key a, key b => a == b
  | entity as, entity bs => as.length == bs.length && sameBag bs as
  | list as, list bs => sameItems as bs
  | _, _ => false

/-- Every property is found, with an equal value, among `others`. -/
def sameBag (others : PropertyBag) : List (String × Property) → Bool
  | [] => true
  | (name, ⟨v, indexed⟩) :: rest =>
    (match others.find? name with
      | some p => v.same p.value && indexed == p.indexed
      | none => false) && sameBag others rest

/-- Lists of properties that are equal place by place. -/
def sameItems : List Property → List Property → Bool
  | [], [] => true
  | ⟨a, i⟩ :: as, b :: bs => a.same b.value && i == b.indexed && sameItems as bs
  | _, _ => false

end

end Wire

namespace Entity

/-- The property of a name. -/
def get? (e : Entity) (name : String) : Option Property := e.properties.find? name

/-- An entity with one more property, or with another one in place of what
was under its name. -/
def put (e : Entity) (name : String) (p : Property) : Entity :=
  { e with properties := e.properties.insert name p }

/-- Equality of entities, without regard to the order of properties. -/
def same (a b : Entity) : Bool :=
  a.key == b.key && (Wire.entity a.properties).same (.entity b.properties)

end Entity

namespace BoundQuery

/-- A query without arguments. -/
def ofText (text : String) : BoundQuery := ⟨text, [], false⟩

/-- The first argument of a name. -/
def argument? (q : BoundQuery) (name : String) : Option Wire :=
  (q.arguments.find? fun a => a.1 == name).map Prod.snd

end BoundQuery

end KindQuery
