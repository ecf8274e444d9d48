import KindQuery.Codec.Flatten
import Mathlib.Data.List.Nodup
/-!
# Typed records

Which values belong under a type, which schemas keep their fields apart,
and what becomes of a record that is stored and loaded: nulls become the
zeros of their types, what is never stored is zero, and a blank key is
the empty text.
-/

namespace KindQuery

/-! ## Types -/

/-- **The values of a type**, at every depth. Which types may hold null is
left open. -/
inductive Value.Conforms (catalog : Catalog) (nullable : FieldType → Prop) :
    FieldType → Value → Prop
  | null {type : FieldType} : nullable type → Conforms catalog nullable type .null
  | bool {b : Bool} : Conforms catalog nullable .bool (.bool b)
  | int16 {n : Int16} : Conforms catalog nullable .int16 (.int16 n)
  | int32 {n : Int32} : Conforms catalog nullable .int32 (.int32 n)
  | int64 {n : Int64} : Conforms catalog nullable .int64 (.int64 n)
  | double {x : Double} : Conforms catalog nullable .double (.double x)
  | decimal {d : Decimal} : Conforms catalog nullable .decimal (.decimal d)
  | text {s : String} : Conforms catalog nullable .text (.text s)
  | instant {t : Instant} : Conforms catalog nullable .instant (.instant t)
  | bytes {bytes : List UInt8} : Conforms catalog nullable .bytes (.bytes bytes)
  | variant {variants : List Variant} {v : Variant} :
      v ∈ variants → Conforms catalog nullable (.enum variants) (.variant v)
  | list {item : FieldType} {items : List Value} :
      (∀ v ∈ items, Conforms catalog nullable item v) →
      Conforms catalog nullable (.list item) (.list items)
  /-- The entries of a map have distinct names. -/
  | map {item : FieldType} {entries : List (String × Value)} :
      (entries.map Prod.fst).Nodup → (∀ e ∈ entries, Conforms catalog nullable item e.2) →
      Conforms catalog nullable (.map item) (.map entries)
  /-- A record has one value for each field. -/
  | record {ref : Nat} {fields : List Value} :
      fields.length = (catalog.schema ref).fields.length →
      (∀ p ∈ (catalog.schema ref).fields.zip fields, Conforms catalog nullable p.1.type p.2) →
      Conforms catalog nullable (.record ref) (.record fields)

/-- The records of a schema. -/
structure Record.Conforms (catalog : Catalog) (nullable : FieldType → Prop) (s : Schema)
    (r : Record) : Prop where
  length : r.length = s.fields.length
  values : ∀ p ∈ s.fields.zip r, p.2.Conforms catalog nullable p.1.type

/-! ## Schemas -/

namespace FieldType

/-- The numbers of each enumeration in the type are distinct. -/
def EnumsDistinct : FieldType → Prop
  | .enum variants => (variants.map Variant.number).Nodup
  | .list item | .map item => item.EnumsDistinct
  | _ => True

/-- The nested records in the type. -/
def refs : FieldType → List Nat
  | .record ref => [ref]
  | .list item | .map item => item.refs
  | _ => []

end FieldType

/-- A name that can be found again in the names of its entries: it is not
blank, and the first divider after it is the one that ends it. -/
structure IsMapName (name : String) : Prop where
  not_blank : isBlank name = false
  split : splitFirst? flattenDivider.toList (flattenStart ++ name ++ flattenDivider).toList =
    some ((flattenStart ++ name).toList, [])

/-- **A schema that keeps its fields apart.** -/
structure Schema.Sound (s : Schema) : Prop where
  names : (s.fields.map Field.name).Nodup
  enums : ∀ f ∈ s.fields, f.type.EnumsDistinct
  maps : ∀ f ∈ s.fields, ∀ item, f.type = .map item → IsMapName f.name

namespace Catalog

variable {catalog : Catalog} {s : Schema} {f : Field} {type : FieldType}

/-- The schemas at the nesting levels of a schema, its own included. -/
inductive Nested (catalog : Catalog) (s : Schema) : Schema → Prop
  | self : Nested catalog s s
  | field {s' : Schema} {f : Field} {ref : Nat} : Nested catalog s s' → f ∈ s'.fields →
      ref ∈ f.type.refs → Nested catalog s (catalog.schema ref)

/-- The schemas at every nesting level keep their fields apart. -/
def Sound (catalog : Catalog) (s : Schema) : Prop := ∀ s', catalog.Nested s s' → s'.Sound

/-- The same of a type. -/
structure SoundType (catalog : Catalog) (type : FieldType) : Prop where
  enums : type.EnumsDistinct
  refs : ∀ ref ∈ type.refs, catalog.Sound (catalog.schema ref)

theorem Nested.trans {s' s'' : Schema} (h : catalog.Nested s s') (h' : catalog.Nested s' s'') :
    catalog.Nested s s'' := by
  induction h' with
  | self => exact h
  | field _ hf href ih => exact .field ih hf href

theorem Sound.soundType (h : catalog.Sound s) (hf : f ∈ s.fields) : catalog.SoundType f.type where
  enums := (h s .self).enums f hf
  refs _ href s' hs' := h s' ((Nested.field .self hf href).trans hs')

theorem SoundType.list (h : catalog.SoundType (.list type)) : catalog.SoundType type :=
  ⟨h.enums, h.refs⟩

theorem SoundType.map (h : catalog.SoundType (.map type)) : catalog.SoundType type :=
  ⟨h.enums, h.refs⟩

theorem SoundType.record {ref : Nat} (h : catalog.SoundType (.record ref)) :
    catalog.Sound (catalog.schema ref) :=
  h.refs ref List.mem_cons_self

end Catalog

/-! ## Loaded records -/

/-- The fields of a schema, each with whether it is stored as a property.
The key is not, nor is what is never stored. -/
def Schema.marked (s : Schema) (keyIndex : Option Nat) : List (Field × Bool) :=
  s.fields.zipIdx.map fun (f, i) => (f, f.isPersisted && some i != keyIndex)

theorem Schema.map_fst_marked (s : Schema) (keyIndex : Option Nat) :
    (s.marked keyIndex).map Prod.fst = s.fields := by
  simp [marked, Function.comp_def]

/-- The key is not among the stored fields. -/
theorem Schema.getElem?_marked_keyIndex {s : Schema} {i : Nat} {f : Field}
    (h : s.keyField? = some (i, f)) : (s.marked s.keyIndex?)[i]? = some (f, false) := by
  simp [marked, Schema.getElem?_of_keyField? h, Schema.keyIndex?_of_keyField? h]

mutual

/-- A value under its type after it has been stored and loaded, when
decimals change as `onDecimal` says. -/
def Value.normalizeBy (catalog : Catalog) (onDecimal : Decimal → Decimal) :
    Value → FieldType → Value
  | .null, type => type.zero
  | .decimal d, _ => .decimal (onDecimal d)
  | .list items, .list item => .list (normalizeEachBy catalog onDecimal items item)
  | .map entries, .map item => .map (normalizeNamedBy catalog onDecimal entries item)
  | .record fields, .record ref =>
    .record (normalizeFieldsBy catalog onDecimal fields ((catalog.schema ref).marked none))
  | v, _ => v

/-- The items of a list. -/
def normalizeEachBy (catalog : Catalog) (onDecimal : Decimal → Decimal) :
    List Value → FieldType → List Value
  | [], _ => []
  | v :: vs, item => v.normalizeBy catalog onDecimal item :: normalizeEachBy catalog onDecimal vs item

/-- The entries of a map. -/
def normalizeNamedBy (catalog : Catalog) (onDecimal : Decimal → Decimal) :
    List (String × Value) → FieldType → List (String × Value)
  | [], _ => []
  | (name, v) :: rest, item =>
    (name, v.normalizeBy catalog onDecimal item) :: normalizeNamedBy catalog onDecimal rest item

/-- The values of fields. A field that is not stored has its zero. -/
def normalizeFieldsBy (catalog : Catalog) (onDecimal : Decimal → Decimal) :
    List Value → List (Field × Bool) → List Value
  | v :: vs, (f, stored) :: fs =>
    (if stored then v.normalizeBy catalog onDecimal f.type else f.type.zero) ::
      normalizeFieldsBy catalog onDecimal vs fs
  | _, _ => []

end

/-- A field that is not stored is zero. -/
theorem getElem?_normalizeFieldsBy {catalog : Catalog} {onDecimal : Decimal → Decimal} {vs : List Value}
    {marks : List (Field × Bool)} {i : Nat} {f : Field} (hl : vs.length = marks.length)
    (h : marks[i]? = some (f, false)) :
    (normalizeFieldsBy catalog onDecimal vs marks)[i]? = some f.type.zero := by
  induction vs generalizing marks i with
  | nil =>
    rw [List.eq_nil_of_length_eq_zero hl.symm] at h
    cases h
  | cons v vs ih =>
    match marks, i with
    | [], _ => cases hl
    | m :: marks, 0 =>
      cases h
      rfl
    | m :: marks, i + 1 => exact ih (Nat.succ.inj hl) h

/-- What is loaded into the key field. -/
def keyText : Option Value → Value
  | some (.text name) => .text (if isBlank name then "" else name)
  | _ => .text ""

/-- A record after it has been stored and loaded. -/
def Schema.normalizeBy (catalog : Catalog) (onDecimal : Decimal → Decimal) (s : Schema)
    (r : Record) : Record :=
  let fields := normalizeFieldsBy catalog onDecimal r (s.marked s.keyIndex?)
  match s.keyIndex? with
  | some i => fields.set i (keyText r[i]?)
  | none => fields

/-- **The normal form of a record**: null is the zero of its type at every
depth, a field that is never stored is zero, and a blank key is the empty
text. Nested records have no key. -/
def Schema.normalize (catalog : Catalog) (s : Schema) (r : Record) : Record :=
  s.normalizeBy catalog id r

end KindQuery
