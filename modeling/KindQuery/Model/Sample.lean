import KindQuery.Model
/-!
# A sample model

A model over one field of each kind: the key, every primitive type, an
enumeration, a map and a field that is not stored. Counters are kept in
the order of their names.
-/

namespace KindQuery

/-- A colour of the sample. -/
inductive Color where
  | red
  | green
  | blue
deriving DecidableEq, Repr

namespace Color

/-- The variants of a colour as they are stored. -/
def variants : List Variant := [⟨"Red", 0⟩, ⟨"Green", 1⟩, ⟨"Blue", 2⟩]

/-- The variant of a colour. -/
def variant : Color → Variant
  | red => ⟨"Red", 0⟩
  | green => ⟨"Green", 1⟩
  | blue => ⟨"Blue", 2⟩

/-- The colour of a variant. -/
def ofVariant (v : Variant) : Color :=
  if v.number = 0 then red else if v.number = 1 then green else blue

theorem ofVariant_variant (c : Color) : ofVariant c.variant = c := by cases c <;> rfl

end Color

instance : Primitive Color where
  type := .enum Color.variants
  toValue c := .variant c.variant
  load v := (v.toVariant Color.variants).map Color.ofVariant

/-- An element of the sample model. -/
structure Sample where
  id : String
  flag : Bool
  short : Int16
  int : Int32
  long : Int64
  double : Double
  decimal : Decimal
  text : String
  instant : Instant
  color : Color
  /-- Counts under distinct names, in the order of the names. -/
  counters : Entries Int64
  /-- Kept in memory only. -/
  cached : String

namespace Sample

/-- The schema of the sample. -/
def schema : Schema where
  name := "TestModel"
  fields :=
    [⟨"Id", .text, .normal⟩, ⟨"BoolValue", .bool, .normal⟩, ⟨"ShortValue", .int16, .normal⟩,
      ⟨"IntValue", .int32, .normal⟩, ⟨"LongValue", .int64, .normal⟩,
      ⟨"DoubleValue", .double, .normal⟩, ⟨"DecimalValue", .decimal, .normal⟩,
      ⟨"StringValue", .text, .normal⟩, ⟨"DateTimeValue", .instant, .normal⟩,
      ⟨"Color", .enum Color.variants, .normal⟩, ⟨"Counters", .map .int64, .normal⟩,
      ⟨"Cached", .text, .notPersisted⟩]

/-- The record of an element. -/
def toRecord (s : Sample) : Record :=
  [.text s.id, .bool s.flag, .int16 s.short, .int32 s.int, .int64 s.long, .double s.double,
    .decimal s.decimal, .text s.text, .instant s.instant, .variant s.color.variant,
    .map (s.counters.map fun (name, n) => (name, .int64 n)), .text s.cached]

/-- Puts a counter in its place among counters in order. -/
def insertCounter (name : String) (n : Int64) : Entries Int64 → Entries Int64
  | [] => [(name, n)]
  | (other, m) :: rest =>
    if name < other then (name, n) :: (other, m) :: rest
    else if name = other then (name, n) :: rest
    else (other, m) :: insertCounter name n rest

/-- The counters of a map, from its first entry to its last. -/
def loadCounters (counters : Entries Int64) :
    List (String × Value) → Except Error (Entries Int64)
  | [] => .ok counters
  | (name, v) :: rest => do loadCounters (insertCounter name (← Primitive.load v) counters) rest

/-- The element of a record. -/
def load (r : Record) : Except Error Sample := do
  let id ← Primitive.load (r.take 0).1
  let flag ← Primitive.load (r.take 1).1
  let short ← Primitive.load (r.take 2).1
  let int ← Primitive.load (r.take 3).1
  let long ← Primitive.load (r.take 4).1
  let double ← Primitive.load (r.take 5).1
  let decimal ← Primitive.load (r.take 6).1
  let text ← Primitive.load (r.take 7).1
  let instant ← Primitive.load (r.take 8).1
  let color ← Primitive.load (r.take 9).1
  let counters ← loadCounters [] (← (r.take 10).1.toMap)
  let cached ← Primitive.load (r.take 11).1
  .ok ⟨id, flag, short, int, long, double, decimal, text, instant, color, counters, cached⟩

/-- The sample as a model. -/
def model : Model Sample where
  catalog := ⟨[schema]⟩
  schema := schema
  toRecord := toRecord
  load := load

/-- Equality of elements. Doubles and decimals are compared as numbers. -/
def same (s t : Sample) : Bool := Record.same s.toRecord t.toRecord

end Sample

end KindQuery
