import KindQuery.Entries
import KindQuery.Key
import KindQuery.Number.Decimal
import KindQuery.Text.Blank
import KindQuery.Time.Instant
/-!
# Values

The values that fields hold and that queries compare with. Lists, maps
and records nest. The order of a map's entries is kept, but two maps that
differ only in it are equal; so are decimals that are the same number.
-/

namespace KindQuery

/-- One variant of an enumeration: its name and the number it is stored
as. -/
structure Variant where
  name : String
  number : Int64
deriving DecidableEq, Repr

/-- A value of any type. -/
inductive Value where
  | null
  | bool (b : Bool)
  | int16 (n : Int16)
  | int32 (n : Int32)
  | int64 (n : Int64)
  | double (x : Double)
  | decimal (d : Decimal)
  | text (s : String)
  | instant (t : Instant)
  | bytes (bytes : List UInt8)
  | variant (v : Variant)
  | key (k : Key)
  | list (items : List Value)
  /-- Entries under distinct names, in the order of their insertion. -/
  | map (entries : List (String × Value))
  /-- The fields of a record, in the order of its schema. -/
  | record (fields : List Value)
deriving Inhabited

namespace Value

/-- Is the value null? -/
def isNull : Value → Bool
  | null => true
  | _ => false

/-- Is the value a boolean? -/
def isBool : Value → Bool
  | bool _ => true
  | _ => false

/-- The text that the value is. -/
def asText? : Value → Option String
  | text s => some s
  | _ => none

/-- The boolean that the value is. -/
def asBool? : Value → Option Bool
  | bool b => some b
  | _ => none

/-- The integer that the value is, whatever its width. -/
def asInt? : Value → Option Int
  | int16 n => some n.toInt
  | int32 n => some n.toInt
  | int64 n => some n.toInt
  | _ => none

/-- Null, a blank text and an empty list or map are blank; a record never
is. -/
def isBlank : Value → Bool
  | null => true
  | text s => KindQuery.isBlank s
  | list items => items.isEmpty
  | map entries => entries.isEmpty
  | _ => false

/-! ## Equality -/

mutual

/-- Equality of values, when `eq` says which doubles are equal. Decimals are
compared as numbers, and maps without regard to the order of their
entries. -/
def sameBy (eq : Double → Double → Bool) : Value → Value → Bool
  | null, null => true
  | bool a, bool b => a == b
  | int16 a, int16 b => a == b
  | int32 a, int32 b => a == b
  | int64 a, int64 b => a == b
  | double a, double b => eq a b
  | decimal a, decimal b => a.same b
  | text a, text b => a == b
  | instant a, instant b => a == b
  | bytes a, bytes b => a == b
  | variant a, variant b => a == b
  | key a, key b => a == b
  | list as, list bs => sameEachBy eq as bs
  | map as, map bs => as.length == bs.length && sameNamedBy eq bs as
  | record as, record bs => sameEachBy eq as bs
  | _, _ => false

/-- Lists of values that are equal place by place. -/
def sameEachBy (eq : Double → Double → Bool) : List Value → List Value → Bool
  | [], [] => true
  | a :: as, b :: bs => a.sameBy eq b && sameEachBy eq as bs
  | _, _ => false

/-- Every entry is found, with an equal value, among `others`. -/
def sameNamedBy (eq : Double → Double → Bool) (others : Entries Value) :
    List (String × Value) → Bool
  | [] => true
  | (name, a) :: as =>
    (match others.find? name with
      | some b => a.sameBy eq b
      | none => false) && sameNamedBy eq others as

end

/-- Equality of values. Doubles are compared as numbers, so that `NaN` is
not equal to itself. -/
def same (v w : Value) : Bool := v.sameBy Double.same w

end Value

/-- The values of a record's fields, in the order of its schema. -/
abbrev Record := List Value

namespace Record

/-- The value at an index. -/
def get? (r : Record) (i : Nat) : Option Value := r[i]?

/-- Takes the value at an index and leaves null in its place. Beyond the
end, null is taken and nothing changes. -/
def take (r : Record) (i : Nat) : Value × Record := ((r[i]?).getD .null, r.set i .null)

/-- Puts a value at an index; `none` beyond the end. -/
def put? (r : Record) (i : Nat) (v : Value) : Option Record :=
  if i < r.length then some (r.set i v) else none

/-- Equality of records, place by place. -/
def same (r s : Record) : Bool := Value.sameEachBy Double.same r s

/-- Equality of records in which doubles are equal when their bits are. -/
def sameBits (r s : Record) : Bool := Value.sameEachBy (fun x y => x.bits == y.bits) r s

end Record

end KindQuery
