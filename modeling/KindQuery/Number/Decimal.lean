import KindQuery.Number.Double
/-!
# Exact decimals

A decimal is a sign, a mantissa of at most 96 bits and a scale of at most
28 places. The scale is part of the value: `1.50` and `1.5` are different
decimals, although they are the same number.

Reading a text rounds what the scale or the mantissa cannot hold; a
number whose integer part does not fit is refused. A double without places
becomes the same integer, and any other the decimal of its leading digits,
as many as a double is good for.
-/

namespace KindQuery

/-- A decimal number: `mantissa / 10 ^ scale` under its sign. -/
structure Decimal where
  negative : Bool
  mantissa : Nat
  scale : Nat
  mantissa_lt : mantissa < 1 <<< 96
  scale_le : scale ≤ 28
deriving DecidableEq, Repr

namespace Decimal

/-- The decimal of the given parts, if they are within bounds. -/
def ofParts? (negative : Bool) (mantissa scale : Nat) : Option Decimal :=
  if h : mantissa < 1 <<< 96 ∧ scale ≤ 28 then some ⟨negative, mantissa, scale, h.1, h.2⟩ else none

/-- Zero, without places and without a sign. -/
def zero : Decimal := ⟨false, 0, 0, by decide, by decide⟩

instance : Inhabited Decimal := ⟨zero⟩

/-- An integer of 64 bits as a decimal. -/
def ofInt64 (n : Int64) : Decimal :=
  ⟨n.toInt < 0, n.toInt.natAbs, 0,
    by have := n.toInt_lt; have := n.le_toInt; omega, by decide⟩

/-- Equality of numbers: places do not matter, nor does the sign of zero. -/
def same (x y : Decimal) : Bool :=
  x.mantissa * Nat.pow 10 y.scale == y.mantissa * Nat.pow 10 x.scale &&
    (x.negative == y.negative || x.mantissa == 0)

/-! ## Text -/

/-- The digits of a decimal with the point in its place. A digit always
stands before the point. -/
def chars (d : Decimal) : List Char :=
  let digits := Nat.toDigits 10 d.mantissa
  let padded := List.replicate (d.scale + 1 - digits.length) '0' ++ digits
  let whole := padded.take (padded.length - d.scale)
  let places := padded.drop (padded.length - d.scale)
  (if d.negative then ['-'] else []) ++ whole ++ if places.isEmpty then [] else '.' :: places

/-- A decimal as text, with all its places. -/
def text (d : Decimal) : String := String.ofList d.chars

/-! ## Reading -/

/-- The value of a decimal digit. -/
def digit? (c : Char) : Option Nat :=
  if '0' ≤ c ∧ c ≤ '9' then some (c.toNat - '0'.toNat) else none

/-- How far a number has been read: its digits as an integer, the count of
places after the point, whether the point has been seen and whether a
digit has. -/
structure Reading where
  mantissa : Nat
  places : Nat
  pointSeen : Bool
  digitSeen : Bool

/-- The number read so far; zero has no sign. -/
def Reading.finish (r : Reading) (negative : Bool) : Option Decimal :=
  if r.digitSeen then ofParts? (negative && r.mantissa != 0) r.mantissa r.places else none

/-- Does a text hold nothing but digits and separators? -/
def isDigitTail (cs : List Char) : Bool := cs.all fun c => c == '_' || (digit? c).isSome

/-- A digit that does not fit any more only decides the rounding, and the
digits after it count for nothing. A mantissa that rounds up out of range
gives up one more place. -/
def Reading.round (r : Reading) (negative : Bool) (digit : Nat) : Option Decimal :=
  let m := if 5 ≤ digit then r.mantissa + 1 else r.mantissa
  if m < 1 <<< 96 then Reading.finish { r with mantissa := m } negative
  else if r.places = 0 then none
  else Reading.finish { r with mantissa := (m + 4) / 10, places := r.places - 1 } negative

/-- Reads digits, at most one point, and separators after the first
digit. -/
def readDigits (negative : Bool) (r : Reading) : List Char → Option Decimal
  | [] => r.finish negative
  | c :: rest =>
    if c = '.' ∧ !r.pointSeen then readDigits negative { r with pointSeen := true } rest
    else if c = '_' ∧ r.digitSeen then readDigits negative r rest
    else
      match digit? c with
      | none => none
      | some d =>
        let m := r.mantissa * 10 + d
        if m < 1 <<< 96 ∧ !(r.pointSeen && 28 ≤ r.places) then
          readDigits negative ⟨m, if r.pointSeen then r.places + 1 else 0, r.pointSeen, true⟩ rest
        else if r.pointSeen && isDigitTail rest then r.round negative d
        else none

/-- Reads a number without an exponent. -/
def readPlain : List Char → Option Decimal
  | '-' :: rest => readDigits true ⟨0, 0, false, false⟩ rest
  | '+' :: rest => readDigits false ⟨0, 0, false, false⟩ rest
  | cs => readDigits false ⟨0, 0, false, false⟩ cs

/-- Reads the digits of an exponent, which may have a plus sign. -/
def readExponent (cs : List Char) : Option Nat :=
  let digits := if cs.head? = some '+' then cs.drop 1 else cs
  if digits.isEmpty then none
  else digits.foldlM (fun n c => do some (n * 10 + (← digit? c))) 0

/-- The decimal without the zeros at its end. -/
def dropZeros (negative : Bool) : (scale mantissa : Nat) → Option Decimal
  | 0, m => ofParts? negative m 0
  | s + 1, m => if m % 10 = 0 then dropZeros negative s (m / 10) else ofParts? negative m (s + 1)

/-- Division by a power of ten, a half rounded up. -/
def dropDigits (k mantissa : Nat) : Nat :=
  (2 * mantissa + Nat.pow 10 k) / (2 * Nat.pow 10 k)

/-- Moves the point to the left. Places beyond the last one are rounded
off, which leaves a zero its sign. -/
def shiftDown (d : Decimal) (n : Nat) : Option Decimal :=
  if 28 < n then none
  else ofParts? d.negative (dropDigits (d.scale + n - 28) d.mantissa) (min (d.scale + n) 28)

/-- Moves the point to the right. Where the scale runs out, the number
becomes an integer. -/
def shiftUp (d : Decimal) (n : Nat) : Option Decimal :=
  if n ≤ d.scale then ofParts? d.negative d.mantissa (d.scale - n)
  else if 28 < n then none
  else ofParts? d.negative (d.mantissa * Nat.pow 10 (n - d.scale)) 0

/-- Reads a number. An exponent follows the first `e`. -/
def parse? (text : String) : Option Decimal :=
  let cs := text.toList
  let isMark := fun c => c == 'e' || c == 'E'
  let base := cs.takeWhile (!isMark ·)
  match cs.dropWhile (!isMark ·) with
  | [] => readPlain base
  | _ :: '-' :: rest => do
    let d ← readPlain base
    let n ← readExponent rest
    d.shiftDown n
  | _ :: rest => do
    let d ← readPlain base
    let n ← readExponent rest
    d.shiftUp n

/-! ## Doubles -/

/-- Trades `k` factors of two in the denominator for factors of ten, as
many as there are places: each step multiplies by five, or halves and
gives up a place where that is exact or where the product would not
fit. -/
def raiseFives : (k : Nat) → (mantissa : Nat) → (places : Nat) → Nat × Nat
  | 0, m, s => (m, s)
  | k + 1, m, s =>
    if m % 2 = 0 then raiseFives k (m / 2) (s - 1)
    else if m * 5 < 1 <<< 96 then raiseFives k (m * 5) s
    else raiseFives k (m / 2) (s - 1)

/-- Division by ten, a half rounded up. -/
def tenth (m : Nat) : Nat := m / 10 + if 5 ≤ m % 10 then 1 else 0

/-- Drops `k` places, rounding at each of them. A mantissa that vanishes
on the way stays zero. -/
def dropPlaces : (k : Nat) → (mantissa : Nat) → Nat
  | 0, m => m
  | k + 1, m => if m < 10 then 0 else dropPlaces k (tenth m)

/-- Drops places until the mantissa has the 52 bits that a double is good
for. -/
def dropExcess : (scale mantissa : Nat) → Nat × Nat
  | 0, m => (m, 0)
  | s + 1, m => if m < 1 <<< 52 then (m, s + 1) else dropExcess s (tenth m)

/-- The decimal of a double, unless it is too large. -/
def ofDouble? (x : Double) : Option Decimal :=
  if x.isNaN || x.isInfinite then none
  else if x.isZero then ofParts? x.isNegative 0 0
  else if 0 ≤ x.exponent then ofParts? x.isNegative (x.significand <<< x.exponent.toNat) 0
  else
    let (m, places) := raiseFives x.exponent.natAbs x.significand x.exponent.natAbs
    let m := dropPlaces (places - 28) m
    let (m, s) := dropExcess (if m = 0 then 0 else min places 28) m
    dropZeros x.isNegative s m

example : (parse? "-0.050").map text = some "-0.050" := by decide
example : (parse? "1E-2").map text = some "0.01" := by decide
example : (parse? "-0.4e-28").map text = some "-0.0000000000000000000000000000" := by decide

end Decimal

end KindQuery
