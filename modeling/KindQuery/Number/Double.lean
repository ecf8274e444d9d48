/-!
# Double-precision numbers

A binary64 number is kept as its 64 bits, so that a value can be stored
and compared without doing arithmetic on it. What its bits mean is read
off in natural numbers: a finite number is `significand * 2 ^ exponent`
under its sign.
-/

namespace KindQuery

/-- A double-precision number. -/
structure Double where
  bits : UInt64
deriving DecidableEq, Repr, Inhabited

namespace Double

/-- The number zero, with a positive sign. -/
def zero : Double := ⟨0⟩

/-- Is the sign bit set? -/
def isNegative (x : Double) : Bool := x.bits.toNat >>> 63 == 1

/-- The eleven bits of the exponent as they are stored. -/
def exponentField (x : Double) : Nat := x.bits.toNat >>> 52 % 2048

/-- The stored bits of the significand. -/
def fractionField (x : Double) : Nat := x.bits.toNat % 1 <<< 52

/-- Not a number. -/
def isNaN (x : Double) : Bool := x.exponentField == 2047 && x.fractionField != 0

/-- Positive or negative infinity. -/
def isInfinite (x : Double) : Bool := x.exponentField == 2047 && x.fractionField == 0

/-- Positive or negative zero. -/
def isZero (x : Double) : Bool := x.exponentField == 0 && x.fractionField == 0

/-- The significand of a finite number as an integer. A normal number has
one bit that is not stored. -/
def significand (x : Double) : Nat :=
  if x.exponentField = 0 then x.fractionField else 1 <<< 52 + x.fractionField

/-- The power of two that the significand is multiplied by. -/
def exponent (x : Double) : Int := (max x.exponentField 1 : Nat) - 1075

/-- The number below is nearer than the number above: it lies in the next
lower binade. -/
def isBinadeStart (x : Double) : Bool := x.fractionField == 0 && 1 < x.exponentField

/-- Equality of numbers: the two zeros are equal and `NaN` is not equal to
itself. -/
def same (x y : Double) : Bool :=
  !x.isNaN && !y.isNaN && (x.bits == y.bits || x.isZero && y.isZero)

/-- A quotient rounded to the nearest integer, a half to the even one. -/
def roundHalfEven (num den : Nat) : Nat :=
  let q := num / den
  let r := num % den
  if 2 * r < den then q else if den < 2 * r then q + 1 else if q % 2 = 0 then q else q + 1

/-- The bits of the double nearest to a natural number below `2 ^ 64`. A
significand that rounds up to `2 ^ 53` carries into the exponent. -/
def bitsOfNat (n : Nat) : Nat :=
  if n = 0 then 0 else
    let top := n.log2
    let significand := if top ≤ 52 then n <<< (52 - top) else roundHalfEven n (1 <<< (top - 52))
    (top + 1022) <<< 52 + significand

/-- The double nearest to an integer of 64 bits. -/
def ofInt (n : Int) : Double :=
  ⟨UInt64.ofNat ((if n < 0 then 1 <<< 63 else 0) + bitsOfNat n.natAbs)⟩

example : ofInt 1 = ⟨0x3ff0000000000000⟩ := by decide
example : ofInt (-9007199254740993) = ⟨0xc340000000000000⟩ := by decide
example : same ⟨0⟩ ⟨0x8000000000000000⟩ = true := by decide

theorem same_comm (x y : Double) : x.same y = y.same x := by
  unfold same
  rw [Bool.and_comm (!x.isNaN), Bool.and_comm x.isZero, BEq.comm (a := x.bits)]

end Double

end KindQuery
