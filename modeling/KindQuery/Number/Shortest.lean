import KindQuery.Number.Double
/-!
# The shortest decimal of a double

The decimal with the fewest digits among those that read back as a given
number; of several, the nearest. The reals that read back as
`m * 2 ^ q` form an interval around it, which reaches halfway to the
neighbouring numbers and contains its ends exactly when `m` is even. On
the grid of decimals with `n` digits only the two neighbours of the number
have to be tried, because the interval is not broken.
-/

namespace KindQuery

/-- A positive fraction. -/
structure Ratio where
  num : Nat
  den : Nat

/-- The reals around a number that read back as it. `low` and `high` are
the ends, which belong to it when `closed` holds. -/
structure ReadBack where
  value : Ratio
  low : Ratio
  high : Ratio
  closed : Bool

namespace Ratio

/-- `n * 2 ^ q` as a fraction. -/
def ofScaled (n : Nat) (q : Int) : Ratio :=
  if 0 ≤ q then ⟨n <<< q.toNat, 1⟩ else ⟨n, 1 <<< (-q).toNat⟩

/-- The decimal `d * 10 ^ g` lies below the fraction. -/
def above (r : Ratio) (d : Nat) (g : Int) : Bool :=
  if 0 ≤ g then d * Nat.pow 10 g.toNat * r.den < r.num
  else d * r.den < r.num * Nat.pow 10 (-g).toNat

/-- The decimal `d * 10 ^ g` lies above the fraction. -/
def below (r : Ratio) (d : Nat) (g : Int) : Bool :=
  if 0 ≤ g then r.num < d * Nat.pow 10 g.toNat * r.den
  else r.num * Nat.pow 10 (-g).toNat < d * r.den

/-- The multiple of `10 ^ g` at or below the fraction, divided by it. -/
def floorOn (r : Ratio) (g : Int) : Nat :=
  if 0 ≤ g then r.num / (r.den * Nat.pow 10 g.toNat)
  else r.num * Nat.pow 10 (-g).toNat / r.den

/-- How far the decimal `d * 10 ^ g` is from the fraction, multiplied by a
number that does not depend on `d`. -/
def distance (r : Ratio) (d : Nat) (g : Int) : Nat :=
  let x := if 0 ≤ g then d * Nat.pow 10 g.toNat * r.den else d * r.den
  let y := if 0 ≤ g then r.num else r.num * Nat.pow 10 (-g).toNat
  (x - y) + (y - x)

/-- The least `j ≤ fuel` for which `num * 10 ^ j` reaches `den`. -/
def leadingZeros (den : Nat) : (fuel num : Nat) → Nat
  | 0, _ => 0
  | fuel + 1, num => if den ≤ num then 0 else leadingZeros den fuel (num * 10) + 1

/-- The power of ten that the first digit of the fraction stands for. -/
def leadingPower (r : Ratio) : Int :=
  if r.den ≤ r.num then ((Nat.toDigits 10 (r.num / r.den)).length : Int) - 1
  else -(leadingZeros r.den 400 r.num : Nat)

end Ratio

namespace ReadBack

/-- The interval of a finite double other than zero. -/
def ofDouble (x : Double) : ReadBack :=
  let m := 4 * x.significand
  let q := x.exponent - 2
  ⟨.ofScaled m q, .ofScaled (if x.isBinadeStart then m - 1 else m - 2) q, .ofScaled (m + 2) q,
    x.significand % 2 == 0⟩

/-- Does the decimal `d * 10 ^ g` read back as the number? -/
def contains (b : ReadBack) (d : Nat) (g : Int) : Bool :=
  if b.closed then !b.low.above d g && !b.high.below d g
  else b.low.below d g && b.high.above d g

/-- The nearest decimal on the grid `10 ^ g` that reads back; of two that
are equally near, the greater. -/
def nearestOn? (b : ReadBack) (g : Int) : Option Nat :=
  let d := b.value.floorOn g
  match b.contains d g, b.contains (d + 1) g with
  | true, true =>
    if b.value.distance d g < b.value.distance (d + 1) g then some d else some (d + 1)
  | true, false => some d
  | false, true => some (d + 1)
  | false, false => none

/-- The first grid, from `g` downwards, that holds a decimal which reads
back. -/
def search (b : ReadBack) : (fuel : Nat) → (g : Int) → Nat × Int
  | 0, g => (b.value.floorOn g, g)
  | fuel + 1, g =>
    match b.nearestOn? g with
    | some d => (d, g)
    | none => search b fuel (g - 1)

end ReadBack

/-- The digits of the shortest decimal of a finite double other than zero,
and the power of ten that the last of them stands for. Seventeen digits
always suffice. -/
def shortestDecimal (x : Double) : Nat × Int :=
  let b := ReadBack.ofDouble x
  b.search 17 b.value.leadingPower

/-! ## Layout -/

/-- What a layout of doubles decides. -/
structure DoubleLayout where
  /-- An integer is written with `.0`. -/
  point : Bool
  /-- The powers of ten of the first digit that are written positionally:
  from the first bound up to and without the second. All of them, if
  there are no bounds. -/
  positional : Option (Int × Int)

/-- How a double stands in the outline of a value. -/
def DoubleLayout.outline : DoubleLayout := ⟨true, some (-4, 16)⟩

/-- How a double stands in display text: never with an exponent. -/
def DoubleLayout.display : DoubleLayout := ⟨false, none⟩

/-- Decimal digits and the power of ten of the last one, positionally. -/
def positionalText (point : Bool) (digits : List Char) (g : Int) : List Char :=
  if 0 ≤ g then
    digits ++ List.replicate g.toNat '0' ++ if point then ['.', '0'] else []
  else
    let places := (-g).toNat
    let padded := List.replicate (places + 1 - digits.length) '0' ++ digits
    padded.take (padded.length - places) ++ '.' :: padded.drop (padded.length - places)

/-- Decimal digits and the power of ten of the first one, with an
exponent. -/
def scientificText (digits : List Char) (k : Int) : List Char :=
  match digits with
  | [] => []
  | [d] => d :: 'e' :: (toString k).toList
  | d :: rest => d :: '.' :: rest ++ 'e' :: (toString k).toList

/-- The digits without the zeros at their end, and the power of ten of the
last one that is left. -/
def dropZeros (digits : List Char) (g : Int) : List Char × Int :=
  let kept := (digits.reverse.dropWhile (· = '0')).reverse
  (kept, g + (digits.length - kept.length : Nat))

/-- A double as text. -/
def Double.text (layout : DoubleLayout) (x : Double) : String :=
  if x.isNaN then "NaN"
  else
    let sign := if x.isNegative then ['-'] else []
    let body :=
      if x.isInfinite then ['i', 'n', 'f']
      else if x.isZero then if layout.point then ['0', '.', '0'] else ['0']
      else
        let (d, g) := shortestDecimal x
        let (digits, g) := dropZeros (Nat.toDigits 10 d) g
        let k := g + (digits.length : Int) - 1
        match layout.positional with
        | none => positionalText layout.point digits g
        | some (low, high) =>
          if low ≤ k && k < high then positionalText layout.point digits g
          else scientificText digits k
    String.ofList (sign ++ body)

end KindQuery
