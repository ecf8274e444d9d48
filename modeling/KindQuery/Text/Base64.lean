/-!
# Base64

Bytes as text over the standard alphabet, padded to a multiple of four
characters. Reading is strict: the padding must be there, and the bits
that the last character leaves over must be zero, so that each byte
string has exactly one text.
-/

namespace KindQuery.Base64

/-- The character for six bits. -/
def digit (n : Nat) : Char :=
  if n < 26 then Char.ofNat (65 + n)
  else if n < 52 then Char.ofNat (71 + n)
  else if n < 62 then Char.ofNat (n - 4)
  else if n = 62 then '+' else '/'

/-- The six bits of a character of the alphabet. -/
def value? (c : Char) : Option Nat :=
  let n := c.toNat
  if 65 ≤ n && n ≤ 90 then some (n - 65)
  else if 97 ≤ n && n ≤ 122 then some (n - 71)
  else if 48 ≤ n && n ≤ 57 then some (n + 4)
  else if c = '+' then some 62
  else if c = '/' then some 63
  else none

/-- Three bytes become four characters; a rest of one or two bytes is
padded with `=`. -/
def encodeChars : List UInt8 → List Char
  | a :: b :: c :: rest =>
    let n := a.toNat * 65536 + b.toNat * 256 + c.toNat
    digit (n / 262144) :: digit (n / 4096 % 64) :: digit (n / 64 % 64) :: digit (n % 64) ::
      encodeChars rest
  | [a, b] =>
    let n := a.toNat * 1024 + b.toNat * 4
    [digit (n / 4096), digit (n / 64 % 64), digit (n % 64), '=']
  | [a] =>
    let n := a.toNat * 16
    [digit (n / 64), digit (n % 64), '=', '=']
  | [] => []

/-- The bytes that the four characters of a group hold. Only the last
group may be padded. -/
def decodeChars? : List Char → Option (List UInt8)
  | [] => some []
  | [p, q, '=', '='] => do
    let n := (← value? p) * 64 + (← value? q)
    if n % 16 = 0 then some [UInt8.ofNat (n / 16)] else none
  | [p, q, r, '='] => do
    let n := (← value? p) * 4096 + (← value? q) * 64 + (← value? r)
    if n % 4 = 0 then some [UInt8.ofNat (n / 1024), UInt8.ofNat (n / 4)] else none
  | p :: q :: r :: s :: rest => do
    let n := (← value? p) * 262144 + (← value? q) * 4096 + (← value? r) * 64 + (← value? s)
    let bytes ← decodeChars? rest
    some (UInt8.ofNat (n / 65536) :: UInt8.ofNat (n / 256) :: UInt8.ofNat n :: bytes)
  | _ => none

/-- The text of a byte string. -/
def encode (bytes : List UInt8) : String := String.ofList (encodeChars bytes)

/-- The byte string of a text, if the text is the one form it has. -/
def decode? (text : String) : Option (List UInt8) := decodeChars? text.toList

/-! ## Reading back -/

theorem value?_digit : ∀ n < 64, value? (digit n) = some n := by decide

theorem digit_ne_pad {n : Nat} (h : n < 64) : digit n ≠ '=' := by
  intro he
  have hv := value?_digit n h
  rw [he] at hv
  cases hv

/-- A group that is not padded holds three bytes. -/
theorem decodeChars?_group {a b c d : Nat} {rest : List Char} {bytes : List UInt8}
    (ha : a < 64) (hb : b < 64) (hc : c < 64) (hd : d < 64) (h : decodeChars? rest = some bytes) :
    decodeChars? (digit a :: digit b :: digit c :: digit d :: rest) =
      some (UInt8.ofNat ((a * 262144 + b * 4096 + c * 64 + d) / 65536) ::
        UInt8.ofNat ((a * 262144 + b * 4096 + c * 64 + d) / 256) ::
        UInt8.ofNat (a * 262144 + b * 4096 + c * 64 + d) :: bytes) := by
  have hpad := digit_ne_pad hd
  cases rest with
  | nil =>
    cases h
    simp [decodeChars?, hpad, value?_digit a ha, value?_digit b hb, value?_digit c hc,
      value?_digit d hd]
  | cons =>
    simp [decodeChars?, value?_digit a ha, value?_digit b hb, value?_digit c hc,
      value?_digit d hd, h]

/-- A group with one sign of padding holds two bytes. -/
theorem decodeChars?_padded {a b c : Nat} (ha : a < 64) (hb : b < 64) (hc : c < 64)
    (h : (a * 4096 + b * 64 + c) % 4 = 0) :
    decodeChars? [digit a, digit b, digit c, '='] =
      some [UInt8.ofNat ((a * 4096 + b * 64 + c) / 1024),
        UInt8.ofNat ((a * 4096 + b * 64 + c) / 4)] := by
  -- The first form of a padded group would need a second sign.
  have hpad := digit_ne_pad hc
  simp [decodeChars?, value?_digit a ha, value?_digit b hb, value?_digit c hc, h]

/-- A number of three sextets is made of them. -/
theorem sextets_three (n : Nat) : n / 4096 * 4096 + n / 64 % 64 * 64 + n % 64 = n := by
  have h := Nat.div_add_mod (n / 64) 64
  have hn := Nat.div_add_mod n 64
  rw [Nat.div_div_eq_div_mul] at h
  calc n / 4096 * 4096 + n / 64 % 64 * 64 + n % 64
      = 64 * (64 * (n / 4096) + n / 64 % 64) + n % 64 := by omega
    _ = n := by rw [h, hn]

/-- And so is one of four. -/
theorem sextets_four (n : Nat) :
    n / 262144 * 262144 + n / 4096 % 64 * 4096 + n / 64 % 64 * 64 + n % 64 = n := by
  have h := sextets_three (n / 64)
  have hn := Nat.div_add_mod n 64
  rw [Nat.div_div_eq_div_mul, Nat.div_div_eq_div_mul] at h
  have hmul : ∀ x y z : Nat,
      x * 262144 + y * 4096 + z * 64 = 64 * (x * 4096 + y * 64 + z) := by omega
  rw [hmul, h, hn]

/-- A byte is what its number leaves of a larger one. -/
theorem ofNat_eq_of_mod_eq {n : Nat} {a : UInt8} (h : n % 256 = a.toNat) : UInt8.ofNat n = a := by
  rw [← UInt8.toNat_inj, UInt8.toNat_ofNat']
  exact h

theorem decodeChars?_encodeChars (bytes : List UInt8) :
    decodeChars? (encodeChars bytes) = some bytes := by
  match bytes with
  | [] => rfl
  | [a] =>
    have ha := a.toNat_lt
    simp only [encodeChars]
    have h₁ := value?_digit (a.toNat * 16 / 64) (by omega)
    have h₂ := value?_digit (a.toNat * 16 % 64) (by omega)
    have hn : a.toNat * 16 / 64 * 64 + a.toNat * 16 % 64 = a.toNat * 16 := by omega
    simp [decodeChars?, h₁, h₂, hn]
  | [a, b] =>
    have ha := a.toNat_lt
    have hb := b.toNat_lt
    rw [encodeChars]
    generalize hn : a.toNat * 1024 + b.toNat * 4 = n
    have ha' : UInt8.ofNat (n / 1024) = a := ofNat_eq_of_mod_eq (by omega)
    have hb' : UInt8.ofNat (n / 4) = b := ofNat_eq_of_mod_eq (by omega)
    rw [decodeChars?_padded (by omega) (by omega) (by omega) (by rw [sextets_three]; omega),
      sextets_three, ha', hb']
  | a :: b :: c :: rest =>
    have ha := a.toNat_lt
    have hb := b.toNat_lt
    have hc := c.toNat_lt
    rw [encodeChars]
    generalize hn : a.toNat * 65536 + b.toNat * 256 + c.toNat = n
    have ha' : UInt8.ofNat (n / 65536) = a := ofNat_eq_of_mod_eq (by omega)
    have hb' : UInt8.ofNat (n / 256) = b := ofNat_eq_of_mod_eq (by omega)
    have hc' : UInt8.ofNat n = c := ofNat_eq_of_mod_eq (by omega)
    have hrest := decodeChars?_encodeChars rest
    rw [decodeChars?_group (by omega) (by omega) (by omega) (by omega) hrest, sextets_four, ha',
      hb', hc']

/-- **Each byte string is read back from its text.** -/
theorem decode?_encode (bytes : List UInt8) : decode? (encode bytes) = some bytes := by
  rw [decode?, encode, String.toList_ofList, decodeChars?_encodeChars]

example : encode [0, 1, 2, 255] = "AAEC/w==" := by decide
example : decode? "AAEC/w==" = some [0, 1, 2, 255] := by decide
example : decode? "AAEC/x==" = none := by decide

end KindQuery.Base64
