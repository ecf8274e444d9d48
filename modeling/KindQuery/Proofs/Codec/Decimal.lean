import KindQuery.Number.Decimal
import Mathlib.Data.List.TakeWhile
/-!
# Decimals as text

A decimal is written with all its places and read back digit by digit.
What is read is the same mantissa under the same scale; only the sign of a
zero is lost (`parse?_text`), which makes no other number (`same_settled`).
-/

namespace KindQuery.Decimal

/-- The decimal without the sign of a zero. -/
def settled (d : Decimal) : Decimal := { d with negative := d.negative && d.mantissa != 0 }

theorem same_settled (d : Decimal) : d.settled.same d = true := by
  cases hm : d.mantissa <;> simp [same, settled, hm]

theorem finish_eq_settled {d : Decimal} {m k : Nat} {seen : Bool} (hm : m = d.mantissa)
    (hk : k = d.scale) : Reading.finish ⟨m, k, seen, true⟩ d.negative = some d.settled := by
  subst hm hk
  rw [Reading.finish, if_pos rfl, ofParts?, dif_pos ⟨d.mantissa_lt, d.scale_le⟩]
  rfl

/-! ## Digits -/

theorem digit?_of_isDigit {c : Char} (h : c.isDigit = true) :
    digit? c = some (c.toNat - '0'.toNat) := by
  have hc : '0' ≤ c ∧ c ≤ '9' := by simpa [Char.isDigit, Char.le_def] using h
  simp [digit?, hc]

/-- One more digit is read while it fits. -/
theorem readDigits_cons {negative : Bool} {r : Reading} {c : Char} {rest : List Char}
    (hc : c.isDigit = true) (hm : 10 * r.mantissa + (c.toNat - '0'.toNat) < 1 <<< 96)
    (hp : r.pointSeen = true → r.places < 28) :
    readDigits negative r (c :: rest) =
      readDigits negative ⟨10 * r.mantissa + (c.toNat - '0'.toNat),
        if r.pointSeen then r.places + 1 else 0, r.pointSeen, true⟩ rest := by
  have hpoint : c ≠ '.' := by rintro rfl; simp at hc
  have hline : c ≠ '_' := by rintro rfl; simp at hc
  have hfits : (!(r.pointSeen && decide (28 ≤ r.places))) = true := by
    cases hs : r.pointSeen with
    | false => rfl
    | true => simpa using hp hs
  rw [readDigits, Nat.mul_comm r.mantissa 10]
  simp only [hpoint, hline, false_and, if_false, digit?_of_isDigit hc]
  rw [if_pos ⟨hm, hfits⟩]

theorem le_ofDigitChars {ds : List Char} {m : Nat} : m ≤ Nat.ofDigitChars 10 ds m := by
  rw [Nat.ofDigitChars_eq_ofDigitChars_zero]
  have := Nat.le_mul_of_pos_left m (Nat.pow_pos (n := ds.length) (by decide : 0 < 10))
  omega

/-- **Digits are read** as the number that they are, which grows with each
of them. -/
theorem readDigits_append {negative : Bool} {c : Char} {ds rest : List Char} {r : Reading}
    (hds : ∀ d ∈ c :: ds, d.isDigit = true)
    (hm : Nat.ofDigitChars 10 (c :: ds) r.mantissa < 1 <<< 96)
    (hp : r.pointSeen = true → r.places + (c :: ds).length ≤ 28) :
    readDigits negative r (c :: ds ++ rest) =
      readDigits negative ⟨Nat.ofDigitChars 10 (c :: ds) r.mantissa,
        if r.pointSeen then r.places + (c :: ds).length else 0, r.pointSeen, true⟩ rest := by
  induction ds generalizing c r with
  | nil =>
    rw [Nat.ofDigitChars_cons, Nat.ofDigitChars_nil] at *
    exact readDigits_cons (hds c (by simp)) hm hp
  | cons d ds ih =>
    rw [List.forall_mem_cons] at hds
    rw [Nat.ofDigitChars_cons] at hm ⊢
    -- The mantissa grows, so that it fits after this digit if it does after all.
    have hlt := Nat.lt_of_le_of_lt le_ofDigitChars hm
    rw [List.cons_append, readDigits_cons hds.1 hlt fun hs => by
      have := hp hs
      simp only [List.length_cons] at this
      omega, ih hds.2 hm]
    · cases r.pointSeen with
      | false => rfl
      | true => simp only [if_true, List.length_cons]; congr 2; omega
    · intro hs
      have := hp hs
      simp only [List.length_cons] at this ⊢
      rw [if_pos hs]
      omega

/-- The digits before the point. -/
theorem readDigits_whole {negative : Bool} {c : Char} {ds rest : List Char}
    (hds : ∀ d ∈ c :: ds, d.isDigit = true) (hm : Nat.ofDigitChars 10 (c :: ds) 0 < 1 <<< 96) :
    readDigits negative ⟨0, 0, false, false⟩ (c :: ds ++ rest) =
      readDigits negative ⟨Nat.ofDigitChars 10 (c :: ds) 0, 0, false, true⟩ rest :=
  readDigits_append hds hm nofun

/-- The digits after it. -/
theorem readDigits_places {negative : Bool} {c : Char} {ds rest : List Char} {m : Nat}
    (hds : ∀ d ∈ c :: ds, d.isDigit = true) (hm : Nat.ofDigitChars 10 (c :: ds) m < 1 <<< 96)
    (hp : (c :: ds).length ≤ 28) :
    readDigits negative ⟨m, 0, true, true⟩ (c :: ds ++ rest) =
      readDigits negative ⟨Nat.ofDigitChars 10 (c :: ds) m, (c :: ds).length, true, true⟩ rest := by
  rw [readDigits_append hds hm fun _ => by simpa using hp]
  simp

/-! ## Texts -/

/-- The digits before and after the point, at least one of them before
it. -/
def padded (d : Decimal) : List Char :=
  List.replicate (d.scale + 1 - (Nat.toDigits 10 d.mantissa).length) '0' ++
    Nat.toDigits 10 d.mantissa

theorem isDigit_of_mem_padded {d : Decimal} {c : Char} (h : c ∈ d.padded) : c.isDigit = true := by
  rcases List.mem_append.1 h with h | h
  · rw [(List.mem_replicate.1 h).2]
    rfl
  · exact Nat.isDigit_of_mem_toDigits (by decide) (by decide) h

theorem ofDigitChars_padded (d : Decimal) : Nat.ofDigitChars 10 d.padded 0 = d.mantissa := by
  rw [padded, Nat.ofDigitChars_append, Nat.ofDigitChars_replicate_zero, Nat.mul_zero,
    Nat.ofDigitChars_ten_toDigits]

theorem scale_lt_length_padded (d : Decimal) : d.scale < d.padded.length := by
  rw [padded, List.length_append, List.length_replicate]
  omega

/-- The digits of a decimal are read, with its point among them. -/
theorem readDigits_chars (d : Decimal) {whole places : List Char}
    (hsplit : d.padded = whole ++ places) (hplaces : places.length = d.scale) :
    readDigits d.negative ⟨0, 0, false, false⟩
      (whole ++ if places.isEmpty then [] else '.' :: places) = some d.settled := by
  have hdigit : ∀ c ∈ whole ++ places, c.isDigit = true :=
    hsplit ▸ fun c hc => isDigit_of_mem_padded hc
  have hvalue : Nat.ofDigitChars 10 places (Nat.ofDigitChars 10 whole 0) = d.mantissa := by
    rw [← Nat.ofDigitChars_append, ← hsplit, ofDigitChars_padded]
  have hlt : Nat.ofDigitChars 10 places (Nat.ofDigitChars 10 whole 0) < 1 <<< 96 :=
    hvalue ▸ d.mantissa_lt
  have hscale := d.scale_le
  have hlength := d.scale_lt_length_padded
  rw [hsplit, List.length_append, hplaces] at hlength
  -- There are more digits than places, so that one stands before the point.
  match whole, places with
  | [], _ => simp at hlength
  | c :: whole, [] =>
    rw [Nat.ofDigitChars_nil] at hvalue hlt
    rw [readDigits_whole (fun x hx => hdigit x (by simpa using hx)) hlt]
    exact finish_eq_settled hvalue hplaces
  | c :: whole, p :: places =>
    have hwhole := Nat.lt_of_le_of_lt le_ofDigitChars hlt
    rw [readDigits_whole (fun x hx => hdigit x (List.mem_append_left _ hx)) hwhole]
    change readDigits _ ⟨_, 0, true, true⟩ (p :: places) = _
    rw [← List.append_nil (p :: places),
      readDigits_places (fun x hx => hdigit x (List.mem_append_right _ hx)) hlt (by omega)]
    exact finish_eq_settled hvalue hplaces

/-- The characters before the point. -/
def whole (d : Decimal) : List Char := d.padded.take (d.padded.length - d.scale)

/-- The characters after it. -/
def places (d : Decimal) : List Char := d.padded.drop (d.padded.length - d.scale)

theorem padded_eq_append (d : Decimal) : d.padded = d.whole ++ d.places :=
  (List.take_append_drop _ _).symm

theorem length_places (d : Decimal) : d.places.length = d.scale := by
  have := d.scale_lt_length_padded
  rw [places, List.length_drop]
  omega

/-- The characters of a decimal without its sign. -/
def unsigned (d : Decimal) : List Char :=
  d.whole ++ if d.places.isEmpty then [] else '.' :: d.places

theorem chars_eq (d : Decimal) :
    d.chars = (if d.negative then ['-'] else []) ++ d.unsigned :=
  List.append_assoc _ _ _

theorem isDigit_or_eq_of_mem_unsigned {d : Decimal} {c : Char} (h : c ∈ d.unsigned) :
    c.isDigit = true ∨ c = '.' := by
  have hdigit : ∀ x, x ∈ d.whole ∨ x ∈ d.places → x.isDigit = true := fun x hx =>
    isDigit_of_mem_padded (d.padded_eq_append ▸ List.mem_append.2 hx)
  rcases List.mem_append.1 h with h | h
  · exact .inl (hdigit c (.inl h))
  · split at h
    · cases h
    · rcases List.mem_cons.1 h with rfl | h
      · exact .inr rfl
      · exact .inl (hdigit c (.inr h))

/-- A number begins with its sign or with a digit. -/
theorem readPlain_chars (d : Decimal) : readPlain d.chars = some d.settled := by
  have hread := d.readDigits_chars d.padded_eq_append d.length_places
  change readDigits d.negative _ d.unsigned = _ at hread
  rw [chars_eq]
  cases hn : d.negative with
  | true =>
    rw [hn] at hread
    exact hread
  | false =>
    rw [hn] at hread
    rw [if_neg Bool.false_ne_true, List.nil_append]
    match hu : d.unsigned with
    | [] =>
      rw [hu] at hread
      exact hread
    | c :: rest =>
      have hc := isDigit_or_eq_of_mem_unsigned (hu ▸ List.mem_cons_self : c ∈ d.unsigned)
      rw [hu] at hread
      unfold readPlain
      split
      next heq =>
        cases heq
        simp at hc
      next heq =>
        cases heq
        simp at hc
      next => exact hread

/-- **A decimal is read back from its text**, but for the sign of a
zero. -/
theorem parse?_text (d : Decimal) : parse? d.text = some d.settled := by
  have hmark : ∀ c ∈ d.chars, (!(c == 'e' || c == 'E')) = true := by
    intro c hc
    rw [chars_eq] at hc
    rcases List.mem_append.1 hc with hc | hc
    · split at hc
      · rw [List.mem_singleton.1 hc]
        rfl
      · cases hc
    · rcases isDigit_or_eq_of_mem_unsigned hc with hd | rfl
      · have he : c ≠ 'e' := by rintro rfl; simp at hd
        have hE : c ≠ 'E' := by rintro rfl; simp at hd
        simp [he, hE]
      · rfl
  -- Without an exponent the whole text is read as digits.
  rw [parse?, text, String.toList_ofList]
  simp only [List.dropWhile_eq_nil_iff.2 hmark, List.takeWhile_eq_self_iff.2 hmark]
  exact d.readPlain_chars

end KindQuery.Decimal
