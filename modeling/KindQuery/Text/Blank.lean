/-!
# Blank text

Which characters count as white space, and what is left of a text once
they are stripped from both ends. A text is *blank* when nothing is
left: names of keys, fields and map entries may not be blank.
-/

namespace KindQuery

/-- The Unicode property `White_Space`. A zero-width space or a byte order
mark does not have it; a no-break space does. -/
def isBlankChar (c : Char) : Bool :=
  let n := c.toNat
  (0x09 ≤ n && n ≤ 0x0D) || n == 0x20 || n == 0x85 || n == 0xA0 || n == 0x1680 ||
    (0x2000 ≤ n && n ≤ 0x200A) || n == 0x2028 || n == 0x2029 || n == 0x202F ||
    n == 0x205F || n == 0x3000

/-- A text is blank when it holds white space only. -/
def isBlank (s : String) : Bool := s.toList.all isBlankChar

/-- The characters left when white space is dropped from both ends. -/
def trimChars (cs : List Char) : List Char :=
  ((cs.dropWhile isBlankChar).reverse.dropWhile isBlankChar).reverse

/-- A text without the white space at its ends. -/
def trim (s : String) : String := String.ofList (trimChars s.toList)

/-- Every white space character of the core library is white space here. -/
theorem isBlankChar_of_isWhitespace {c : Char} (h : c.isWhitespace = true) :
    isBlankChar c = true := by
  simp only [Char.isWhitespace, Bool.or_eq_true, decide_eq_true_eq] at h
  rcases h with ((h | h) | h) | h <;> subst h <;> decide

@[simp] theorem isBlank_empty : isBlank "" = true := by decide

end KindQuery
