import KindQuery.Text.Unprintable
import KindQuery.Text.Extending
/-!
# Quoted text

A text between double quotes, with every character that could not be
read back, or not be seen, written as an escape. Two conventions are in
use. They differ in whether the apostrophe is escaped, and in whether a
combining mark is escaped everywhere or only at the start of the text.
-/

namespace KindQuery

/-- Is the code point in one of the ranges? -/
def inRanges (ranges : List (Nat × Nat)) (n : Nat) : Bool :=
  ranges.any fun (first, last) => first ≤ n && n ≤ last

/-- A character that has no visible form. Printable ASCII is decided
without the table. -/
def isUnprintable (c : Char) : Bool :=
  if 0x20 ≤ c.toNat && c.toNat ≤ 0x7E then false else inRanges unprintableRanges c.toNat

/-- A character that attaches to the one before it. There are none in
ASCII. -/
def isExtending (c : Char) : Bool :=
  if c.toNat ≤ 0x7E then false else inRanges extendingRanges c.toNat

/-- The digits of a number in base 16, in lower case and without leading
zeros. -/
def hexDigits (n : Nat) : List Char := Nat.toDigits 16 n

/-- What a convention for quoting decides. -/
structure Quoting where
  /-- An apostrophe is written with a backslash. -/
  apostrophe : Bool
  /-- An extending character is escaped only where it comes first. -/
  leadingOnly : Bool

/-- How texts are written inside the outline of a value. -/
def Quoting.outline : Quoting := ⟨false, false⟩

/-- How the context of a foreign error is written in its outline. -/
def Quoting.context : Quoting := ⟨true, true⟩

/-- One character as it stands between the quotes; `first` tells whether
it begins the text. -/
def escapeChar (q : Quoting) (first : Bool) (c : Char) : List Char :=
  if c = '\x00' then ['\\', '0']
  else if c = '\t' then ['\\', 't']
  else if c = '\r' then ['\\', 'r']
  else if c = '\n' then ['\\', 'n']
  else if c = '\\' then ['\\', '\\']
  else if c = '"' then ['\\', '"']
  else if c = '\'' && q.apostrophe then ['\\', '\'']
  else if isExtending c && (first || !q.leadingOnly) || isUnprintable c then
    ['\\', 'u', '\x7b'] ++ hexDigits c.toNat ++ ['\x7d']
  else [c]

/-- The characters of a text as they stand between the quotes. -/
def escapeChars (q : Quoting) : List Char → List Char
  | [] => []
  | c :: cs => escapeChar q true c ++ cs.flatMap (escapeChar q false)

/-- A text in double quotes. -/
def quotedBy (q : Quoting) (s : String) : String :=
  String.ofList ('"' :: escapeChars q s.toList ++ ['"'])

/-- A text in double quotes, as the outline of a value shows it. -/
def quoted (s : String) : String := quotedBy .outline s

example : quoted "a\"b\n" = "\"a\\\"b\\n\"" := by decide

end KindQuery
