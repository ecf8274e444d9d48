/-!
# Cutting text

Removing a known beginning, splitting at the first place a divider
occurs, and splitting into pieces or lines. All of it works on lists of
characters.
-/

namespace KindQuery

/-- What follows `start` in a text that begins with it. -/
def dropStart? : (start text : List Char) → Option (List Char)
  | [], text => some text
  | _ :: _, [] => none
  | s :: start, c :: text => if s = c then dropStart? start text else none

/-- Splits a text around the first occurrence of `divider`. -/
def splitFirst? (divider : List Char) : List Char → Option (List Char × List Char)
  | [] => if divider = [] then some ([], []) else none
  | c :: text =>
    match dropStart? divider (c :: text) with
    | some after => some ([], after)
    | none => (splitFirst? divider text).map fun (before, after) => (c :: before, after)

/-- Does `start` begin the text? -/
def startsWith (start text : List Char) : Bool := (dropStart? start text).isSome

/-- Does `part` occur in the text? -/
def occursIn (part text : List Char) : Bool := (splitFirst? part text).isSome

/-- The pieces of a text between dividers. -/
def pieces (divider : Char) : List Char → List (List Char)
  | [] => [[]]
  | c :: cs =>
    match pieces divider cs with
    | [] => [[c]]
    | p :: ps => if c = divider then [] :: p :: ps else (c :: p) :: ps

/-- The lines of a text. A newline ends a line, together with one carriage
return before it; the end of the text ends a line that is not empty. -/
def lines : List Char → List (List Char)
  | [] => []
  | '\n' :: text => [] :: lines text
  | '\r' :: '\n' :: text => [] :: lines text
  | c :: text =>
    match lines text with
    | [] => [[c]]
    | line :: rest => (c :: line) :: rest

theorem dropStart?_eq_some_iff {start text rest : List Char} :
    dropStart? start text = some rest ↔ text = start ++ rest := by
  induction start generalizing text with
  | nil => simp [dropStart?, eq_comm]
  | cons s start ih =>
    cases text with
    | nil => simp [dropStart?]
    | cons c text =>
      by_cases h : s = c
      · subst h; simp [dropStart?, ih]
      · simp [dropStart?, h, Ne.symm h]

@[simp] theorem dropStart?_append (start rest : List Char) :
    dropStart? start (start ++ rest) = some rest :=
  dropStart?_eq_some_iff.2 rfl

end KindQuery
