/-!
# JSON texts

A strict reader for JSON: one value, white space around it, and nothing
else. The text is first cut into tokens, and the tokens are then put
together to values.

A text may name characters by their code units. Code units that do not
pair up name no character; such a text is still well formed, but it has no
content.
-/

namespace KindQuery

/-- A JSON value. Numbers are kept only as far as they are needed here:
they are well formed. The names of an object may repeat. -/
inductive Json where
  | null
  | bool (b : Bool)
  | number
  /-- A text; `none` if its code units do not pair up. -/
  | text (content : Option String)
  | list (items : List Json)
  | object (members : List (Option String × Json))

namespace Json

/-! ## Tokens -/

/-- What a JSON text is made of. -/
inductive Token where
  | null
  | bool (b : Bool)
  | number
  | text (content : Option String)
  | openList
  | closeList
  | openObject
  | closeObject
  | colon
  | comma
deriving DecidableEq, Repr

/-- White space between tokens. -/
def isSpace (c : Char) : Bool := c == ' ' || c == '\n' || c == '\t' || c == '\r'

/-- The value of a digit in base 16. -/
def hexDigit? (c : Char) : Option Nat :=
  if c.isDigit then some (c.toNat - 48)
  else if 'a' ≤ c ∧ c ≤ 'f' then some (c.toNat - 87)
  else if 'A' ≤ c ∧ c ≤ 'F' then some (c.toNat - 55)
  else none

/-- A code unit given by four digits in base 16. -/
def codeUnit? (a b c d : Char) : Option Nat := do
  some ((← hexDigit? a) * 4096 + (← hexDigit? b) * 256 + (← hexDigit? c) * 16 + (← hexDigit? d))

/-- The character that a backslash and a letter stand for. -/
def escaped? (c : Char) : Option Char :=
  match c with
  | '"' => some '"'
  | '\\' => some '\\'
  | '/' => some '/'
  | 'b' => some '\x08'
  | 'f' => some '\x0c'
  | 'n' => some '\n'
  | 'r' => some '\r'
  | 't' => some '\t'
  | _ => none

/-- The code points of a text up to its closing quote, and what follows
it. Code units stand for themselves. Control characters are not
allowed. -/
def codePoints : List Char → Option (List Nat × List Char)
  | [] => none
  | '"' :: rest => some ([], rest)
  | '\\' :: 'u' :: a :: b :: c :: d :: rest => do
    let n ← codeUnit? a b c d
    let (ns, rest) ← codePoints rest
    some (n :: ns, rest)
  | '\\' :: c :: rest => do
    let e ← escaped? c
    let (ns, rest) ← codePoints rest
    some (e.toNat :: ns, rest)
  | c :: rest =>
    if c.toNat < 0x20 || c == '\\' then none
    else do
      let (ns, rest) ← codePoints rest
      some (c.toNat :: ns, rest)

/-- Is it the first code unit of a pair? -/
def isHighHalf (n : Nat) : Bool := 0xD800 ≤ n && n ≤ 0xDBFF

/-- Is it the second code unit of a pair? -/
def isLowHalf (n : Nat) : Bool := 0xDC00 ≤ n && n ≤ 0xDFFF

/-- The characters of code points, after pairs of code units have been
joined. -/
def joinPairs : List Nat → Option (List Char)
  | [] => some []
  | n :: m :: rest =>
    if isHighHalf n then
      if isLowHalf m then
        (joinPairs rest).map (Char.ofNat (0x10000 + (n - 0xD800) * 0x400 + (m - 0xDC00)) :: ·)
      else none
    else if isLowHalf n then none
    else (joinPairs (m :: rest)).map (Char.ofNat n :: ·)
  | [n] => if isHighHalf n || isLowHalf n then none else some [Char.ofNat n]

/-- Drops digits, of which there must be at least one. -/
def dropDigits? : List Char → Option (List Char)
  | c :: rest => if c.isDigit then some (rest.dropWhile Char.isDigit) else none
  | [] => none

/-- Drops the whole part of a number. It does not begin with a zero,
unless it is zero. -/
def dropWhole? : List Char → Option (List Char)
  | '0' :: rest => some rest
  | cs => dropDigits? cs

/-- Drops the places of a number, if there are any. -/
def dropPlaces? : List Char → Option (List Char)
  | '.' :: rest => dropDigits? rest
  | cs => some cs

/-- Drops the exponent of a number, if there is one. -/
def dropExponent? : List Char → Option (List Char)
  | c :: rest =>
    if c == 'e' || c == 'E' then
      match rest with
      | '+' :: digits => dropDigits? digits
      | '-' :: digits => dropDigits? digits
      | digits => dropDigits? digits
    else some (c :: rest)
  | [] => some []

/-- Drops a number without a sign. -/
def dropNumber? (cs : List Char) : Option (List Char) := do
  dropExponent? (← dropPlaces? (← dropWhole? cs))

/-- The first token of a text that does not begin with white space, and
what follows it. -/
def nextToken? : List Char → Option (Token × List Char)
  | '[' :: rest => some (.openList, rest)
  | ']' :: rest => some (.closeList, rest)
  | '\x7b' :: rest => some (.openObject, rest)
  | '\x7d' :: rest => some (.closeObject, rest)
  | ':' :: rest => some (.colon, rest)
  | ',' :: rest => some (.comma, rest)
  | '"' :: rest => do
    let (ns, rest) ← codePoints rest
    some (.text ((joinPairs ns).map String.ofList), rest)
  | 'n' :: 'u' :: 'l' :: 'l' :: rest => some (.null, rest)
  | 't' :: 'r' :: 'u' :: 'e' :: rest => some (.bool true, rest)
  | 'f' :: 'a' :: 'l' :: 's' :: 'e' :: rest => some (.bool false, rest)
  | '-' :: rest => (dropNumber? rest).map (.number, ·)
  | cs => (dropNumber? cs).map (.number, ·)

/-- The tokens of a text, at most as many as the first argument says. -/
def tokensUpTo : Nat → List Char → Option (List Token)
  | 0, cs => if (cs.dropWhile isSpace).isEmpty then some [] else none
  | n + 1, cs =>
    match cs.dropWhile isSpace with
    | [] => some []
    | c :: rest => do
      let (t, rest) ← nextToken? (c :: rest)
      let ts ← tokensUpTo n rest
      some (t :: ts)

/-- The tokens of a text. There are not more of them than characters. -/
def tokens? (cs : List Char) : Option (List Token) := tokensUpTo cs.length cs

/-! ## Values -/

mutual

/-- Reads a value, in at most as many steps as the first argument says,
and gives what follows it. -/
def value? : Nat → List Token → Option (Json × List Token)
  | 0, _ => none
  | _ + 1, .null :: ts => some (.null, ts)
  | _ + 1, .bool b :: ts => some (.bool b, ts)
  | _ + 1, .number :: ts => some (.number, ts)
  | _ + 1, .text content :: ts => some (.text content, ts)
  | _ + 1, .openList :: .closeList :: ts => some (.list [], ts)
  | n + 1, .openList :: ts => (items? n ts).map fun (vs, ts) => (.list vs, ts)
  | _ + 1, .openObject :: .closeObject :: ts => some (.object [], ts)
  | n + 1, .openObject :: ts => (members? n ts).map fun (ms, ts) => (.object ms, ts)
  | _ + 1, _ => none

/-- Reads the items of a list and its closing bracket. -/
def items? : Nat → List Token → Option (List Json × List Token)
  | 0, _ => none
  | n + 1, ts =>
    match value? n ts with
    | some (v, .closeList :: ts) => some ([v], ts)
    | some (v, .comma :: ts) => (items? n ts).map fun (vs, ts) => (v :: vs, ts)
    | _ => none

/-- Reads the members of an object and its closing brace. -/
def members? : Nat → List Token → Option (List (Option String × Json) × List Token)
  | n + 1, .text name :: .colon :: ts =>
    match value? n ts with
    | some (v, .closeObject :: ts) => some ([(name, v)], ts)
    | some (v, .comma :: ts) => (members? n ts).map fun (ms, ts) => ((name, v) :: ms, ts)
    | _ => none
  | _, _ => none

end

/-- The value of a text. Each token takes at most two steps. -/
def parse? (text : String) : Option Json := do
  let ts ← tokens? text.toList
  match value? (2 * ts.length) ts with
  | some (v, []) => some v
  | _ => none

end Json

end KindQuery
