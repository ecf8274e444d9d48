import KindQuery.Text.Quoted
/-!
# Outlines

An outline shows how a value is built: constructors with their
arguments, fields with their names, lists and dictionaries. It is written
on one line inside messages, or over several indented lines.
-/

namespace KindQuery

/-- The structure of a value, ready to be written. -/
inductive Outline where
  /-- Text that stands as it is. -/
  | leaf (text : String)
  /-- A constructor applied to arguments: `Name(a, b)`. -/
  | call (name : String) (args : List Outline)
  /-- A constructor with named fields. -/
  | fields (name : String) (fields : List (String × Outline))
  /-- A list: `[a, b]`. -/
  | items (items : List Outline)
  /-- A dictionary with quoted names. -/
  | entries (entries : List (String × Outline))

namespace Outline

/-- The outline of a text: the text in quotes. -/
def ofText (s : String) : Outline := .leaf (quoted s)

/-- The outline of an integer. -/
def ofInt (n : Int) : Outline := .leaf (toString n)

/-- The outline of something that may be absent. -/
def ofOption (o : Option Outline) : Outline :=
  match o with
  | none => .leaf "None"
  | some a => .call "Some" [a]

/-- Parts with commas between them. -/
def commaJoined (parts : List String) : String := String.intercalate ", " parts

mutual

/-- An outline on one line. -/
def line : Outline → String
  | .leaf text => text
  | .call name args => name ++ "(" ++ commaJoined (lineEach args) ++ ")"
  | .fields name fs => name ++ " \x7b " ++ commaJoined (lineNamed (· ++ ": ") fs) ++ " \x7d"
  | .items xs => "[" ++ commaJoined (lineEach xs) ++ "]"
  | .entries es => "\x7b" ++ commaJoined (lineNamed (quoted · ++ ": ") es) ++ "\x7d"

/-- Each outline of a list on one line. -/
def lineEach : List Outline → List String
  | [] => []
  | x :: xs => x.line :: lineEach xs

/-- Each named outline on one line, after its name as `label` writes it. -/
def lineNamed (label : String → String) : List (String × Outline) → List String
  | [] => []
  | (name, x) :: xs => (label name ++ x.line) :: lineNamed label xs

end

/-- Lines between an opening and a closing mark, each one level further in
and followed by a comma. With nothing between them the marks meet. -/
def block (margin opening closing : String) (parts : List String) : String :=
  if parts.isEmpty then opening ++ closing
  else
    opening ++ "\n" ++ String.join (parts.map fun p => margin ++ "    " ++ p ++ ",\n") ++
      margin ++ closing

mutual

/-- An outline over several lines. All lines but the first begin with the
margin. -/
def indented (margin : String) : Outline → String
  | .leaf text => text
  | .call name args => name ++ block margin "(" ")" (indentedEach (margin ++ "    ") args)
  | .fields name fs =>
    name ++ block margin " \x7b" "\x7d" (indentedNamed (margin ++ "    ") (· ++ ": ") fs)
  | .items xs => block margin "[" "]" (indentedEach (margin ++ "    ") xs)
  | .entries es =>
    block margin "\x7b" "\x7d" (indentedNamed (margin ++ "    ") (quoted · ++ ": ") es)

/-- Each outline of a list over several lines. -/
def indentedEach (margin : String) : List Outline → List String
  | [] => []
  | x :: xs => x.indented margin :: indentedEach margin xs

/-- Each named outline over several lines, after its name. -/
def indentedNamed (margin : String) (label : String → String) :
    List (String × Outline) → List String
  | [] => []
  | (name, x) :: xs => (label name ++ x.indented margin) :: indentedNamed margin label xs

end

end Outline

end KindQuery
