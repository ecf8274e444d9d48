import KindQuery.Query.Translate
import KindQuery.Text.Cut
/-!
# Composite indexes

The store indexes each property by itself. A query that refers to more
than one property needs a composite index, which has to be declared ahead
of time in a file of its own layout. This module says which index a query
needs, keeps the indexes that queries have needed, and writes and
recognises that layout.
-/

namespace KindQuery

/-- A composite index over properties of a kind. -/
structure Index where
  kind : String
  properties : List String
  ancestor : Bool
deriving DecidableEq, Repr

/-- The index that a query needs. Each condition and the ordering count as
one reference, and so does a projection, however many columns it has. One
reference needs no index. -/
def Compiled.requiredIndex? (c : Compiled) : Option Index :=
  let references := c.ast.members.length + if c.plan.selectsAll then 0 else 1
  if references ≤ 1 then none else some ⟨c.kind, c.columns, false⟩

/-! ## Known indexes -/

/-- The indexes that queries have needed, in the order in which they were
first needed. -/
structure KnownIndexes where
  indexes : List Index
deriving DecidableEq, Repr

namespace KnownIndexes

/-- No indexes. -/
def empty : KnownIndexes := ⟨[]⟩

/-- Is an index of the same kind over the same properties known? -/
def knows (k : KnownIndexes) (i : Index) : Bool :=
  k.indexes.any fun j => j.kind == i.kind && j.properties == i.properties

/-- Adds an index that is not known yet. Tells whether it did. -/
def record (k : KnownIndexes) (i : Index) : Bool × KnownIndexes :=
  if k.knows i then (false, k) else (true, ⟨k.indexes ++ [i]⟩)

/-- Adds the index that a query needs, if any. -/
def advise (k : KnownIndexes) (c : Compiled) : KnownIndexes :=
  match c.requiredIndex? with
  | some i => (k.record i).2
  | none => k

end KnownIndexes

/-! ## The layout of index files -/

namespace Index

/-- The lines of an index. -/
def yamlLines (i : Index) : List String :=
  ["- kind: " ++ i.kind,
    "  ancestor: " ++ (if i.ancestor then "yes" else "no"),
    "  properties:"] ++ i.properties.map fun p => "  - name: " ++ p

/-- The text of an index file. -/
def toYaml (indexes : List Index) : String :=
  String.join (("indexes:" :: indexes.flatMap yamlLines).map (· ++ "\n"))

/-- The lines that do not depend on an index. -/
def fixedLines : List (List Char) :=
  ["indexes:".toList, "  ancestor: no".toList, "  ancestor: yes".toList, "  properties:".toList]

/-- Is it a line of an index file? Names may not be blank. -/
def isGeneratedLine (line : List Char) : Bool :=
  fixedLines.contains line ||
    match (dropStart? "- kind: ".toList line).or (dropStart? "  - name: ".toList line) with
    | some name => !name.all isBlankChar
    | none => false

/-- Does the text have lines of index files only, blank lines apart? -/
def isGenerated (text : String) : Bool :=
  (lines text.toList).all fun line => line.all isBlankChar || isGeneratedLine line

end Index

end KindQuery
