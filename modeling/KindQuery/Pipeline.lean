import KindQuery.Expr
import KindQuery.Schema
/-!
# Pipelines

A query is a chain of stages over the records of one kind. Stages are
appended in any order; whether they make sense together is decided when
the pipeline is translated.
-/

namespace KindQuery

/-- The direction of an ordering. -/
inductive Direction where
  | asc
  | desc
deriving DecidableEq, Repr

/-- The direction as query text. -/
def Direction.symbol : Direction → String
  | asc => "ASC"
  | desc => "DESC"

/-- A stage that also says how many rows are expected. -/
inductive Terminal where
  | first
  | firstOrDefault
  | single
  | singleOrDefault
  | any
deriving DecidableEq, Repr

namespace Terminal

/-- May the result be empty? -/
def allowsDefault : Terminal → Bool
  | firstOrDefault | singleOrDefault => true
  | _ => false

/-- Must there be no second row? -/
def isSingle : Terminal → Bool
  | single | singleOrDefault => true
  | _ => false

/-- The number of rows to ask for. Two rows are asked for where a second
one would be an error, so that it is noticed. -/
def fetchLimit (t : Terminal) : Int64 := if t.isSingle then 2 else 1

end Terminal

/-- One step of a query. -/
inductive Stage where
  | filter (predicate : Expr)
  | project (selector : Expr)
  | orderBy (key : Expr) (direction : Direction)
  | take (count : Expr)
  | skip (count : Expr)
  | terminal (kind : Terminal) (predicate : Option Expr)

namespace Stage

/-- The selector of a projection. -/
def selector? : Stage → Option Expr
  | project selector => some selector
  | _ => none

/-- The kind of a terminal stage. -/
def terminal? : Stage → Option Terminal
  | terminal kind _ => some kind
  | _ => none

/-- Is the stage a limit on the number of rows? -/
def isTake : Stage → Bool
  | take _ => true
  | _ => false

/-- The captured values of a stage. -/
def captures : Stage → List Captured
  | filter e | project e | orderBy e _ | take e | skip e => e.captures
  | terminal _ e => (e.map Expr.captures).getD []

end Stage

/-- A chain of stages over the records of a schema. -/
structure Pipeline where
  schema : Schema
  stages : List Stage

/-- A pipeline with one more stage at its end. -/
def Pipeline.push (p : Pipeline) (stage : Stage) : Pipeline :=
  { p with stages := p.stages ++ [stage] }

/-- A pipeline whose captured values are the same at each reading. -/
def Pipeline.IsConstant (p : Pipeline) : Prop := ∀ st ∈ p.stages, ∀ c ∈ st.captures, c.IsConstant

/-! ## Outlines -/

/-- How a type is declared. Of a nested record only that it is one is
shown. -/
def FieldType.outline : FieldType → Outline
  | enum variants => .call "Enum" [.items (variants.map (·.outline "EnumVariant"))]
  | list item => .call "List" [item.outline]
  | map item => .call "Map" [item.outline]
  | record _ => .call "Record" [.leaf ".."]
  | type => .leaf type.name

/-- The name of a role. -/
def FieldRole.name : FieldRole → String
  | normal => "Normal"
  | key => "Key"
  | notIndexed => "NotIndexed"
  | notPersisted => "NotPersisted"

/-- How a field is declared. -/
def Field.outline (f : Field) : Outline :=
  .fields "Field"
    [("name", .ofText f.name), ("ty", f.type.outline), ("role", .leaf f.role.name)]

/-- How a schema is declared. -/
def Schema.outline (s : Schema) : Outline :=
  .fields "ModelSchema"
    [("name", .ofText s.name), ("fields", .items (s.fields.map Field.outline))]

/-- The name of a direction. -/
def Direction.name : Direction → String
  | asc => "Asc"
  | desc => "Desc"

/-- The name of a kind of terminal stage. -/
def Terminal.name : Terminal → String
  | first => "First"
  | firstOrDefault => "FirstOrDefault"
  | single => "Single"
  | singleOrDefault => "SingleOrDefault"
  | any => "Any"

/-- How a stage is built. -/
def Stage.outline : Stage → Outline
  | filter e => .call "Filter" [e.outline]
  | project e => .call "Project" [e.outline]
  | orderBy e d => .call "OrderBy" [e.outline, .leaf d.name]
  | take e => .call "Take" [e.outline]
  | skip e => .call "Skip" [e.outline]
  | terminal kind e => .call "Terminal" [.leaf kind.name, .ofOption (e.map Expr.outline)]

/-- How a pipeline is built. -/
def Pipeline.outline (p : Pipeline) : Outline :=
  .fields "Pipeline"
    [("model", p.schema.outline), ("stages", .items (p.stages.map Stage.outline))]

end KindQuery
