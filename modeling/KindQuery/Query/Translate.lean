import KindQuery.Query.Projection
import KindQuery.Query.Render
/-!
# Translation

A pipeline becomes query text with named parameters. Its stages are first
checked against each other; then the projection is planned; then the
stages are walked in order, each adding fragments and parameters to a
draft. Nothing is inlined into the text.

Two modes differ in what a second limit or offset means: it is an error,
or it is ignored.
-/

namespace KindQuery

/-- How a repeated limit or offset is treated. -/
inductive Mode where
  /-- It is an error. -/
  | strict
  /-- It is ignored; the first one stands. -/
  | collapsing
deriving DecidableEq, Repr

/-- The two stages that cut out a part of the rows. -/
inductive Paging where
  | take
  | skip
deriving DecidableEq, Repr

namespace Paging

/-- The name of the stage. -/
def name : Paging → String
  | take => "Take"
  | skip => "Skip"

/-- The fragment that marks the stage. -/
def fragment : Paging → Fragment
  | take => .take
  | skip => .skip

/-- The parameter that the count is bound to. -/
def paramName : Paging → String
  | take => Param.takeName
  | skip => Param.skipName

end Paging

/-- A query as far as its stages have been walked. -/
structure Draft where
  ast : Ast
  params : List Param
  /-- The number of parameters bound for conditions. -/
  bound : Nat
  shape : Shape
  /-- The column that inequalities have compared. -/
  inequality : Option String

namespace Draft

/-- The draft before the first stage: `SELECT` and `FROM`. -/
def start (s : Schema) (plan : Plan) : Draft where
  ast := Ast.empty.extend [.select, .projection plan.columnText, .source, .kind s.name]
  params := []
  bound := 0
  shape := .empty
  inequality := none

/-- Adds the conditions of a predicate, joined with `AND` to those that are
there. A predicate without conditions adds its marks only. -/
def require (d : Draft) (c : Conjunction) : Draft :=
  let shape := d.shape.union c.shape
  if c.conditions.isEmpty then { d with shape := shape, inequality := c.inequality }
  else
    let joiner := if d.ast.hasCondition then Fragment.and else Fragment.condition
    { ast := (d.ast.push joiner).extend (Condition.clause d.bound c.conditions)
      params := d.params ++ Condition.params d.bound c.conditions
      bound := d.bound + c.conditions.countP Condition.bindsParam
      shape := shape
      inequality := c.inequality }

/-- Walks a predicate and adds what it amounts to. -/
def filter (s : Schema) (d : Draft) (predicate : Expr) : Reading Draft := do
  pure (d.require (← predicate.conditions s d.inequality))

/-- Orders the query. There is at most one ordering, by a field. -/
def orderBy (s : Schema) (d : Draft) (key : Expr) (direction : Direction) :
    Except Error Draft :=
  if d.ast.contains (.orderBy direction) then
    Fault.raise (.unsupportedShape .severalOrderings)
  else
    match key with
    | .member m => do
      let column ← s.column m
      .ok { d with ast := (d.ast.push (.orderBy direction)).push (.orderByField column) }
    | _ => Fault.raise (.unsupportedShape .orderingNotField)

/-- Binds a count to the parameter that is reserved for it. -/
def bindCount (d : Draft) (page : Paging) (n : Int64) : Draft :=
  { d with
    params := d.params ++ [⟨page.paramName, .int64 n⟩]
    ast := d.ast.push page.fragment }

/-- The count of a limit or offset: a constant integer that is not
negative. -/
def count (page : Paging) : Expr → Reading Int64
  | .value v => .ofExcept (natural v)
  | .captured c => do .ofExcept (natural (← c.read))
  | _ => .fail (.invalidPipeline (.countNotConstant page.name))
where
  /-- The value as a count. -/
  natural (v : Value) : Except Error Int64 :=
    match v.asInt? with
    | some n =>
      if 0 ≤ n then .ok (Int64.ofInt n)
      else Fault.raise (.invalidPipeline (.countNotNatural page.name v.described))
    | none => Fault.raise (.invalidPipeline (.countNotNatural page.name v.described))

/-- Limits the query, or lets it start later. The count of a stage that is
ignored is not looked at. -/
def page (mode : Mode) (d : Draft) (page : Paging) (n : Expr) : Reading Draft :=
  if d.ast.contains page.fragment then
    match mode with
    | .strict => .fail (.invalidPipeline (.repeated page.name))
    | .collapsing => pure d
  else do pure (d.bindCount page (← count page n))

/-- The marks that a terminal stage leaves. -/
def terminalMarks : Terminal → List Mark
  | .first => [.isFirst]
  | .firstOrDefault => [.isFirst, .allowDefault]
  | .single => [.isSingle]
  | .singleOrDefault => [.isSingle, .allowDefault]
  | .any => [.isAny]

/-- Limits the query to the rows that a terminal stage needs. -/
def close (d : Draft) (kind : Terminal) : Draft :=
  let d := { d with shape := d.shape.union (.ofMarks (terminalMarks kind)) }
  d.bindCount .take kind.fetchLimit

/-- Walks one stage. The projection has been planned before. -/
def stage (s : Schema) (mode : Mode) (d : Draft) : Stage → Reading Draft
  | .filter predicate => d.filter s predicate
  | .project _ => pure d
  | .orderBy key direction => .ofExcept (d.orderBy s key direction)
  | .take n => d.page mode .take n
  | .skip n => d.page mode .skip n
  | .terminal kind none => pure (d.close kind)
  | .terminal kind (some predicate) => do pure ((← d.filter s predicate).close kind)

/-- The fragments to be written. A query that binds nothing and had a
constant for a condition loses a `WHERE` clause that refers to no
property. -/
def finalAst (d : Draft) : Ast :=
  if d.params.isEmpty && d.shape.has .hasConstantBoolean then d.ast.removeCondition.2 else d.ast

end Draft

/-- The executable form of a pipeline. -/
structure Compiled where
  /-- The kind that is queried. -/
  kind : String
  /-- Query text with the names of parameters. -/
  text : String
  params : List Param
  plan : Plan
  shape : Shape
  terminal : Option Terminal
  ast : Ast

namespace Compiled

/-- The query text with the values of parameters. -/
def displayText (c : Compiled) : Except Error String := c.ast.render (.inline c.params)

/-- The properties that the query refers to: in conditions and the
ordering first, then in the projection. -/
def columns (c : Compiled) : List String := c.ast.members ++ c.plan.columns

end Compiled

namespace Pipeline

/-- Refuses stages that do not go together: a second projection, a limit
beside a terminal stage, and anything after it. -/
def checkStages (stages : List Stage) : Except Error Unit :=
  if 1 < (stages.filterMap Stage.selector?).length then
    Fault.raise (.unsupportedShape .severalProjections)
  else
    match stages.dropWhile fun s => s.terminal?.isNone with
    | [] => .ok ()
    | _ :: after =>
      if (stages.takeWhile fun s => s.terminal?.isNone).any Stage.isTake then
        Fault.raise (.invalidPipeline .takeWithTerminal)
      else
        match after with
        | [] => .ok ()
        | .take _ :: _ => Fault.raise (.invalidPipeline .takeWithTerminal)
        | .terminal _ _ :: _ => Fault.raise (.invalidPipeline .severalTerminals)
        | _ :: _ => Fault.raise (.unsupportedShape .terminalNested)

/-- The plan for the projection of a pipeline. -/
def plan (p : Pipeline) : Except Error Plan :=
  match p.stages.findSome? Stage.selector? with
  | some selector => p.schema.plan selector
  | none => .ok .all

/-- Translates a pipeline. -/
def translate (mode : Mode) (p : Pipeline) : Reading Compiled := do
  Reading.ofExcept (checkStages p.stages)
  let plan ← Reading.ofExcept p.plan
  let d ← p.stages.foldlM (Draft.stage p.schema mode) (Draft.start p.schema plan)
  let text ← Reading.ofExcept (d.finalAst.render .named)
  pure {
    kind := p.schema.name
    text := text
    params := d.params
    plan := plan
    shape := d.shape
    terminal := p.stages.findSome? Stage.terminal?
    ast := d.finalAst }

/-- Translates a pipeline for execution. -/
def compile (p : Pipeline) : Reading Compiled := p.translate .strict

/-- The text of a pipeline for a person, with the values of its
parameters. A repeated limit or offset is ignored. -/
def displayText (p : Pipeline) : Reading String := do
  let c ← p.translate .collapsing
  Reading.ofExcept c.displayText

end Pipeline

end KindQuery
