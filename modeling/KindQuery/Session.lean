import KindQuery.Builder.Query
import KindQuery.Codec.Project
import KindQuery.Config
import KindQuery.Query.Bind
import KindQuery.Session.Transport
/-!
# Sessions

Running queries against a store. A query is translated anew each time it
is run; the advisor is told of it, its parameters are bound, and one
request is sent. A query that fails before that sends nothing.

The calls differ in how many rows they accept. Rows beyond the first are
never read by a call that returns one row.
-/

namespace KindQuery

/-- What a session works with. The store has states `τ` and the advisor
states `σ`. -/
structure Session (τ σ : Type) where
  transport : Transport τ
  advise : Compiled → σ → Except Error Unit × σ
  config : Config

/-- What changes while a session works. -/
structure Session.State (τ σ : Type) where
  store : τ
  advisor : σ
  /-- The captured values that have been read. -/
  reads : ReadLog
  /-- Candidates for new keys. -/
  tokens : List String

/-- Something that a session does, and that may fail. -/
abbrev Session.Action (τ σ α : Type) := ExceptT Error (StateM (Session.State τ σ)) α

namespace Session

variable {τ σ α β : Type}

/-- A computation that reads captured values. -/
def reading (r : Reading α) : Action τ σ α := fun st =>
  let (result, reads) := r st.reads
  (result, { st with reads := reads })

/-- Tells the advisor of a query. -/
def consult (s : Session τ σ) (c : Compiled) : Action τ σ Unit := fun st =>
  let (result, advisor) := s.advise c st.advisor
  (result, { st with advisor := advisor })

/-- Sends a request. -/
def send (s : Session τ σ) (q : BoundQuery) : Action τ σ (List Entity) := fun st =>
  let (result, store) := s.transport.run q st.store
  (result, { st with store := store })

/-- Translates a pipeline and sends it; the rows are not read. -/
def fetch (s : Session τ σ) (p : Pipeline) : Action τ σ (Compiled × List Entity) := do
  let c ← reading p.compile
  s.consult c
  let q ← ExceptT.mk (pure c.bind)
  let rows ← s.send q
  pure (c, rows)

/-- The row of a query that an entity stands for. -/
def readRow (q : Query α β) (plan : Plan) (row : Entity) : Reading β := do
  let v ← plan.selector.project q.model.catalog q.model.schema row
  .ofExcept (q.load v)

/-! ## Calls -/

/-- All rows of a query. The first row that cannot be read is the error. -/
def all (s : Session τ σ) (q : Query α β) : Action τ σ (List β) := do
  let (c, rows) ← s.fetch q.pipeline
  reading (rows.mapM (readRow q c.plan))

/-- There is no row where one is wanted. -/
def noElements : Error := .of (.notFound "sequence contains no elements")

/-- There is a second row where one is wanted. -/
def manyElements : Error := .of (.tooMany "sequence contains more than one element")

/-- The row that a terminal stage of the given kind lets through. -/
def oneRow (s : Session τ σ) (q : Query α β) (kind : Terminal) : Action τ σ (Option β) := do
  let (c, rows) ← s.fetch (q.terminal kind none).pipeline
  match rows with
  | [] => if kind.allowsDefault then pure none else throw noElements
  | row :: others =>
    if kind.isSingle && !others.isEmpty then throw manyElements
    else return some (← reading (readRow q c.plan row))

/-- The row that must be there. -/
def required (row : Option β) : Action τ σ β :=
  match row with
  | some b => pure b
  | none => throw noElements

/-- The first row. There must be one. -/
def first (s : Session τ σ) (q : Query α β) : Action τ σ β := do
  required (← s.oneRow q .first)

/-- The first row, if there is one. -/
def firstOrDefault (s : Session τ σ) (q : Query α β) : Action τ σ (Option β) :=
  s.oneRow q .firstOrDefault

/-- The only row. There must be one, and no other. -/
def single (s : Session τ σ) (q : Query α β) : Action τ σ β := do
  required (← s.oneRow q .single)

/-- The only row, if there is one. There must be no other. -/
def singleOrDefault (s : Session τ σ) (q : Query α β) : Action τ σ (Option β) :=
  s.oneRow q .singleOrDefault

/-- Is there a row? -/
def any (s : Session τ σ) (q : Query α β) : Action τ σ Bool := do
  let (_, rows) ← s.fetch (q.terminal .any none).pipeline
  pure !rows.isEmpty

/-- Translates a query without sending it. -/
def compile (q : Query α β) : Action τ σ Compiled := reading q.pipeline.compile

/-- The text of a query for a person. -/
def displayText (q : Query α β) : Action τ σ String := reading q.pipeline.displayText

/-- Asks the store whether a key is taken. -/
def exists? (s : Session τ σ) (k : Key) : Action τ σ Bool := fun st =>
  let (result, store) := s.transport.lookup k st.store
  (result, { st with store := store })

/-- Encodes elements, giving keys to those that lack one. The elements are
returned as they are afterwards, also when encoding fails. -/
def encodeWithKeys (s : Session τ σ) (m : Model α) (as : List α) :
    StateM (State τ σ) (Except Stop (List Entity) × List α) := fun st =>
  let done := m.encodeWithKeys s.transport.lookup s.config.checksNewKeys as
    ⟨st.tokens, [], st.store⟩
  ((done.result, done.element),
    { st with store := done.supply.store, tokens := done.supply.tokens })

end Session

end KindQuery
