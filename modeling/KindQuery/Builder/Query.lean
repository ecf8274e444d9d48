import KindQuery.Builder.Selector
import KindQuery.Pipeline
/-!
# Queries

A query over the elements of a model, built stage by stage. Nothing is
checked until the query is translated. What each row is loaded as is
decided by the selector; without one, rows are elements of the model.
-/

namespace KindQuery

/-- A query over the elements `α` of a model, with rows of `β`. -/
structure Query (α β : Type) where
  model : Model α
  stages : List Stage
  /-- The row that the value of the selector stands for. -/
  load : Value → Except Error β

namespace Query

variable {α β γ : Type}

/-- Every element of a model. -/
def all (m : Model α) : Query α α := ⟨m, [], Selector.row.load m⟩

/-- The stages over the schema of the model. -/
def pipeline (q : Query α β) : Pipeline := ⟨q.model.schema, q.stages⟩

/-- A query with one more stage. -/
def push (q : Query α β) (stage : Stage) : Query α β := { q with stages := q.stages ++ [stage] }

/-- Only the elements that satisfy a condition. -/
def filter (q : Query α β) (condition : Term Bool) : Query α β := q.push (.filter condition.expr)

/-- In the order of a field. -/
def orderBy (q : Query α β) (p : Path α γ) (direction : Direction) : Query α β :=
  q.push (.orderBy p.term.expr direction)

/-- At most so many rows. -/
def take (q : Query α β) (count : Term Int64) : Query α β := q.push (.take count.expr)

/-- Without so many rows at the beginning. -/
def skip (q : Query α β) (count : Term Int64) : Query α β := q.push (.skip count.expr)

/-- Changes what each row is. -/
def select (q : Query α β) (s : Selector α γ) : Query α γ :=
  ⟨q.model, q.stages ++ [.project s.lower], s.load q.model⟩

/-- Adds a terminal stage, perhaps with a condition of its own. -/
def terminal (q : Query α β) (kind : Terminal) (condition : Option (Term Bool)) : Query α β :=
  q.push (.terminal kind (condition.map Term.expr))

@[simp] theorem pipeline_push (q : Query α β) (stage : Stage) :
    (q.push stage).pipeline = q.pipeline.push stage :=
  rfl

/-- How a query is built. -/
def outline (q : Query α β) : Outline := .fields "Query" [("pipeline", q.pipeline.outline)]

end Query

end KindQuery
