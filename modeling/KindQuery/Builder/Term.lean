import KindQuery.Value.Convert
import KindQuery.Expr
/-!
# Terms

Expressions that know the type of their value. A *path* names a field of
the elements of a type; comparing it with a term gives a condition. What
the types say is not part of the expression, so a term is checked like
any other expression when its query is translated.
-/

namespace KindQuery

/-- A field of the elements of `α` that holds a `β`. -/
structure Path (α β : Type) where
  name : String
deriving DecidableEq, Repr

/-- An expression whose value is a `β`. -/
structure Term (β : Type) where
  expr : Expr

namespace Term

variable {β : Type}

/-- A constant. -/
def of [Primitive β] (b : β) : Term β := ⟨.value (Primitive.toValue b)⟩

/-- A constant that may be absent. Comparing with nothing compares with
`NULL`. -/
def ofOption [Primitive β] (b : Option β) : Term β := ⟨.value (Primitive.ofOption b)⟩

/-- A value that is read whenever the query is translated. The mark `id`
tells it from other captured values. -/
def captured [Primitive β] (id : Nat) (first : β) (later : List β) : Term β :=
  ⟨.captured ⟨id, Primitive.toValue first, later.map Primitive.toValue⟩⟩

/-- Both conditions hold. -/
def and (lhs rhs : Term Bool) : Term Bool := ⟨lhs.expr.and rhs.expr⟩

/-- One of the conditions holds. No query with it can be translated. -/
def or (lhs rhs : Term Bool) : Term Bool := ⟨lhs.expr.or rhs.expr⟩

/-- The condition does not hold. -/
def not (t : Term Bool) : Term Bool := ⟨.negation t.expr⟩

end Term

namespace Path

variable {α β : Type}

/-- The value of the field. -/
def term (p : Path α β) : Term β := ⟨.field p.name⟩

/-- The field compares with a term. -/
def compare (p : Path α β) (op : Comparison) (t : Term β) : Term Bool :=
  ⟨.comparison p.term.expr op t.expr⟩

/-- The field contains an item. No query with it can be translated. -/
def contains (p : Path α β) (item : Value) : Term Bool :=
  ⟨.call p.term.expr "contains" [.value item]⟩

/-- A path as messages show it. -/
def described (p : Path α β) : String := "Path(" ++ p.name ++ ")"

end Path

end KindQuery
