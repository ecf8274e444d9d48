import KindQuery.Builder.Term
import KindQuery.Model
/-!
# Selectors

The shape of each row of a result: a whole element, a field, a constant,
or a tuple of such. A selector has two readings. It *lowers* to the
expression that is evaluated for each row, and it *loads* what that
expression gave as an element of its type. A tuple lowers to a record of
its parts, and loads each part from the place of the record that it has
lowered to.
-/

namespace KindQuery

/-- What is selected from a row about an `α`; the result is a `β`. -/
inductive Selector (α : Type) : Type → Type 1 where
  /-- The whole element. -/
  | row : Selector α α
  /-- The value of a field. -/
  | path {β : Type} [Primitive β] (p : Path α β) : Selector α β
  /-- A constant, the same for every row. -/
  | literal {β : Type} [Primitive β] (b : β) : Selector α β
  /-- The value of any expression, as it is. -/
  | value (e : Expr) : Selector α Value
  | pair {β γ : Type} (first : Selector α β) (second : Selector α γ) : Selector α (β × γ)
  | triple {β γ δ : Type} (first : Selector α β) (second : Selector α γ)
      (third : Selector α δ) : Selector α (β × γ × δ)

namespace Selector

variable {α : Type}

/-- The expression that is evaluated for each row. -/
def lower {β : Type} : Selector α β → Expr
  | row => .row
  | path p => p.term.expr
  | literal b => .value (Primitive.toValue b)
  | value e => e
  | pair a b => .record [a.lower, b.lower]
  | triple a b c => .record [a.lower, b.lower, c.lower]

/-- Loads the value that the expression has for a row. -/
def load (m : Model α) {β : Type} : Selector α β → Value → Except Error β
  | row, v => do m.load (← v.toRecord)
  | path _, v => Primitive.load v
  | literal _, v => Primitive.load v
  | value _, v => .ok v
  | pair a b, v => do
    let r ← v.toRecord
    let x ← a.load m (r.take 0).1
    let y ← b.load m (r.take 1).1
    .ok (x, y)
  | triple a b c, v => do
    let r ← v.toRecord
    let x ← a.load m (r.take 0).1
    let y ← b.load m (r.take 1).1
    let z ← c.load m (r.take 2).1
    .ok (x, y, z)

end Selector

end KindQuery
