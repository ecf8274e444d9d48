import KindQuery.Value.Text
/-!
# Expressions

Predicates, orderings, counts and selectors of a query are expressions
over the row it is asked about. A constant is either literal or
*captured*: a captured value is read from its surroundings each time it
is needed, and may be another one each time.
-/

namespace KindQuery

/-- A comparison between two operands. -/
inductive Comparison where
  | eq
  | ne
  | ge
  | gt
  | le
  | lt
deriving DecidableEq, Repr

namespace Comparison

/-- The comparison as query text. -/
def symbol : Comparison → String
  | eq => "="
  | ne => "!="
  | ge => ">="
  | gt => ">"
  | le => "<="
  | lt => "<"

/-- Is it one of `<`, `<=`, `>` and `>=`? -/
def isInequality : Comparison → Bool
  | ge | gt | le | lt => true
  | _ => false

/-- The comparison that means the same with its operands exchanged. -/
def reverse : Comparison → Comparison
  | eq => eq
  | ne => ne
  | ge => le
  | gt => lt
  | le => ge
  | lt => gt

theorem reverse_reverse (op : Comparison) : op.reverse.reverse = op := by cases op <;> rfl

@[simp] theorem isInequality_reverse (op : Comparison) :
    op.reverse.isInequality = op.isInequality := by cases op <;> rfl

end Comparison

/-- A field of the row, or a chain of fields through nested records. -/
structure Member where
  path : List String
deriving DecidableEq, Repr

namespace Member

/-- The name of the one field that is meant; a chain has none. -/
def name? (m : Member) : Option String :=
  match m.path with
  | [name] => some name
  | _ => none

/-- The path with dots between its names. -/
def dotted (m : Member) : String := String.intercalate "." m.path

end Member

/-! ## Captured values -/

/-- A value that is read when it is needed. The first reading gives
`first`, the following ones the values of `later`; the last value is then
read for ever. The mark `id` tells one captured value from another. -/
structure Captured where
  id : Nat
  first : Value
  later : List Value

/-- Which captured values have been read, in the order of the readings. -/
abbrev ReadLog := List Nat

namespace Captured

/-- The value of the reading that comes after `n` others, when `v` is the
next one and `later` follow it. -/
def answerFrom (v : Value) : (later : List Value) → (n : Nat) → Value
  | w :: later, n + 1 => answerFrom w later n
  | _, _ => v

/-- The value of the reading that comes after `n` others. -/
def answer (c : Captured) (n : Nat) : Value := answerFrom c.first c.later n

/-- The value of the next reading after those of a log. -/
def next (c : Captured) (log : ReadLog) : Value := c.answer (log.count c.id)

/-- A captured value that is the same at each reading. -/
def IsConstant (c : Captured) : Prop := ∀ v ∈ c.later, v = c.first

theorem answerFrom_of_forall {v : Value} {later : List Value} (h : ∀ w ∈ later, w = v)
    (n : Nat) : answerFrom v later n = v := by
  induction later generalizing n with
  | nil => simp [answerFrom]
  | cons w later ih =>
    cases n with
    | zero => simp [answerFrom]
    | succ n =>
      have hw : w = v := h w (by simp)
      subst hw
      simpa [answerFrom] using ih (fun x hx => h x (by simp [hx])) n

theorem answer_of_isConstant {c : Captured} (h : c.IsConstant) (n : Nat) :
    c.answer n = c.first :=
  answerFrom_of_forall h n

end Captured

/-! ## Expressions -/

/-- An expression over the bound row. -/
inductive Expr where
  /-- The row itself. -/
  | row
  | member (m : Member)
  | value (v : Value)
  | captured (c : Captured)
  | negation (operand : Expr)
  | comparison (lhs : Expr) (op : Comparison) (rhs : Expr)
  | conjunction (operands : List Expr)
  | disjunction (operands : List Expr)
  /-- A method called on an expression, such as a test for containment. -/
  | call (receiver : Expr) (name : String) (args : List Expr)
  /-- A record built from other expressions. -/
  | record (fields : List Expr)

namespace Expr

/-- A field of the row. -/
def field (name : String) : Expr := .member ⟨[name]⟩

/-- The operands of a conjunction; any other expression stands alone. -/
def conjuncts : Expr → List Expr
  | conjunction operands => operands
  | e => [e]

/-- The operands of a disjunction; any other expression stands alone. -/
def disjuncts : Expr → List Expr
  | disjunction operands => operands
  | e => [e]

/-- A conjunction of two expressions, which takes in the operands of
conjunctions. -/
def and (lhs rhs : Expr) : Expr := .conjunction (lhs.conjuncts ++ rhs.conjuncts)

/-- A disjunction of two expressions, which takes in the operands of
disjunctions. -/
def or (lhs rhs : Expr) : Expr := .disjunction (lhs.disjuncts ++ rhs.disjuncts)

mutual

/-- The captured values of an expression, from left to right. -/
def captures : Expr → List Captured
  | row | member _ | value _ => []
  | captured c => [c]
  | negation e => e.captures
  | comparison lhs _ rhs => lhs.captures ++ rhs.captures
  | conjunction es | disjunction es | record es => capturesOfAll es
  | call receiver _ args => receiver.captures ++ capturesOfAll args

/-- The captured values of several expressions. -/
def capturesOfAll : List Expr → List Captured
  | [] => []
  | e :: es => e.captures ++ capturesOfAll es

end

/-- An expression whose captured values are the same at each reading. -/
def IsConstant (e : Expr) : Prop := ∀ c ∈ e.captures, c.IsConstant

/-- The constant that an expression is, literally or as a captured value
that is the same at each reading. -/
def constant? : Expr → Option Value
  | value v => some v
  | captured c => some c.first
  | _ => none

/-- The boolean that an expression is literally. -/
def asBool? : Expr → Option Bool
  | value (.bool b) => some b
  | _ => none

/-! ## Outlines -/

/-- The outline of a member. -/
def memberOutline (m : Member) : Outline :=
  .fields "ExprMember" [("path", .items (m.path.map .ofText))]

mutual

/-- How an expression is built. What a captured value holds is not
shown. -/
def outline : Expr → Outline
  | row => .leaf "Row"
  | member m => .call "Member" [memberOutline m]
  | value v => .call "Value" [v.outline]
  | captured _ => .call "Captured" [.leaf "Captured(..)"]
  | negation e => .call "Not" [e.outline]
  | comparison lhs op rhs =>
    .call "BinaryOp" [.fields "ExprBinaryOp"
      [("lhs", lhs.outline), ("op", .leaf op.symbol), ("rhs", rhs.outline)]]
  | conjunction es => .call "And" [.fields "ExprAnd" [("operands", .items (outlineEach es))]]
  | disjunction es => .call "Or" [.fields "ExprOr" [("operands", .items (outlineEach es))]]
  | call receiver name args =>
    .call "Method" [.fields "ExprMethod"
      [("receiver", receiver.outline), ("name", .ofText name),
        ("args", .items (outlineEach args))]]
  | record fields =>
    .call "Record" [.fields "ExprRecord" [("fields", .items (outlineEach fields))]]

/-- The outlines of the expressions in a list. -/
def outlineEach : List Expr → List Outline
  | [] => []
  | e :: es => e.outline :: outlineEach es

end

end Expr

end KindQuery
