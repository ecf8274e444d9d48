import KindQuery.Query.Ast
import KindQuery.Query.Param
import KindQuery.Query.Shape
import KindQuery.Reading
/-!
# Conditions

The store answers for a conjunction of conditions, each of which compares
one column with one constant. A predicate is translated by walking it from
left to right: comparisons and boolean fields each give one condition,
conjunctions join what their operands give, and the constant `true` gives
nothing. All else is refused.
-/

namespace KindQuery

/-- A comparison of a column with a constant, or with `NULL`. -/
structure Condition where
  column : String
  op : Comparison
  operand : Option Value

/-- What a predicate amounts to: its conditions, the marks it leaves, and
the one column that inequalities have compared so far. -/
structure Conjunction where
  conditions : List Condition
  shape : Shape
  inequality : Option String

namespace Conjunction

/-- No condition, and no marks. -/
def none (inequality : Option String) : Conjunction := ⟨[], .empty, inequality⟩

/-- Both conjunctions, the second of which was walked after the first. -/
def append (a b : Conjunction) : Conjunction :=
  ⟨a.conditions ++ b.conditions, a.shape.union b.shape, b.inequality⟩

end Conjunction

/-- The column that a member reads. The key field is read from the key
column. -/
def Schema.column (s : Schema) (m : Member) : Except Error String :=
  match m.name? with
  | none => Fault.raise (.unsupportedShape (.nestedMember m.dotted))
  | some name =>
    if (s.field? name).isNone then
      Fault.raise (.unsupportedShape (.unknownField name s.name))
    else if s.isKey name then .ok keyColumn
    else .ok name

/-- Is the member a field that holds booleans? -/
def Schema.isBoolMember (s : Schema) (m : Member) : Bool :=
  match m.name?.bind s.field? with
  | some (_, f) => f.type.isBool
  | none => false

/-- Is the member the key field? -/
def Schema.isKeyMember (s : Schema) (m : Member) : Bool :=
  match m.name? with
  | some name => s.isKey name
  | none => false

/-- The refusal of a method call. -/
def callFault (receiver : Expr) (name : String) : Fault :=
  .unsupportedShape (.call name (match receiver with
    | .member m => m.dotted
    | _ => "expression"))

/-- A constant in the place of a condition. Only `true` is accepted. -/
def constantCondition (inequality : Option String) : Value → Except Error Conjunction
  | .bool true => .ok ⟨[], .ofMarks [.hasConstantBoolean], inequality⟩
  | .bool false => Fault.raise (.invalidPipeline .alwaysFalse)
  | v => Fault.raise (.invalidPipeline (.notCondition v.described))

/-- A boolean field in the place of a condition: it is compared with the
value that it is to have. -/
def boolCondition (s : Schema) (inequality : Option String) (m : Member) (wanted : Bool) :
    Except Error Conjunction := do
  let column ← s.column m
  if s.isBoolMember m then
    .ok ⟨[⟨column, .eq, some (.bool wanted)⟩], .ofMarks [.hasMember], inequality⟩
  else Fault.raise (.unsupportedShape (.notBoolean m.dotted))

/-- The negation of a constant in the place of a condition. -/
def negatedConstant (inequality : Option String) : Value → Except Error Conjunction
  | .bool b => constantCondition inequality (.bool !b)
  | v => constantCondition inequality v

/-! ## Comparisons -/

/-- One side of a comparison. -/
inductive Operand where
  | member (m : Member)
  | constant (v : Value)
  | call (receiver : Expr) (name : String)
  | other

/-- Which kind of operand an expression is. A captured value is read. -/
def Expr.operand : Expr → Reading Operand
  | .member m => pure (.member m)
  | .value v => pure (.constant v)
  | .captured c => do pure (.constant (← c.read))
  | .call receiver name _ => pure (.call receiver name)
  | _ => pure .other

/-- The constant that the key column is compared with: a text stands for
the key of that name. -/
def Schema.keyOperand (s : Schema) : Value → Except Error Value
  | .text name => .ok (.key ⟨s.name, name⟩)
  | .key k => .ok (.key k)
  | v => Fault.raise (.conversion v.described "String key")

/-- The constant that a member is compared with; `none` stands for
`NULL`. -/
def Schema.operandFor (s : Schema) (m : Member) (v : Value) : Except Error (Option Value) :=
  if v.isNull then .ok none
  else if s.isKeyMember m then (s.keyOperand v).map some
  else .ok (some v)

/-- Notes the column of an inequality. All inequalities of a query must
compare the same one. -/
def trackInequality (inequality : Option String) (op : Comparison) (column : String) :
    Except Error (Option String) :=
  if op.isInequality then
    match inequality with
    | some first =>
      if first = column then .ok (some column)
      else Fault.raise (.unsupportedShape (.severalInequalities first column))
    | none => .ok (some column)
  else .ok inequality

/-- The comparison of a member with a constant. -/
def comparisonCondition (s : Schema) (inequality : Option String) (m : Member)
    (op : Comparison) (v : Value) : Except Error Conjunction := do
  let column ← s.column m
  let inequality ← trackInequality inequality op column
  let operand ← s.operandFor m v
  let marks := if op.isInequality then [.hasMember, .hasInequality] else [.hasMember]
  .ok ⟨[⟨column, op, operand⟩], .ofMarks marks, inequality⟩

/-- The comparison of two operands. One must be a member and the other a
constant; if the constant comes first, the comparison is turned round. -/
def operandsCondition (s : Schema) (inequality : Option String) (op : Comparison) :
    Operand → Operand → Except Error Conjunction
  | .member m, .constant v => comparisonCondition s inequality m op v
  | .constant v, .member m => comparisonCondition s inequality m op.reverse v
  | .member a, .member b =>
    Fault.raise (.unsupportedShape (.fieldsCompared a.dotted b.dotted))
  | .call receiver name, _ => (callFault receiver name).raise
  | _, .call receiver name => (callFault receiver name).raise
  | _, _ => Fault.raise (.unsupportedShape .operands)

/-! ## Predicates -/

mutual

/-- What a predicate amounts to, after inequalities have compared the given
column. -/
def Expr.conditions (s : Schema) (inequality : Option String) : Expr → Reading Conjunction
  | .value v => .ofExcept (constantCondition inequality v)
  | .captured c => do .ofExcept (constantCondition inequality (← c.read))
  | .member m => .ofExcept (boolCondition s inequality m true)
  | .negation (.member m) => .ofExcept (boolCondition s inequality m false)
  | .negation (.value (.bool b)) => .ofExcept (constantCondition inequality (.bool !b))
  | .negation (.captured c) => do .ofExcept (negatedConstant inequality (← c.read))
  | .negation _ => .fail (.unsupportedShape .negation)
  | .conjunction operands => Expr.conditionsOfAll s inequality operands
  | .disjunction _ => .fail (.unsupportedShape .disjunction)
  | .comparison _ .ne _ => .fail (.unsupportedShape .inequation)
  | .comparison lhs op rhs => do
    let l ← lhs.operand
    let r ← rhs.operand
    .ofExcept (operandsCondition s inequality op l r)
  | .call receiver name _ => .fail (callFault receiver name)
  | .row | .record _ => .fail (.unsupportedShape .notComparison)

/-- What the operands of a conjunction amount to, from left to right. -/
def Expr.conditionsOfAll (s : Schema) (inequality : Option String) :
    List Expr → Reading Conjunction
  | [] => pure (.none inequality)
  | e :: es => do
    let a ← Expr.conditions s inequality e
    let b ← Expr.conditionsOfAll s a.inequality es
    pure (a.append b)

end

/-! ## Fragments -/

namespace Condition

/-- Is a parameter bound for the condition? -/
def bindsParam (c : Condition) : Bool := c.operand.isSome

/-- The fragments of a condition, whose parameter has number `n`. -/
def fragments (n : Nat) (c : Condition) : List Fragment :=
  [.member c.column, .operator c.op,
    if c.bindsParam then .param (Param.numberedName n) else .constant "NULL"]

/-- The fragments of conditions with `AND` between them, when `n`
parameters have been bound before. -/
def clause (n : Nat) : List Condition → List Fragment
  | [] => []
  | [c] => c.fragments (n + 1)
  | c :: cs => c.fragments (n + 1) ++ .and :: clause (if c.bindsParam then n + 1 else n) cs

/-- The parameters that conditions bind, when `n` have been bound
before. -/
def params (n : Nat) : List Condition → List Param
  | [] => []
  | c :: cs =>
    match c.operand with
    | some v => ⟨Param.numberedName (n + 1), v⟩ :: params (n + 1) cs
    | none => params n cs

theorem clause_cons {n : Nat} {c : Condition} {cs : List Condition} (h : cs ≠ []) :
    clause n (c :: cs) =
      c.fragments (n + 1) ++ .and :: clause (if c.bindsParam then n + 1 else n) cs := by
  cases cs with
  | nil => exact absurd rfl h
  | cons => rfl

theorem countP_bindsParam_cons (n : Nat) (c : Condition) (cs : List Condition) :
    n + (c :: cs).countP bindsParam =
      (if c.bindsParam then n + 1 else n) + cs.countP bindsParam := by
  rw [List.countP_cons]
  split <;> omega

theorem clause_append {n : Nat} {xs ys : List Condition} (hx : xs ≠ []) (hy : ys ≠ []) :
    clause n (xs ++ ys) = clause n xs ++ .and :: clause (n + xs.countP bindsParam) ys := by
  induction xs generalizing n with
  | nil => exact absurd rfl hx
  | cons x xs ih =>
    rw [List.cons_append, clause_cons (by simp [hy]), countP_bindsParam_cons]
    by_cases hxs : xs = []
    · subst hxs; rfl
    · rw [ih hxs, clause_cons hxs, List.append_assoc, List.cons_append]

theorem params_append {n : Nat} {xs ys : List Condition} :
    params n (xs ++ ys) = params n xs ++ params (n + xs.countP bindsParam) ys := by
  induction xs generalizing n with
  | nil => simp [params]
  | cons x xs ih =>
    rw [countP_bindsParam_cons]
    cases hx : x.operand <;> simp [params, hx, ih, bindsParam]

/-- Nothing in a clause is a singleton. -/
theorem isSingleton_of_mem_clause {n : Nat} {cs : List Condition} {f : Fragment}
    (h : f ∈ clause n cs) : f.isSingleton = false := by
  have hc : ∀ m (c : Condition), f ∈ c.fragments m → f.isSingleton = false := by
    intro m c hf
    cases hb : c.bindsParam <;> simp [fragments, hb] at hf <;> rcases hf with rfl | rfl | rfl <;> rfl
  induction cs generalizing n with
  | nil => simp [clause] at h
  | cons c cs ih =>
    by_cases hcs : cs = []
    · subst hcs; exact hc _ c h
    · rw [clause_cons hcs, List.mem_append, List.mem_cons] at h
      rcases h with h | rfl | h
      · exact hc _ c h
      · rfl
      · exact ih h

end Condition

end KindQuery
