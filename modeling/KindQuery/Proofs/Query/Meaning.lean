import KindQuery.Proofs.Query.Predicate
import KindQuery.Proofs.Query.Run
/-!
# What a query means

The predicates of a pipeline say which rows are wanted, and the conditions
that are written in the translated query say which rows the store returns.
Both are read here over any row and any way of comparing values, and
`wants_iff_returns` says that they agree.

A predicate is an expression tree, and what is written is a flat sequence
of fragments with named parameters. The two meet in the conditions of the
ledger: a predicate means the conjunction of the conditions that it
amounts to (`holds_iff`), and each of these is written once, with the name
under which its constant is bound (`forall_written_iff`).
-/

namespace KindQuery

/-- The value that each column of a row holds. -/
abbrev Row := String → Value

/-- How values compare. -/
abbrev Comparing := Comparison → Value → Value → Prop

/-- A comparison turned round means the same. -/
def Comparing.Reversible (cmp : Comparing) : Prop :=
  ∀ op x y, cmp op x y ↔ cmp op.reverse y x

/-! ## Predicates -/

/-- A constant beside another operand: beside the key field a text stands
for the key that it names. -/
def Schema.readBeside (s : Schema) : (other : Expr) → Value → Value
  | .member m, .text name => if s.isKeyMember m then .key ⟨s.name, name⟩ else .text name
  | _, v => v

namespace Expr

/-- The value of an operand in a row, beside the other operand. -/
def valueBeside (s : Schema) (row : Row) (e other : Expr) : Option Value :=
  match e with
  | .member m => some (row (s.columnOf m))
  | e => e.constant?.map (s.readBeside other)

mutual

/-- **What a predicate says of a row.** A boolean field says that it is
true and its negation that it is false; a constant says that it is `true`.
What is no predicate holds of no row. -/
def Holds (s : Schema) (cmp : Comparing) (row : Row) : Expr → Prop
  | .value v => v = .bool true
  | .captured c => c.first = .bool true
  | .member m => cmp .eq (row (s.columnOf m)) (.bool true)
  | .negation (.member m) => cmp .eq (row (s.columnOf m)) (.bool false)
  | .negation e => ¬ e.Holds s cmp row
  | .comparison lhs op rhs =>
    ∃ x y, lhs.valueBeside s row rhs = some x ∧ rhs.valueBeside s row lhs = some y ∧ cmp op x y
  | .conjunction es => HoldsAll s cmp row es
  | .disjunction es => HoldsAny s cmp row es
  | .row | .call _ _ _ | .record _ => False

/-- Every one of the predicates holds. -/
def HoldsAll (s : Schema) (cmp : Comparing) (row : Row) : List Expr → Prop
  | [] => True
  | e :: es => e.Holds s cmp row ∧ HoldsAll s cmp row es

/-- Some one of the predicates holds. -/
def HoldsAny (s : Schema) (cmp : Comparing) (row : Row) : List Expr → Prop
  | [] => False
  | e :: es => e.Holds s cmp row ∨ HoldsAny s cmp row es

end

end Expr

/-- What a pipeline says of a row: the predicates of its stages hold. -/
def Pipeline.Wants (p : Pipeline) (cmp : Comparing) (row : Row) : Prop :=
  ∀ st ∈ p.stages, ∀ e ∈ st.predicate?, e.Holds p.schema cmp row

/-! ## Queries -/

/-- What a written condition says of a row. A parameter stands for the
value that is bound to it. -/
def Written.Holds (cmp : Comparing) (row : Row) (params : List Param) (w : Written) : Prop :=
  match w.operand with
  | .param name => ∃ v, Param.find? name params = some v ∧ cmp w.op (row w.column) v
  | .constant text => text = "NULL" ∧ cmp w.op (row w.column) .null
  | _ => False

/-- What a translated query says of a row: every condition that is written
in it holds. -/
def Compiled.Returns (c : Compiled) (cmp : Comparing) (row : Row) : Prop :=
  ∀ w ∈ c.ast.written, w.Holds cmp row c.params

/-! ## Conditions -/

/-- What a condition says of a row. -/
def Condition.Holds (cmp : Comparing) (row : Row) (k : Condition) : Prop :=
  cmp k.op (row k.column) (k.operand.getD .null)

variable {s : Schema} {cmp : Comparing} {row : Row} {i : Option String} {c : Conjunction}

theorem Schema.getD_operandFor {m : Member} {v : Value} {operand : Option Value}
    (h : s.operandFor m v = .ok operand) : operand.getD .null = s.readBeside (.member m) v := by
  rcases Schema.operandFor_eq_ok.1 h with ⟨rfl, rfl⟩ | ⟨-, hk, rfl⟩ | ⟨hk, ⟨name, rfl, rfl⟩ | ⟨k, rfl, rfl⟩⟩
  · rfl
  · cases v <;> simp [Schema.readBeside, hk]
  · simp [Schema.readBeside, hk]
  · rfl

/-- A boolean field amounts to its comparison with the wanted value. -/
theorem boolCondition_holds {m : Member} {wanted : Bool}
    (h : boolCondition s i m wanted = .ok c) :
    (∀ k ∈ c.conditions, k.Holds cmp row) ↔ cmp .eq (row (s.columnOf m)) (.bool wanted) := by
  obtain ⟨column, hc, -, rfl⟩ := boolCondition_eq_ok.1 h
  simp [Condition.Holds, Schema.columnOf_eq hc]

/-- A comparison amounts to one of the member with the constant as it
reads beside it. -/
theorem comparisonCondition_holds {m : Member} {op : Comparison} {v : Value}
    (h : comparisonCondition s i m op v = .ok c) :
    (∀ k ∈ c.conditions, k.Holds cmp row) ↔
      cmp op (row (s.columnOf m)) (s.readBeside (.member m) v) := by
  obtain ⟨column, i', operand, hc, -, ho, rfl⟩ := comparisonCondition_eq_ok.1 h
  simp [Condition.Holds, Schema.columnOf_eq hc, Schema.getD_operandFor ho]

theorem Expr.valueBeside_of_constant? {e other : Expr} {v : Value} (h : e.constant? = some v) :
    e.valueBeside s row other = some (s.readBeside other v) := by
  cases e <;> simp_all [valueBeside, constant?]

namespace Expr

mutual

/-- **A predicate means the conditions that it amounts to.** -/
theorem holds_iff (hcmp : cmp.Reversible) :
    ∀ (e : Expr) {i : Option String} {c : Conjunction}, e.IsConstant →
      (e.conditions s i).now = .ok c →
      ((∀ k ∈ c.conditions, k.Holds cmp row) ↔ e.Holds s cmp row)
  | .value v, i, c, _, h => by
    obtain ⟨rfl, rfl⟩ := constantCondition_eq_ok.1 h
    simp [Holds]
  | .captured k, i, c, hk, h => by
    rw [now_conditions_captured (hk k (by simp [captures]))] at h
    obtain ⟨hv, rfl⟩ := constantCondition_eq_ok.1 h
    simp [Holds, hv]
  | .member m, i, c, _, h => by
    rw [Holds]
    exact boolCondition_holds h
  | .negation e, i, c, hk, h => by
    rcases (now_conditions_negation_eq_ok hk).1 h with ⟨m, rfl, hm⟩ | ⟨hv, rfl⟩
    · rw [Holds]
      exact boolCondition_holds hm
    · cases e <;> simp_all [Holds, constant?]
  | .comparison lhs op rhs, i, c, hk, h => by
    obtain ⟨-, ⟨m, v, rfl, hv, hm⟩ | ⟨m, v, hv, rfl, hm⟩⟩ :=
      (now_conditions_comparison_eq_ok hk).1 h
    · rw [comparisonCondition_holds hm, Holds, valueBeside_of_constant? hv]
      simp [valueBeside]
    · -- The condition has been turned round, and `hcmp` turns it back.
      rw [comparisonCondition_holds hm, Holds, valueBeside_of_constant? hv]
      simp [valueBeside, hcmp op]
  | .conjunction es, i, c, hk, h => by
    rw [Holds]
    exact holdsAll_iff hcmp es hk h
  | .disjunction _, i, c, _, h | .row, i, c, _, h | .call _ _ _, i, c, _, h
  | .record _, i, c, _, h => by simp [conditions] at h

theorem holdsAll_iff (hcmp : cmp.Reversible) :
    ∀ (es : List Expr) {i : Option String} {c : Conjunction},
      (∀ k ∈ capturesOfAll es, k.IsConstant) → (conditionsOfAll s i es).now = .ok c →
      ((∀ k ∈ c.conditions, k.Holds cmp row) ↔ HoldsAll s cmp row es)
  | [], i, c, _, h => by
    cases h
    simp [Conjunction.none, HoldsAll]
  | e :: es, i, c, hk, h => by
    obtain ⟨a, b, ha, hb, rfl⟩ := (now_conditionsOfAll_cons hk).1 h
    obtain ⟨hke, hkes⟩ := forall_mem_capturesOfAll_cons.1 hk
    rw [HoldsAll, ← holds_iff hcmp e hke ha, ← holdsAll_iff hcmp es hkes hb]
    simp [Conjunction.append, or_imp, forall_and]

end

end Expr

/-- A condition that is written says what it did, when its parameter is
bound to its constant. -/
theorem Condition.forall_written_iff {params : List Param} {n : Nat} {cs : List Condition}
    (h : ∀ p ∈ Condition.params n cs, Param.find? p.name params = some p.value) :
    (∀ w ∈ Condition.written n cs, w.Holds cmp row params) ↔ ∀ k ∈ cs, k.Holds cmp row := by
  induction cs generalizing n with
  | nil => simp [written]
  | cons k cs ih =>
    rw [written, List.forall_mem_cons, List.forall_mem_cons]
    -- Only a condition that binds a parameter moves the number on.
    cases hk : k.operand with
    | none =>
      rw [← ih (n := n) (by simpa [Condition.params, hk] using h)]
      simp [bindsParam, hk, Written.Holds, Condition.Holds]
    | some v =>
      simp only [Condition.params, hk, List.forall_mem_cons] at h
      rw [← ih (n := n + 1) h.2]
      simp [bindsParam, hk, Written.Holds, Condition.Holds, h.1]

/-! ## Runs -/

namespace Ledger

variable {mode : Mode} {l l' : Ledger} {log log' : ReadLog}

/-- A stage adds what its predicate says to the conditions. -/
theorem Step.holds_iff (hcmp : cmp.Reversible) {st : Stage}
    (hk : ∀ k ∈ st.captures, k.IsConstant) (h : Step s mode l log st l' log') :
    (∀ k ∈ l'.conditions, k.Holds cmp row) ↔
      (∀ k ∈ l.conditions, k.Holds cmp row) ∧ ∀ e ∈ st.predicate?, e.Holds s cmp row := by
  have hrequire : ∀ {e : Expr} {c : Conjunction} {log₁ : ReadLog}, e.IsConstant →
      (e.conditions s l.inequality).after log = (.ok c, log₁) →
      ((∀ k ∈ (l.require c).conditions, k.Holds cmp row) ↔
        (∀ k ∈ l.conditions, k.Holds cmp row) ∧ e.Holds s cmp row) := by
    intro e c log₁ he hc
    rw [← Expr.holds_iff hcmp e he (Expr.now_conditions he hc)]
    simp [Ledger.require, or_imp, forall_and]
  cases h with
  | filter hc => simpa [Stage.predicate?] using hrequire hk hc
  | filterClose hc => simpa [Stage.predicate?, Ledger.close, setCount] using hrequire hk hc
  | project | orderBy | close => simp [Stage.predicate?, setOrder, Ledger.close, setCount]
  | page hst | repeated hst =>
    have hp : st.predicate? = none := by cases st <;> first | rfl | cases hst
    simp [hp, setCount]

/-- **A run collects what the predicates of its stages say.** -/
theorem Run.holds_iff (hcmp : cmp.Reversible) {stages : List Stage}
    (hk : ∀ st ∈ stages, ∀ k ∈ st.captures, k.IsConstant) (h : Run s mode l log stages l' log') :
    (∀ k ∈ l'.conditions, k.Holds cmp row) ↔
      (∀ k ∈ l.conditions, k.Holds cmp row) ∧
        ∀ st ∈ stages, ∀ e ∈ st.predicate?, e.Holds s cmp row := by
  induction h with
  | nil => simp
  | cons hst _ ih =>
    rw [List.forall_mem_cons] at hk ⊢
    rw [ih hk.2, hst.holds_iff hcmp hk.1, and_assoc]

end Ledger

/-! ## Translations -/

namespace Pipeline

variable {p : Pipeline} {mode : Mode} {log log' : ReadLog} {q : Compiled}

/-- **A translated query returns the rows that its pipeline wants**,
however values compare. It has a `WHERE` exactly when a condition is
written in it, and taking away an empty one took nothing away. -/
theorem wants_iff_returns (hp : p.IsConstant) (h : (p.translate mode).after log = (.ok q, log')) :
    (∀ (cmp : Comparing) (row : Row), cmp.Reversible → (p.Wants cmp row ↔ q.Returns cmp row)) ∧
      (q.ast.hasCondition = true ↔ q.ast.written ≠ []) ∧
      ∃ plan d, p.plan = .ok plan ∧
        Reading.after (p.stages.foldlM (Draft.stage p.schema mode) (.start p.schema plan)) log =
          (.ok d, log') ∧ q.ast = d.ast := by
  obtain ⟨plan, d, l, hq⟩ := exists_behind h
  refine ⟨fun cmp row hcmp => ?_, ?_, plan, d, hq.planned, hq.walked, hq.ast⟩
  · -- The conditions of the ledger stand between the predicates and the query.
    have hfind : ∀ x ∈ Condition.params 0 l.conditions,
        Param.find? x.name d.params = some x.value := by
      intro x hx
      rw [← hq.keeps.numbered] at hx
      exact hq.keeps.find?_name (List.mem_filter.1 hx).1
    rw [Compiled.Returns, hq.ast, hq.params, hq.keeps.written]
    refine Iff.trans ?_ (Condition.forall_written_iff hfind).symm
    rw [hq.run.holds_iff hcmp hp, Wants]
    simp [Ledger.start]
  · rw [hq.ast, hq.keeps.hasCondition_eq, hq.keeps.written]
    cases l.conditions <;> simp [Condition.written]

theorem sample_wants_iff_returns :
    ∃ q log', sample.IsConstant ∧ (sample.translate .strict).after [] = (.ok q, log') ∧
      ∀ (cmp : Comparing) (row : Row), cmp.Reversible →
        (sample.Wants cmp row ↔ q.Returns cmp row) := by
  obtain ⟨q, log', h⟩ : ∃ q log', (sample.translate .strict).after [] = (.ok q, log') :=
    ⟨_, _, rfl⟩
  exact ⟨q, log', isConstant_sample, h, (wants_iff_returns isConstant_sample h).1⟩

end Pipeline

end KindQuery
