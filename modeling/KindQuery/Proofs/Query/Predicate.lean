import KindQuery.Query.Condition
/-!
# Predicates

When each form of a predicate is accepted, and which conditions it then
amounts to. Translating a predicate is settled if its captured values are
constant, so that the equations here do without logs of readings.
-/

namespace KindQuery

variable {s : Schema} {i : Option String} {c : Conjunction} {m : Member} {v : Value}

/-! ## Leaves -/

/-- A member reads a column when it is a single field of the schema. -/
theorem Schema.column_eq_ok {column : String} :
    s.column m = .ok column ↔
      ∃ name, m.name? = some name ∧ (s.field? name).isSome ∧
        column = if s.isKey name then keyColumn else name := by
  unfold Schema.column
  cases hn : m.name? with
  | none => simp
  | some name =>
    cases hf : s.field? name with
    | none => simp [hf]
    | some f =>
      simp only [hf, Option.isNone_some, Bool.false_eq_true, if_false, Option.some.injEq,
        exists_eq_left', Option.isSome_some, true_and]
      cases s.isKey name <;> exact ⟨fun h => (Except.ok.inj h).symm, fun h => by rw [h]; rfl⟩

/-- The column that a member means. -/
def Schema.columnOf (s : Schema) (m : Member) : String :=
  if s.isKeyMember m then keyColumn else m.dotted

theorem Member.path_of_name? {m : Member} {name : String} (h : m.name? = some name) :
    m.path = [name] := by
  obtain ⟨path⟩ := m
  match path, h with
  | [_], rfl => rfl

theorem Member.dotted_of_name? {m : Member} {name : String} (h : m.name? = some name) :
    m.dotted = name := by
  rw [dotted, path_of_name? h, String.intercalate_singleton]

theorem Schema.columnOf_eq {m : Member} {column : String} (h : s.column m = .ok column) :
    s.columnOf m = column := by
  obtain ⟨name, hn, -, rfl⟩ := Schema.column_eq_ok.1 h
  simp [Schema.columnOf, Schema.isKeyMember, hn, Member.dotted_of_name? hn]

theorem constantCondition_eq_ok :
    constantCondition i v = .ok c ↔
      v = .bool true ∧ c = ⟨[], .ofMarks [.hasConstantBoolean], i⟩ := by
  match v with
  | .bool true => simp [constantCondition, eq_comm]
  | .bool false => simp [constantCondition]
  | .null | .int16 _ | .int32 _ | .int64 _ | .double _ | .decimal _ | .text _ | .instant _
  | .bytes _ | .variant _ | .key _ | .list _ | .map _ | .record _ => simp [constantCondition]

theorem negatedConstant_eq_ok :
    negatedConstant i v = .ok c ↔
      v = .bool false ∧ c = ⟨[], .ofMarks [.hasConstantBoolean], i⟩ := by
  match v with
  | .bool true => simp [negatedConstant, constantCondition]
  | .bool false => simp [negatedConstant, constantCondition, eq_comm]
  | .null | .int16 _ | .int32 _ | .int64 _ | .double _ | .decimal _ | .text _ | .instant _
  | .bytes _ | .variant _ | .key _ | .list _ | .map _ | .record _ =>
    simp [negatedConstant, constantCondition]

theorem boolCondition_eq_ok {wanted : Bool} :
    boolCondition s i m wanted = .ok c ↔
      ∃ column, s.column m = .ok column ∧ s.isBoolMember m = true ∧
        c = ⟨[⟨column, .eq, some (.bool wanted)⟩], .ofMarks [.hasMember], i⟩ := by
  simp only [boolCondition, bind_eq_ok]
  cases s.isBoolMember m <;> simp [eq_comm]

theorem comparisonCondition_eq_ok {op : Comparison} :
    comparisonCondition s i m op v = .ok c ↔
      ∃ column i' operand, s.column m = .ok column ∧ trackInequality i op column = .ok i' ∧
        s.operandFor m v = .ok operand ∧
        c = ⟨[⟨column, op, operand⟩],
          .ofMarks (if op.isInequality then [.hasMember, .hasInequality] else [.hasMember]), i'⟩ := by
  simp only [comparisonCondition, bind_eq_ok, Except.ok.injEq]
  constructor
  · rintro ⟨column, hc, i', hi, operand, ho, rfl⟩
    exact ⟨column, i', operand, hc, hi, ho, rfl⟩
  · rintro ⟨column, i', operand, hc, hi, ho, rfl⟩
    exact ⟨column, hc, i', hi, operand, ho, rfl⟩

/-- The constants that a member may be compared with: all but for the key
field, which takes `NULL`, a text that names a key, or a key. -/
theorem Schema.operandFor_eq_ok {operand : Option Value} :
    s.operandFor m v = .ok operand ↔
      (v = .null ∧ operand = none) ∨
      (v.isNull = false ∧ s.isKeyMember m = false ∧ operand = some v) ∨
      (s.isKeyMember m = true ∧
        ((∃ name, v = .text name ∧ operand = some (.key ⟨s.name, name⟩)) ∨
          ∃ k, v = .key k ∧ operand = some (.key k))) := by
  cases hk : s.isKeyMember m <;> cases v <;>
    simp [Schema.operandFor, Schema.keyOperand, Value.isNull, hk, Except.map, Fault.raise, eq_comm]

/-! ## Operands -/

/-- The kind of operand that an expression with constant captured values
is. -/
def Expr.settledOperand : Expr → Operand
  | .member m => .member m
  | .value v => .constant v
  | .captured c => .constant c.first
  | .call receiver name _ => .call receiver name
  | _ => .other

theorem Expr.settled_operand {e : Expr} (h : e.IsConstant) :
    e.operand.Settled ∧ e.operand.now = .ok e.settledOperand := by
  cases e with
  | captured c =>
    have hb := (Reading.settled_read (h c (by simp [captures]))).bind fun v =>
      Reading.settled_pure (Operand.constant v)
    exact ⟨hb.1, by rw [Expr.operand, hb.2, Reading.now_read]; rfl⟩
  | _ => exact ⟨Reading.settled_pure _, rfl⟩

theorem Expr.settledOperand_eq_member {e : Expr} :
    e.settledOperand = .member m ↔ e = .member m := by
  cases e <;> simp [settledOperand]

theorem Expr.settledOperand_eq_constant {e : Expr} :
    e.settledOperand = .constant v ↔ e.constant? = some v := by
  cases e <;> simp [settledOperand, constant?]

/-- One operand has to be a member and the other one a constant. -/
theorem operandsCondition_eq_ok {op : Comparison} {l r : Operand} :
    operandsCondition s i op l r = .ok c ↔
      (∃ m v, l = .member m ∧ r = .constant v ∧ comparisonCondition s i m op v = .ok c) ∨
      ∃ m v, l = .constant v ∧ r = .member m ∧ comparisonCondition s i m op.reverse v = .ok c := by
  cases l <;> cases r <;> simp [operandsCondition]

namespace Expr

variable {log log' : ReadLog}

theorem operand_eq_member {e : Expr} (h : e.operand.after log = (.ok (.member m), log')) :
    e = .member m ∧ log' = log := by
  cases e with
  | captured c =>
    obtain ⟨_, _, -, h⟩ := Reading.after_bind_eq_ok.1 h
    cases h
  | _ => cases h <;> exact ⟨rfl, rfl⟩

/-! ## Where conditions come from -/

mutual

/-- The members of an expression, from left to right. -/
def members : Expr → List Member
  | row | value _ | captured _ => []
  | member m => [m]
  | negation e => e.members
  | comparison lhs _ rhs => lhs.members ++ rhs.members
  | conjunction es | disjunction es | record es => membersOfAll es
  | call receiver _ args => receiver.members ++ membersOfAll args

/-- The members of several expressions. -/
def membersOfAll : List Expr → List Member
  | [] => []
  | e :: es => e.members ++ membersOfAll es

end

theorem mem_membersOfAll {e : Expr} {es : List Expr} (he : e ∈ es) (hm : m ∈ e.members) :
    m ∈ membersOfAll es := by
  induction es with
  | nil => cases he
  | cons e' es ih =>
    rw [membersOfAll, List.mem_append]
    rcases List.mem_cons.1 he with rfl | he
    · exact .inl hm
    · exact .inr (ih he)

/-- **A member of an expression is read from the column.** -/
def ReadsFrom (s : Schema) (e : Expr) (column : String) : Prop :=
  ∃ m ∈ e.members, s.column m = .ok column

/-- **What a condition comes from**: in a conjunction of any depth a boolean
field that is asked for or negated, or a field that is compared with a
constant. What is compared is the column that the field is read from. -/
inductive Yields (s : Schema) : Expr → Condition → Prop
  | member {m : Member} {column : String} :
      s.column m = .ok column → Yields s (.member m) ⟨column, .eq, some (.bool true)⟩
  | negation {m : Member} {column : String} :
      s.column m = .ok column → Yields s (.negation (.member m)) ⟨column, .eq, some (.bool false)⟩
  | memberFirst {m : Member} {op : Comparison} {rhs : Expr} {column : String}
      {operand : Option Value} :
      op ≠ .ne → s.column m = .ok column →
      Yields s (.comparison (.member m) op rhs) ⟨column, op, operand⟩
  | memberLast {lhs : Expr} {op : Comparison} {m : Member} {column : String}
      {operand : Option Value} :
      op ≠ .ne → s.column m = .ok column →
      Yields s (.comparison lhs op (.member m)) ⟨column, op.reverse, operand⟩
  | conjunct {es : List Expr} {e : Expr} {k : Condition} :
      e ∈ es → Yields s e k → Yields s (.conjunction es) k

/-- All operators but `!=` are translated by the same two readings. -/
theorem conditions_of_ne {lhs rhs : Expr} {op : Comparison} (hop : op ≠ .ne) :
    (Expr.comparison lhs op rhs).conditions s i =
      (do
        let l ← lhs.operand
        let r ← rhs.operand
        .ofExcept (operandsCondition s i op l r)) := by
  cases op <;> first | exact absurd rfl hop | rfl

/-- No condition asks for inequality. -/
theorem Yields.op_ne {e : Expr} {k : Condition} (h : e.Yields s k) : k.op ≠ .ne := by
  induction h with
  | member | negation => exact nofun
  | memberFirst hop => exact hop
  | @memberLast _ op _ _ _ hop => cases op <;> first | exact absurd rfl hop | exact nofun
  | conjunct _ _ ih => exact ih

theorem Yields.readsFrom {e : Expr} {k : Condition} (h : e.Yields s k) :
    e.ReadsFrom s k.column := by
  induction h with
  | @member m _ hc | @negation m _ hc => exact ⟨m, List.mem_singleton_self m, hc⟩
  | @memberFirst m _ _ _ _ _ hc => exact ⟨m, List.mem_append_left _ (List.mem_singleton_self m), hc⟩
  | @memberLast _ _ m _ _ _ hc => exact ⟨m, List.mem_append_right _ (List.mem_singleton_self m), hc⟩
  | conjunct he _ ih =>
    obtain ⟨m, hm, hc⟩ := ih
    exact ⟨m, mem_membersOfAll he hm, hc⟩

theorem yields_of_boolCondition {e : Expr} {wanted : Bool}
    (he : ∀ column, s.column m = .ok column → e.Yields s ⟨column, .eq, some (.bool wanted)⟩)
    (h : boolCondition s i m wanted = .ok c) : ∀ k ∈ c.conditions, e.Yields s k := by
  obtain ⟨column, hc, -, rfl⟩ := boolCondition_eq_ok.1 h
  simpa using he column hc

theorem yields_of_comparisonCondition {e : Expr} {op : Comparison}
    (he : ∀ column operand, s.column m = .ok column → e.Yields s ⟨column, op, operand⟩)
    (h : comparisonCondition s i m op v = .ok c) : ∀ k ∈ c.conditions, e.Yields s k := by
  obtain ⟨column, i', operand, hc, -, -, rfl⟩ := comparisonCondition_eq_ok.1 h
  simpa using he column operand hc

mutual

/-- **Every condition of a predicate comes from there.** -/
theorem yields_of_mem_conditions :
    ∀ (e : Expr) {i : Option String} {c : Conjunction} {log log' : ReadLog},
      (e.conditions s i).after log = (.ok c, log') → ∀ k ∈ c.conditions, e.Yields s k
  | .value v, _, _, _, _, h => by
    obtain ⟨-, rfl⟩ := constantCondition_eq_ok.1 (Prod.mk.inj h).1
    nofun
  | .captured k, _, _, _, _, h => by
    obtain ⟨v, _, -, h⟩ := Reading.after_bind_eq_ok.1 h
    obtain ⟨-, rfl⟩ := constantCondition_eq_ok.1 (Prod.mk.inj h).1
    nofun
  | .member m, _, _, _, _, h =>
    yields_of_boolCondition (fun _ hc => .member hc) (Prod.mk.inj h).1
  | .negation (.member m), _, _, _, _, h =>
    yields_of_boolCondition (fun _ hc => .negation hc) (Prod.mk.inj h).1
  | .negation (.value (.bool b)), _, _, _, _, h => by
    obtain ⟨-, rfl⟩ := constantCondition_eq_ok.1 (Prod.mk.inj h).1
    nofun
  | .negation (.captured k), _, _, _, _, h => by
    obtain ⟨v, _, -, h⟩ := Reading.after_bind_eq_ok.1 h
    obtain ⟨-, rfl⟩ := negatedConstant_eq_ok.1 (Prod.mk.inj h).1
    nofun
  | .conjunction es, _, _, _, _, h => by
    intro k hk
    obtain ⟨e, he, hyields⟩ := yields_of_mem_conditionsOfAll es h k hk
    exact .conjunct he hyields
  | .comparison lhs op rhs, _, _, _, _, h => by
    by_cases hop : op = .ne
    · subst hop
      cases h
    rw [conditions_of_ne hop] at h
    obtain ⟨l, log₁, hl, h⟩ := Reading.after_bind_eq_ok.1 h
    obtain ⟨r, log₂, hr, h⟩ := Reading.after_bind_eq_ok.1 h
    rcases operandsCondition_eq_ok.1 (Prod.mk.inj h).1 with ⟨m, v, rfl, -, hm⟩ | ⟨m, v, -, rfl, hm⟩
    · obtain ⟨rfl, -⟩ := operand_eq_member hl
      exact yields_of_comparisonCondition (fun _ _ hc => .memberFirst hop hc) hm
    · obtain ⟨rfl, -⟩ := operand_eq_member hr
      exact yields_of_comparisonCondition (fun _ _ hc => .memberLast hop hc) hm

theorem yields_of_mem_conditionsOfAll :
    ∀ (es : List Expr) {i : Option String} {c : Conjunction} {log log' : ReadLog},
      (conditionsOfAll s i es).after log = (.ok c, log') →
        ∀ k ∈ c.conditions, ∃ e ∈ es, e.Yields s k
  | [], _, _, _, _, h => by
    cases h
    nofun
  | e :: es, _, _, _, _, h => by
    obtain ⟨a, log₁, ha, h⟩ := Reading.after_bind_eq_ok.1 h
    obtain ⟨b, log₂, hb, h⟩ := Reading.after_bind_eq_ok.1 h
    cases h
    intro k hk
    rcases List.mem_append.1 hk with hk | hk
    · exact ⟨e, List.mem_cons_self, yields_of_mem_conditions e ha k hk⟩
    · obtain ⟨e', he', hyields⟩ := yields_of_mem_conditionsOfAll es hb k hk
      exact ⟨e', List.mem_cons_of_mem _ he', hyields⟩

end

end Expr

/-! ## Predicates -/

namespace Expr

theorem isConstant_comparison {lhs rhs : Expr} {op : Comparison} :
    (Expr.comparison lhs op rhs).IsConstant ↔ lhs.IsConstant ∧ rhs.IsConstant := by
  simp only [IsConstant, captures, List.mem_append]
  exact ⟨fun h => ⟨fun c hc => h c (.inl hc), fun c hc => h c (.inr hc)⟩,
    fun h c hc => hc.elim (h.1 c) (h.2 c)⟩

theorem forall_mem_capturesOfAll_cons {e : Expr} {es : List Expr} :
    (∀ k ∈ capturesOfAll (e :: es), k.IsConstant) ↔
      e.IsConstant ∧ ∀ k ∈ capturesOfAll es, k.IsConstant := by
  simp only [capturesOfAll, List.mem_append]
  exact ⟨fun h => ⟨fun c hc => h c (.inl hc), fun c hc => h c (.inr hc)⟩,
    fun h c hc => hc.elim (h.1 c) (h.2 c)⟩

mutual

/-- **Translating a predicate with constant captured values is settled.** -/
theorem settled_conditions (s : Schema) (i : Option String) :
    ∀ e : Expr, e.IsConstant → (e.conditions s i).Settled
  | .captured c, h =>
    ((Reading.settled_read (h c (by simp [captures]))).bind fun _ =>
      Reading.settled_ofExcept _).1
  | .negation (.captured c), h =>
    ((Reading.settled_read (h c (by simp [captures]))).bind fun _ =>
      Reading.settled_ofExcept _).1
  | .conjunction es, h => settled_conditionsOfAll s i es h
  | .comparison lhs op rhs, h => by
    have hl := settled_operand (isConstant_comparison.1 h).1
    have hr := settled_operand (isConstant_comparison.1 h).2
    cases op
    case ne => exact Reading.settled_fail _
    all_goals
      exact (hl.1.bind fun _ => (hr.1.bind fun _ => Reading.settled_ofExcept _).1).1
  | .value _, _ | .member _, _ => Reading.settled_ofExcept _
  | .negation (.member _), _ => Reading.settled_ofExcept _
  | .negation (.value v), _ => by cases v <;> exact Reading.settled_ofExcept _
  | .row, _ | .record _, _ | .disjunction _, _ | .call _ _ _, _ => Reading.settled_fail _
  | .negation .row, _ | .negation (.negation _), _ | .negation (.comparison _ _ _), _
  | .negation (.conjunction _), _ | .negation (.disjunction _), _
  | .negation (.call _ _ _), _ | .negation (.record _), _ => Reading.settled_fail _

theorem settled_conditionsOfAll (s : Schema) (i : Option String) :
    ∀ es : List Expr, (∀ k ∈ capturesOfAll es, k.IsConstant) →
      (conditionsOfAll s i es).Settled
  | [], _ => Reading.settled_pure _
  | e :: es, h =>
    have h := forall_mem_capturesOfAll_cons.1 h
    ((settled_conditions s i e h.1).bind fun a =>
      ((settled_conditionsOfAll s a.inequality es h.2).bind fun _ =>
        Reading.settled_pure _).1).1

end

/-- What a predicate amounts to does not depend on what was read before. -/
theorem now_conditions {e : Expr} (h : e.IsConstant) {log log' : ReadLog}
    (hc : (e.conditions s i).after log = (.ok c, log')) : (e.conditions s i).now = .ok c :=
  (settled_conditions s i e h).exists_after_eq_ok.1 ⟨log', hc⟩

/-! What each form of a predicate gives. -/

theorem now_conditions_captured {k : Captured} (h : k.IsConstant) :
    ((Expr.captured k).conditions s i).now = constantCondition i k.first := by
  rw [Expr.conditions, ((Reading.settled_read h).bind fun _ => Reading.settled_ofExcept _).2,
    Reading.now_read]
  rfl

theorem now_conditions_negation_eq_ok {e : Expr} (h : (Expr.negation e).IsConstant) :
    ((Expr.negation e).conditions s i).now = .ok c ↔
      (∃ m, e = .member m ∧ boolCondition s i m false = .ok c) ∨
      (e.constant? = some (.bool false) ∧ c = ⟨[], .ofMarks [.hasConstantBoolean], i⟩) := by
  match e with
  | .member m => simp [Expr.conditions, constant?]
  | .captured k =>
    have hk : k.IsConstant := h k (by simp [captures])
    rw [Expr.conditions, ((Reading.settled_read hk).bind fun _ => Reading.settled_ofExcept _).2,
      Reading.now_read]
    exact negatedConstant_eq_ok.trans (by simp [constant?])
  | .value (.bool b) =>
    change negatedConstant i (.bool b) = .ok c ↔ _
    exact negatedConstant_eq_ok.trans (by simp [constant?])
  | .value .null | .value (.int16 _) | .value (.int32 _) | .value (.int64 _) | .value (.double _)
  | .value (.decimal _) | .value (.text _) | .value (.instant _) | .value (.bytes _)
  | .value (.variant _) | .value (.key _) | .value (.list _) | .value (.map _)
  | .value (.record _) => simp [Expr.conditions, constant?]
  | .row | .negation _ | .comparison _ _ _ | .conjunction _ | .disjunction _ | .call _ _ _
  | .record _ => simp [Expr.conditions, constant?]

theorem now_conditions_comparison_eq_ok {lhs rhs : Expr} {op : Comparison}
    (h : (Expr.comparison lhs op rhs).IsConstant) :
    ((Expr.comparison lhs op rhs).conditions s i).now = .ok c ↔
      op ≠ .ne ∧
        ((∃ m v, lhs = .member m ∧ rhs.constant? = some v ∧
            comparisonCondition s i m op v = .ok c) ∨
          ∃ m v, lhs.constant? = some v ∧ rhs = .member m ∧
            comparisonCondition s i m op.reverse v = .ok c) := by
  have hl := settled_operand (isConstant_comparison.1 h).1
  have hr := settled_operand (isConstant_comparison.1 h).2
  have hnow : op ≠ .ne → ((Expr.comparison lhs op rhs).conditions s i).now =
      operandsCondition s i op lhs.settledOperand rhs.settledOperand := by
    intro hop
    have hrest := fun l => hr.1.bind fun r =>
      Reading.settled_ofExcept (operandsCondition s i op l r)
    rw [conditions_of_ne hop, (hl.1.bind fun l => (hrest l).1).2, hl.2]
    exact (hrest _).2.trans (by rw [hr.2]; rfl)
  by_cases hop : op = .ne
  · subst hop
    simp [Expr.conditions]
  · rw [hnow hop, operandsCondition_eq_ok]
    simp only [settledOperand_eq_member, settledOperand_eq_constant, hop, ne_eq,
      not_false_eq_true, true_and]

theorem now_conditionsOfAll_cons {e : Expr} {es : List Expr}
    (h : ∀ k ∈ capturesOfAll (e :: es), k.IsConstant) :
    (conditionsOfAll s i (e :: es)).now = .ok c ↔
      ∃ a b, (e.conditions s i).now = .ok a ∧ (conditionsOfAll s a.inequality es).now = .ok b ∧
        c = a.append b := by
  have h := forall_mem_capturesOfAll_cons.1 h
  have hrest := fun a : Conjunction => (settled_conditionsOfAll s a.inequality es h.2).bind fun b =>
    Reading.settled_pure (a.append b)
  -- The operands that follow depend on the column that the first one leaves.
  rw [conditionsOfAll, ((settled_conditions s i e h.1).bind fun a => (hrest a).1).2, bind_eq_ok]
  constructor
  · rintro ⟨a, ha, hb⟩
    rw [(hrest a).2, bind_eq_ok] at hb
    obtain ⟨b, hb, hc⟩ := hb
    exact ⟨a, b, ha, hb, (Except.ok.inj hc).symm⟩
  · rintro ⟨a, b, ha, hb, rfl⟩
    refine ⟨a, ha, ?_⟩
    rw [(hrest a).2, bind_eq_ok]
    exact ⟨b, hb, rfl⟩

end Expr

end KindQuery
