import KindQuery.Proofs.Query.Matched
/-!
# What the key is compared with

The store knows an entity by its key, so that a comparison with the key
column has to be one with a key. A constant that is compared with the key
field is turned into one, and what names no key is refused. There are two
ways past this: a comparison with null is written without a parameter, and
a key field that holds booleans can stand for a condition by itself.
`compares_key` says what every condition with the key column is written
with, and that all of them bind keys exactly when none goes one of these ways.
-/

namespace KindQuery

/-! ## What is accepted -/

/-- **A comparison that is accepted.** The member is a field, and beside the
key field the constant names a key or is null, or else the field holds booleans
and is asked for one. -/
structure Schema.Accepts (s : Schema) (c : Compared) : Prop where
  reads : ∃ column, s.column c.member = .ok column
  atKey : s.isKeyMember c.member = true →
    c.value = .null ∨ (∃ t, c.value = .text t) ∨ (∃ k, c.value = .key k) ∨
      s.isBoolMember c.member = true ∧ c.op = .eq ∧ ∃ b, c.value = .bool b

variable {s : Schema} {i : Option String} {c : Conjunction} {m : Member} {v : Value}

theorem accepts_of_boolCondition {wanted : Bool} (h : boolCondition s i m wanted = .ok c) :
    s.Accepts ⟨m, .eq, .bool wanted⟩ := by
  obtain ⟨column, reads, holds, -⟩ := boolCondition_eq_ok.1 h
  exact ⟨⟨column, reads⟩, fun _ => .inr (.inr (.inr ⟨holds, rfl, wanted, rfl⟩))⟩

theorem accepts_of_comparisonCondition {op : Comparison}
    (h : comparisonCondition s i m op v = .ok c) : s.Accepts ⟨m, op, v⟩ := by
  obtain ⟨column, -, operand, reads, -, constant, -⟩ := comparisonCondition_eq_ok.1 h
  refine ⟨⟨column, reads⟩, fun isKey => ?_⟩
  rcases Schema.operandFor_eq_ok.1 constant with
    ⟨null, -⟩ | ⟨-, notKey, -⟩ | ⟨-, ⟨t, text, -⟩ | ⟨k, key, -⟩⟩
  · exact .inl null
  · exact absurd (notKey.symm.trans isKey) Bool.false_ne_true
  · exact .inr (.inl ⟨t, text⟩)
  · exact .inr (.inr (.inl ⟨k, key⟩))

namespace Expr

variable {log log' : ReadLog}

theorem accepts_comparison {lhs rhs : Expr} {op : Comparison} {l r : Operand} {log₁ : ReadLog}
    (hl : lhs.operand.after log = (.ok l, log₁)) (hr : rhs.operand.after log₁ = (.ok r, log'))
    (h : operandsCondition s i op l r = .ok c) :
    ∀ k ∈ (Expr.comparison lhs op rhs).compared log, s.Accepts k := by
  rcases operandsCondition_eq_ok.1 h with ⟨m, v, rfl, rfl, h⟩ | ⟨m, v, rfl, rfl, h⟩
  · obtain ⟨rfl, rfl⟩ := operand_eq_member hl
    rw [compared, operand_eq_constant hr]
    exact List.forall_mem_singleton.2 (accepts_of_comparisonCondition h)
  · obtain ⟨rfl, rfl⟩ := operand_eq_member hr
    have constant := operand_eq_constant hl
    cases lhs with
    | value | captured =>
      rw [compared, constant]
      · exact List.forall_mem_singleton.2 (accepts_of_comparisonCondition h)
      · intro _ other
        cases other
    | _ => cases constant

mutual

/-- **The comparisons of a predicate that is translated are accepted.** -/
theorem accepts_of_conditions : ∀ (e : Expr) {i : Option String} {c : Conjunction}
    {log log' : ReadLog}, (e.conditions s i).after log = (.ok c, log') →
    ∀ k ∈ e.compared log, s.Accepts k
  | .value _, _, _, _, _, _ | .captured _, _, _, _, _, _ => List.forall_mem_nil _
  | .negation (.value (.bool _)), _, _, _, _, _ | .negation (.captured _), _, _, _, _, _ =>
    List.forall_mem_nil _
  | .member _, _, _, _, _, h | .negation (.member _), _, _, _, _, h =>
    List.forall_mem_singleton.2 (accepts_of_boolCondition (Prod.mk.inj h).1)
  | .conjunction es, _, _, _, _, h => accepts_of_conditionsOfAll es h
  | .comparison lhs op rhs, _, _, _, _, h => by
    by_cases hop : op = .ne
    · subst hop
      cases h
    rw [conditions_of_ne hop] at h
    obtain ⟨l, log₁, hl, h⟩ := Reading.after_bind_eq_ok.1 h
    obtain ⟨r, log₂, hr, h⟩ := Reading.after_bind_eq_ok.1 h
    exact accepts_comparison hl hr (Prod.mk.inj h).1

theorem accepts_of_conditionsOfAll : ∀ (es : List Expr) {i : Option String} {c : Conjunction}
    {log log' : ReadLog}, (conditionsOfAll s i es).after log = (.ok c, log') →
    ∀ k ∈ comparedOfAll log es, s.Accepts k
  | [], _, _, _, _, _ => List.forall_mem_nil _
  | e :: es, i, _, log, _, h => by
    obtain ⟨a, log₁, ha, h⟩ := Reading.after_bind_eq_ok.1 h
    obtain ⟨b, log₂, hb, -⟩ := Reading.after_bind_eq_ok.1 h
    have read : log₁ = e.logAfter log := logs_conditions s e i log a log₁ ha
    rw [comparedOfAll]
    refine List.forall_mem_append.2 ⟨accepts_of_conditions e ha, ?_⟩
    rw [← read]
    exact accepts_of_conditionsOfAll es hb

end

end Expr

namespace Ledger

variable {mode : Mode} {l l' : Ledger} {log log' : ReadLog}

/-- Those of a stage are. -/
theorem Step.accepts {st : Stage} (h : Step s mode l log st l' log') :
    ∀ k ∈ st.compared log, s.Accepts k := by
  cases h with
  | filter h | filterClose h => exact Expr.accepts_of_conditions _ h
  | project | orderBy | close => exact nofun
  | page hst | repeated hst => cases st <;> cases hst <;> exact nofun

/-- And those of all stages. -/
theorem Run.accepts {stages : List Stage} (h : Run s .strict l log stages l' log') :
    ∀ k ∈ Stage.comparedOfAll log stages, s.Accepts k := by
  induction h with
  | nil => exact nofun
  | cons step _ ih =>
    rw [Stage.comparedOfAll, ← step.log_eq]
    exact List.forall_mem_append.2 ⟨step.accepts, ih⟩

end Ledger

/-! ## What is written -/

namespace Condition

/-- **How a condition is written**: with a parameter that holds its constant,
or with `NULL`. -/
inductive IsWritten (params : List Param) : Condition → Written → Prop
  | null {column : String} {op : Comparison} :
      IsWritten params ⟨column, op, none⟩ ⟨column, op, .constant "NULL"⟩
  | bound {column name : String} {op : Comparison} {v : Value} :
      ⟨name, v⟩ ∈ params → IsWritten params ⟨column, op, some v⟩ ⟨column, op, .param name⟩

theorem IsWritten.column_eq {params : List Param} {k : Condition} {w : Written}
    (h : IsWritten params k w) : w.column = k.column := by
  cases h <;> rfl

theorem IsWritten.mono {params params' : List Param} {k : Condition} {w : Written}
    (h : IsWritten params k w) (sub : params ⊆ params') : IsWritten params' k w := by
  cases h with
  | null => exact .null
  | bound here => exact .bound (sub here)

/-- Conditions are written one for one, among their parameters. -/
theorem forall₂_isWritten {n : Nat} {cs : List Condition} :
    List.Forall₂ (IsWritten (params n cs)) cs (written n cs) := by
  induction cs generalizing n with
  | nil => exact .nil
  | cons k cs ih =>
    obtain ⟨column, op, _ | v⟩ := k
    · exact .cons .null ih
    · exact .cons (.bound List.mem_cons_self)
        (ih.imp fun _ _ written => written.mono (List.subset_cons_self _ _))

end Condition

/-- The condition is one with a parameter that is bound to a key. -/
def Written.BindsKey (params : List Param) (w : Written) : Prop :=
  ∃ name k, w.operand = .param name ∧ Param.find? name params = some (.key k)

/-- **What the key column is compared with** for a comparison of the key field:
the key that a text names or that the constant is, under a parameter; `NULL`
for null; and a boolean, which is asked of a key field that holds booleans. -/
inductive Schema.KeyOperand (s : Schema) (params : List Param) : Compared → Fragment → Prop
  | text {m : Member} {op : Comparison} {t name : String} :
      Param.find? name params = some (.key ⟨s.name, t⟩) →
      KeyOperand s params ⟨m, op, .text t⟩ (.param name)
  | key {m : Member} {op : Comparison} {k : Key} {name : String} :
      Param.find? name params = some (.key k) → KeyOperand s params ⟨m, op, .key k⟩ (.param name)
  | null {m : Member} {op : Comparison} : KeyOperand s params ⟨m, op, .null⟩ (.constant "NULL")
  | flag {m : Member} {b : Bool} {name : String} :
      s.isBoolMember m = true → Param.find? name params = some (.bool b) →
      KeyOperand s params ⟨m, .eq, .bool b⟩ (.param name)

variable {params : List Param} {k : Compared} {w : Written}

/-- An accepted comparison of the key field is written in one of these ways. -/
theorem Schema.Accepts.keyOperand (h : s.Accepts k) (isKey : s.isKeyMember k.member = true)
    (written : (k.condition s).IsWritten params w)
    (found : ∀ x ∈ params, Param.find? x.name params = some x.value) :
    s.KeyOperand params k w.operand := by
  obtain ⟨m, op, v⟩ := k
  rcases h.atKey isKey with rfl | ⟨t, rfl⟩ | ⟨k, rfl⟩ | ⟨holds, rfl, b, rfl⟩
  · cases written
    exact .null
  · have asKey : s.readBeside (.member m) (.text t) = .key ⟨s.name, t⟩ := if_pos isKey
    cases written with
    | bound here => exact .text (asKey ▸ found _ here)
  · cases written with
    | bound here => exact .key (found _ here)
  · cases written with
    | bound here => exact .flag holds (found _ here)

/-- It is bound to a key unless the constant is null or a boolean. -/
theorem Schema.KeyOperand.bindsKey_iff (h : s.KeyOperand params k w.operand) :
    w.BindsKey params ↔ k.value ≠ .null ∧ ∀ b, k.value ≠ .bool b := by
  obtain ⟨column, op, operand⟩ := w
  cases h with
  | text bound => exact ⟨fun _ => ⟨nofun, nofun⟩, fun _ => ⟨_, _, rfl, bound⟩⟩
  | key bound => exact ⟨fun _ => ⟨nofun, nofun⟩, fun _ => ⟨_, _, rfl, bound⟩⟩
  | null =>
    refine ⟨?_, fun named => absurd rfl named.1⟩
    rintro ⟨_, _, ⟨⟩, -⟩
  | flag _ bound =>
    refine ⟨?_, fun named => absurd rfl (named.2 _)⟩
    rintro ⟨_, _, ⟨⟩, key⟩
    cases bound.symm.trans key

/-- Only the key field is read from the key column, if no field has its name. -/
theorem Schema.columnOf_eq_keyColumn_iff (free : ∀ f ∈ s.fields, f.name ≠ keyColumn)
    (reads : ∃ column, s.column m = .ok column) :
    s.columnOf m = keyColumn ↔ s.isKeyMember m = true := by
  obtain ⟨_, reads⟩ := reads
  obtain ⟨name, single, isField, -⟩ := Schema.column_eq_ok.1 reads
  obtain ⟨f, hf, rfl⟩ := Schema.isSome_field?.1 isField
  unfold columnOf
  split
  next isKey => exact ⟨fun _ => isKey, fun _ => rfl⟩
  next notKey =>
    rw [Member.dotted_of_name? single]
    exact ⟨fun named => absurd named (free f hf), fun isKey => absurd isKey notKey⟩

/-- **How a comparison and what is written for it go together** at the key: the
key column is written for the key field alone, with one of its operands. -/
structure Schema.WritesKey (s : Schema) (params : List Param) (k : Compared) (w : Written) :
    Prop where
  column : w.column = keyColumn ↔ s.isKeyMember k.member = true
  operand : w.column = keyColumn → s.KeyOperand params k w.operand

theorem Schema.Accepts.writesKey (free : ∀ f ∈ s.fields, f.name ≠ keyColumn) (h : s.Accepts k)
    (written : (k.condition s).IsWritten params w)
    (found : ∀ x ∈ params, Param.find? x.name params = some x.value) :
    s.WritesKey params k w := by
  have column : w.column = keyColumn ↔ s.isKeyMember k.member = true := by
    rw [written.column_eq]
    exact columnOf_eq_keyColumn_iff free h.reads
  exact ⟨column, fun atKey => h.keyOperand (column.1 atKey) written found⟩

/-- Where all goes together so, the key column is compared with keys alone
exactly when the key field is compared with no null and no boolean. -/
theorem Schema.forall_bindsKey_iff {ks : List Compared} {ws : List Written}
    (h : List.Forall₂ (s.WritesKey params) ks ws) :
    (∀ w ∈ ws, w.column = keyColumn → w.BindsKey params) ↔
      ∀ k ∈ ks, s.isKeyMember k.member = true → k.value ≠ .null ∧ ∀ b, k.value ≠ .bool b := by
  induction h with
  | nil => exact iff_of_true nofun nofun
  | @cons k w _ _ here _ ih =>
    have first : (w.column = keyColumn → w.BindsKey params) ↔
        (s.isKeyMember k.member = true → k.value ≠ .null ∧ ∀ b, k.value ≠ .bool b) := by
      rw [← here.column]
      exact forall_congr' fun atKey => (here.operand atKey).bindsKey_iff
    rw [List.forall_mem_cons, List.forall_mem_cons, first, ih]

/-! ## Pipelines -/

namespace Pipeline

variable {p : Pipeline} {log log' : ReadLog} {q : Compiled}

/-- Every comparison of a compiled pipeline is accepted, and it is written as
one condition. -/
theorem forall₂_isWritten (compiled : p.compile.after log = (.ok q, log')) :
    List.Forall₂ (fun k w => p.schema.Accepts k ∧ (k.condition p.schema).IsWritten q.params w)
      (p.compared log) q.ast.written := by
  obtain ⟨plan, d, l, behind⟩ := exists_behind compiled
  have conditions : l.conditions = (p.compared log).map (Compared.condition p.schema) :=
    behind.run.conditions_eq
  have accepted : ∀ k ∈ p.compared log, p.schema.Accepts k := behind.run.accepts
  have bound : Condition.params 0 l.conditions ⊆ q.params := by
    rw [← behind.keeps.numbered, behind.params]
    exact List.filter_subset_self _
  have written : List.Forall₂ (Condition.IsWritten q.params)
      ((p.compared log).map (Compared.condition p.schema)) q.ast.written := by
    rw [behind.ast, behind.keeps.written, ← conditions]
    exact Condition.forall₂_isWritten.imp fun _ _ here => here.mono bound
  rw [List.forall₂_map_left_iff] at written
  exact (List.forall₂_and_left _ _).2 ⟨accepted, written⟩

/-- **The key column is compared with keys, unless null or a boolean is asked
for.** The conditions are the comparisons of the pipeline, one for one. Where no
field has the name of the key column, each condition with it comes from the key
field, and a text is bound as the key of this kind that it names. All of them
bind keys exactly when the key field is compared with no null, and is not itself
a condition. -/
theorem compares_key (free : ∀ f ∈ p.schema.fields, f.name ≠ keyColumn)
    (compiled : p.compile.after log = (.ok q, log')) :
    List.Forall₂ (p.schema.WritesKey q.params) (p.compared log) q.ast.written ∧
      ((∀ w ∈ q.ast.written, w.column = keyColumn → w.BindsKey q.params) ↔
        ∀ k ∈ p.compared log, p.schema.isKeyMember k.member = true →
          k.value ≠ .null ∧ ∀ b, k.value ≠ .bool b) := by
  have found : ∀ x ∈ q.params, Param.find? x.name q.params = some x.value := by
    obtain ⟨plan, d, l, behind⟩ := exists_behind compiled
    rw [behind.params]
    exact fun x hx => behind.keeps.find?_name hx
  have together : List.Forall₂ (p.schema.WritesKey q.params) (p.compared log) q.ast.written :=
    (forall₂_isWritten compiled).imp fun _ _ ⟨accepted, written⟩ =>
      accepted.writesKey free written found
  exact ⟨together, Schema.forall_bindsKey_iff together⟩

theorem sample_compares_key :
    ∃ q log', sample.compile.after [] = (.ok q, log') ∧
      (∃ w ∈ q.ast.written, w.column = keyColumn) ∧
      ∀ w ∈ q.ast.written, w.column = keyColumn → w.BindsKey q.params := by
  obtain ⟨q, log', compiled⟩ : ∃ q log', sample.compile.after [] = (.ok q, log') := ⟨_, _, rfl⟩
  have named : ∀ k ∈ sample.compared [], sample.schema.isKeyMember k.member = true →
      k.value ≠ .null ∧ ∀ b, k.value ≠ .bool b := by
    have compared : sample.compared [] = [⟨⟨["Adult"]⟩, .eq, .bool true⟩,
      ⟨⟨["Id"]⟩, .eq, .text "ada"⟩, ⟨⟨["Age"]⟩, .gt, .int32 5⟩] := rfl
    rw [compared, List.forall_mem_cons, List.forall_mem_cons, List.forall_mem_singleton]
    exact ⟨fun isKey => absurd isKey (by decide), fun _ => ⟨nofun, nofun⟩, fun _ => ⟨nofun, nofun⟩⟩
  have second : q.ast.written[1]? = some ⟨keyColumn, .eq, .param "p2"⟩ := by
    cases compiled
    rfl
  exact ⟨q, log', compiled, ⟨_, List.mem_of_getElem? second, rfl⟩,
    (compares_key (by decide) compiled).2.2 named⟩

/-- Whoever has no key. -/
def nobody : Pipeline where
  schema := ⟨"Person", [⟨"Id", .text, .key⟩]⟩
  stages := [.filter (.comparison (.field "Id") .eq (.value .null))]

/-- The switches that are on, where this is all there is to them. -/
def switchedOn : Pipeline where
  schema := ⟨"Switch", [⟨"Id", .bool, .key⟩]⟩
  stages := [.filter (.field "Id")]

/-- The key column is compared with something else than a key, though there is a
key field and no other one is read from the column. -/
def ComparesNoKey (p : Pipeline) : Prop :=
  p.schema.keyField?.isSome ∧ (∀ f ∈ p.schema.fields, f.name ≠ keyColumn) ∧
    ∃ q log', p.compile.after [] = (.ok q, log') ∧
      ∃ w ∈ q.ast.written, w.column = keyColumn ∧ ¬ w.BindsKey q.params

/-- **Neither of them compares the key with a key.** -/
theorem compares_key_with_null : nobody.ComparesNoKey ∧ switchedOn.ComparesNoKey := by
  constructor
  · refine ⟨rfl, by decide, _, _, rfl, _, List.mem_cons_self, rfl, ?_⟩
    rintro ⟨_, _, ⟨⟩, -⟩
  · refine ⟨rfl, by decide, _, _, rfl, _, List.mem_cons_self, rfl, ?_⟩
    rintro ⟨_, _, ⟨⟩, key⟩
    cases key

end Pipeline

end KindQuery
