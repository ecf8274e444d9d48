import KindQuery.Proofs.Query.Rendered
/-!
# The supported fragment

Which pipelines can be compiled, said without compiling them: a grammar for
predicates, one for selectors, and what stages may stand together.
`exists_compile_iff_supported` says that these pipelines compile, and no
others.

Predicates of different stages have one thing in common, the column that
inequalities compare. `Tracks` follows it over a list of columns, so that
each predicate and each stage takes up where the one before it stopped.
-/

namespace KindQuery

/-! ## Grammars -/

/-- The member is a single field of the schema. -/
def Schema.HasMember (s : Schema) (m : Member) : Prop := ∃ f ∈ s.fields, m.path = [f.name]

/-- The constants that a member may be compared with: beside the key field
only those that a key can be read from. -/
def Schema.ComparesWith (s : Schema) (m : Member) (v : Value) : Prop :=
  s.isKeyMember m = true → v = .null ∨ (∃ name, v = .text name) ∨ ∃ k, v = .key k

namespace Expr

/-- **The predicates that are supported.** -/
inductive IsPredicate (s : Schema) : Expr → Prop
  | truth {e : Expr} : e.constant? = some (.bool true) → IsPredicate s e
  | member {m : Member} : s.isBoolMember m = true → IsPredicate s (.member m)
  | notMember {m : Member} : s.isBoolMember m = true → IsPredicate s (.negation (.member m))
  | notFalse {e : Expr} : e.constant? = some (.bool false) → IsPredicate s (.negation e)
  | conjunction {es : List Expr} : (∀ e ∈ es, IsPredicate s e) → IsPredicate s (.conjunction es)
  | comparison {m : Member} {op : Comparison} {e : Expr} {v : Value} :
      op ≠ .ne → s.HasMember m → e.constant? = some v → s.ComparesWith m v →
      IsPredicate s (.comparison (.member m) op e)
  | reversed {m : Member} {op : Comparison} {e : Expr} {v : Value} :
      op ≠ .ne → s.HasMember m → e.constant? = some v → s.ComparesWith m v →
      IsPredicate s (.comparison e op (.member m))

/-- **The selectors that are supported.** -/
inductive IsSelector (s : Schema) : Expr → Prop
  | row : IsSelector s .row
  | value {v : Value} : IsSelector s (.value v)
  | captured {c : Captured} : IsSelector s (.captured c)
  | member {m : Member} : s.HasMember m → IsSelector s (.member m)
  | record {es : List Expr} : (∀ e ∈ es, IsSelector s e) → IsSelector s (.record es)

/-- The counts that are supported: constant integers that are not
negative. -/
def IsCount (e : Expr) : Prop := ∃ v n, e.constant? = some v ∧ v.asInt? = some n ∧ 0 ≤ n

/-- The column that an operand reads. -/
def operandColumn? (s : Schema) : Expr → Option String
  | .member m => some (s.columnOf m)
  | _ => none

mutual

/-- The columns that inequalities compare, from left to right. -/
def inequalityColumns (s : Schema) : Expr → List String
  | .comparison lhs op rhs =>
    if op.isInequality then ((lhs.operandColumn? s).or (rhs.operandColumn? s)).toList else []
  | .conjunction es => inequalityColumnsOfAll s es
  | _ => []

/-- Those of several predicates. -/
def inequalityColumnsOfAll (s : Schema) : List Expr → List String
  | [] => []
  | e :: es => e.inequalityColumns s ++ inequalityColumnsOfAll s es

end

end Expr

namespace Stage

/-- A stage that can be walked, its projection apart. -/
def IsSupported (s : Schema) : Stage → Prop
  | .filter e => e.IsPredicate s
  | .project _ => True
  | .orderBy key _ => ∃ m, key = .member m ∧ s.HasMember m
  | .take n | .skip n => n.IsCount
  | .terminal _ e => ∀ e' ∈ e, e'.IsPredicate s

/-- Is the stage an ordering? -/
def isOrderBy : Stage → Bool
  | .orderBy _ _ => true
  | _ => false

/-- Is the stage an offset? -/
def isSkip : Stage → Bool
  | .skip _ => true
  | _ => false

/-- The columns that inequalities compare in a stage. -/
def inequalityColumns (s : Schema) (st : Stage) : List String :=
  (st.predicate?.map (Expr.inequalityColumns s)).getD []

end Stage

/-- **The pipelines that are supported.** -/
structure Pipeline.Supported (p : Pipeline) : Prop where
  stages : ∀ st ∈ p.stages, st.IsSupported p.schema
  selectors : ∀ e ∈ p.stages.filterMap Stage.selector?, e.IsSelector p.schema
  oneSelector : (p.stages.filterMap Stage.selector?).length ≤ 1
  oneOrdering : p.stages.countP Stage.isOrderBy ≤ 1
  oneTake : p.stages.countP Stage.isTake ≤ 1
  oneSkip : p.stages.countP Stage.isSkip ≤ 1
  terminalLast : TerminalLast p.stages
  oneInequality : ∃ column, ∀ a ∈ p.stages.flatMap (Stage.inequalityColumns p.schema), a = column

/-! ## The column of inequalities -/

/-- The column that inequalities have compared before, the columns that
they compare then, and the column after that. -/
def Tracks (i : Option String) : List String → Option String → Prop
  | [], j => j = i
  | a :: as, j => (∀ b ∈ i, b = a) ∧ Tracks (some a) as j

theorem tracks_append {i k : Option String} {xs ys : List String} :
    Tracks i (xs ++ ys) k ↔ ∃ j, Tracks i xs j ∧ Tracks j ys k := by
  induction xs generalizing i with
  | nil => simp [Tracks]
  | cons x xs ih => simp [Tracks, ih, and_assoc]

theorem tracks_some {a : String} {as : List String} {j : Option String} :
    Tracks (some a) as j ↔ (∀ b ∈ as, b = a) ∧ j = some a := by
  induction as with
  | nil => simp [Tracks]
  | cons b as ih =>
    rw [Tracks, List.forall_mem_cons, and_assoc]
    constructor
    · rintro ⟨hb, h⟩
      obtain rfl := hb a rfl
      exact ⟨rfl, ih.1 h⟩
    · rintro ⟨rfl, h⟩
      exact ⟨by simp, ih.2 h⟩

/-- From the start, the columns only have to be the same. -/
theorem exists_tracks_none {columns : List String} :
    (∃ j, Tracks none columns j) ↔ ∃ column, ∀ a ∈ columns, a = column := by
  cases columns with
  | nil => simp [Tracks]
  | cons x xs =>
    simp only [Tracks, tracks_some, Option.not_mem_none, false_imp_iff, implies_true, true_and,
      exists_and_left, exists_eq, and_true, List.forall_mem_cons]
    exact ⟨fun h => ⟨x, rfl, h⟩, fun ⟨column, hx, h⟩ => hx ▸ h⟩

theorem trackInequality_eq_ok {i j : Option String} {op : Comparison} {column : String} :
    trackInequality i op column = .ok j ↔
      Tracks i (if op.isInequality then [column] else []) j := by
  unfold trackInequality
  cases op.isInequality with
  | false => simp [Tracks, eq_comm]
  | true =>
    cases i with
    | none => simp [Tracks, eq_comm]
    | some first =>
      by_cases h : first = column
      · simp [Tracks, h, eq_comm]
      · simp [Tracks, h]

/-! ## Predicates -/

section Predicates

variable {s : Schema} {i j : Option String} {m : Member} {v : Value}

theorem Schema.exists_column_eq_ok : (∃ column, s.column m = .ok column) ↔ s.HasMember m := by
  have hname : ∀ name, m.name? = some name ↔ m.path = [name] := by
    intro name
    unfold Member.name?
    split
    next h => simp [h]
    next h => simpa using h name
  simp only [Schema.column_eq_ok, Schema.isSome_field?, hname, HasMember]
  constructor
  · rintro ⟨_, name, hm, ⟨f, hf, rfl⟩, -⟩
    exact ⟨f, hf, hm⟩
  · rintro ⟨f, hf, hm⟩
    exact ⟨_, f.name, hm, ⟨f, hf, rfl⟩, rfl⟩

theorem Schema.column_eq_ok_iff {column : String} :
    s.column m = .ok column ↔ s.HasMember m ∧ column = s.columnOf m := by
  constructor
  · exact fun h => ⟨Schema.exists_column_eq_ok.1 ⟨_, h⟩, (Schema.columnOf_eq h).symm⟩
  · rintro ⟨h, rfl⟩
    obtain ⟨column, hc⟩ := Schema.exists_column_eq_ok.2 h
    rw [hc, Schema.columnOf_eq hc]

/-- A boolean field is a field. -/
theorem Schema.HasMember.of_isBoolMember (h : s.isBoolMember m = true) : s.HasMember m := by
  refine Schema.exists_column_eq_ok.1 ?_
  unfold Schema.isBoolMember at h
  cases hn : m.name? with
  | none => simp [hn] at h
  | some name =>
    cases hf : s.field? name with
    | none => simp [hn, hf] at h
    | some f => exact ⟨_, Schema.column_eq_ok.2 ⟨name, hn, by simp [hf], rfl⟩⟩

theorem Schema.exists_operandFor_eq_ok :
    (∃ operand, s.operandFor m v = .ok operand) ↔ s.ComparesWith m v := by
  simp only [Schema.operandFor_eq_ok, ComparesWith]
  constructor
  · rintro ⟨_, ⟨rfl, -⟩ | ⟨-, hk, -⟩ | ⟨-, ⟨name, rfl, -⟩ | ⟨k, rfl, -⟩⟩⟩ h
    · exact .inl rfl
    · simp [hk] at h
    · exact .inr (.inl ⟨name, rfl⟩)
    · exact .inr (.inr ⟨k, rfl⟩)
  · intro h
    cases hk : s.isKeyMember m with
    | true =>
      rcases h hk with rfl | ⟨name, rfl⟩ | ⟨k, rfl⟩
      · exact ⟨_, .inl ⟨rfl, rfl⟩⟩
      · exact ⟨_, .inr (.inr ⟨rfl, .inl ⟨name, rfl, rfl⟩⟩)⟩
      · exact ⟨_, .inr (.inr ⟨rfl, .inr ⟨k, rfl, rfl⟩⟩)⟩
    | false =>
      cases v with
      | null => exact ⟨_, .inl ⟨rfl, rfl⟩⟩
      | _ => exact ⟨_, .inr (.inl ⟨rfl, rfl, rfl⟩)⟩

theorem exists_constantCondition :
    (∃ c, constantCondition i v = .ok c ∧ c.inequality = j) ↔ v = .bool true ∧ j = i := by
  simp only [constantCondition_eq_ok]
  constructor
  · rintro ⟨_, ⟨hv, rfl⟩, rfl⟩
    exact ⟨hv, rfl⟩
  · rintro ⟨hv, rfl⟩
    exact ⟨_, ⟨hv, rfl⟩, rfl⟩

theorem exists_boolCondition {wanted : Bool} :
    (∃ c, boolCondition s i m wanted = .ok c ∧ c.inequality = j) ↔
      s.isBoolMember m = true ∧ j = i := by
  simp only [boolCondition_eq_ok]
  constructor
  · rintro ⟨_, ⟨column, -, hb, rfl⟩, rfl⟩
    exact ⟨hb, rfl⟩
  · rintro ⟨hb, rfl⟩
    obtain ⟨column, hc⟩ := Schema.exists_column_eq_ok.2 (.of_isBoolMember hb)
    exact ⟨_, ⟨column, hc, hb, rfl⟩, rfl⟩

theorem exists_comparisonCondition {op : Comparison} :
    (∃ c, comparisonCondition s i m op v = .ok c ∧ c.inequality = j) ↔
      s.HasMember m ∧ s.ComparesWith m v ∧
        Tracks i (if op.isInequality then [s.columnOf m] else []) j := by
  simp only [comparisonCondition_eq_ok, trackInequality_eq_ok, Schema.column_eq_ok_iff]
  constructor
  · rintro ⟨_, ⟨_, j, operand, ⟨hm, rfl⟩, ht, ho, rfl⟩, rfl⟩
    exact ⟨hm, Schema.exists_operandFor_eq_ok.1 ⟨_, ho⟩, ht⟩
  · rintro ⟨hm, hv, ht⟩
    obtain ⟨operand, ho⟩ := Schema.exists_operandFor_eq_ok.2 hv
    exact ⟨_, ⟨_, j, operand, ⟨hm, rfl⟩, ht, ho, rfl⟩, rfl⟩

end Predicates

namespace Expr

variable {s : Schema}

theorem operandColumn?_of_constant? {e : Expr} {v : Value} (h : e.constant? = some v) :
    e.operandColumn? s = none := by
  cases e <;> first | rfl | cases h

theorem isPredicate_of_constant? {e : Expr} {v : Value} (h : e.constant? = some v) :
    e.IsPredicate s ↔ v = .bool true := by
  constructor
  · intro hp
    cases hp with
    | truth ht => exact Option.some.inj (h.symm.trans ht)
    | _ => cases h
  · rintro rfl
    exact .truth h

mutual

/-- **A predicate is accepted when the grammar derives it** and the columns
of its inequalities go with those before it. -/
theorem exists_conditions_iff : ∀ (e : Expr) {i j : Option String}, e.IsConstant →
    ((∃ c, (e.conditions s i).now = .ok c ∧ c.inequality = j) ↔
      e.IsPredicate s ∧ Tracks i (e.inequalityColumns s) j)
  | .value v, i, j, _ =>
    exists_constantCondition.trans (and_congr (isPredicate_of_constant? rfl).symm Iff.rfl)
  | .captured k, i, j, hk => by
    rw [now_conditions_captured (hk k (by simp [captures]))]
    exact exists_constantCondition.trans (and_congr (isPredicate_of_constant? rfl).symm Iff.rfl)
  | .member m, i, j, _ => by
    refine exists_boolCondition.trans (and_congr ⟨.member, fun h => ?_⟩ Iff.rfl)
    cases h with
    | truth h => cases h
    | member h => exact h
  | .negation e, i, j, hk => by
    simp only [now_conditions_negation_eq_ok hk]
    constructor
    · rintro ⟨c, ⟨m, rfl, hm⟩ | ⟨hv, rfl⟩, rfl⟩
      · obtain ⟨hb, hj⟩ := exists_boolCondition.1 ⟨c, hm, rfl⟩
        exact ⟨.notMember hb, hj⟩
      · exact ⟨.notFalse hv, rfl⟩
    · rintro ⟨hp, hj⟩
      cases hp with
      | truth h => cases h
      | notMember hb =>
        obtain ⟨c, hc, hcj⟩ := exists_boolCondition.2 ⟨hb, hj⟩
        exact ⟨c, .inl ⟨_, rfl, hc⟩, hcj⟩
      | notFalse hv => exact ⟨_, .inr ⟨hv, rfl⟩, hj.symm⟩
  | .comparison lhs op rhs, i, j, hk => by
    simp only [now_conditions_comparison_eq_ok hk]
    constructor
    · rintro ⟨c, ⟨hop, ⟨m, v, rfl, hv, hc⟩ | ⟨m, v, hv, rfl, hc⟩⟩, hcj⟩
      · obtain ⟨hm, hw, ht⟩ := exists_comparisonCondition.1 ⟨c, hc, hcj⟩
        exact ⟨.comparison hop hm hv hw, by simpa [inequalityColumns, operandColumn?] using ht⟩
      · obtain ⟨hm, hw, ht⟩ := exists_comparisonCondition.1 ⟨c, hc, hcj⟩
        refine ⟨.reversed hop hm hv hw, ?_⟩
        -- A comparison that is turned round is an inequality if it was one.
        rw [inequalityColumns, operandColumn?_of_constant? hv]
        simpa [operandColumn?] using ht
    · rintro ⟨hp, ht⟩
      cases hp with
      | truth h => cases h
      | @comparison m _ _ v hop hm hv hw =>
        obtain ⟨c, hc, hcj⟩ := exists_comparisonCondition.2
          ⟨hm, hw, by simpa [inequalityColumns, operandColumn?] using ht⟩
        exact ⟨c, ⟨hop, .inl ⟨m, v, rfl, hv, hc⟩⟩, hcj⟩
      | @reversed m _ _ v hop hm hv hw =>
        rw [inequalityColumns, operandColumn?_of_constant? hv, ← Comparison.isInequality_reverse]
          at ht
        obtain ⟨c, hc, hcj⟩ := exists_comparisonCondition.2 ⟨hm, hw, ht⟩
        exact ⟨c, ⟨hop, .inr ⟨m, v, hv, rfl, hc⟩⟩, hcj⟩
  | .conjunction es, i, j, hk => by
    refine (exists_conditionsOfAll_iff es hk).trans (and_congr ⟨.conjunction, fun h => ?_⟩ Iff.rfl)
    cases h with
    | truth h => cases h
    | conjunction h => exact h
  | .disjunction _, i, j, _ | .row, i, j, _ | .call _ _ _, i, j, _ | .record _, i, j, _ => by
    refine ⟨fun ⟨c, hc, _⟩ => by simp [conditions] at hc, fun ⟨hp, _⟩ => ?_⟩
    cases hp with
    | truth h => cases h

theorem exists_conditionsOfAll_iff : ∀ (es : List Expr) {i j : Option String},
    (∀ k ∈ capturesOfAll es, k.IsConstant) →
    ((∃ c, (conditionsOfAll s i es).now = .ok c ∧ c.inequality = j) ↔
      (∀ e ∈ es, e.IsPredicate s) ∧ Tracks i (inequalityColumnsOfAll s es) j)
  | [], i, j, _ => by
    simp [conditionsOfAll, Conjunction.none, inequalityColumnsOfAll, Tracks, eq_comm]
  | e :: es, i, j, hk => by
    obtain ⟨hke, hkes⟩ := forall_mem_capturesOfAll_cons.1 hk
    rw [List.forall_mem_cons, inequalityColumnsOfAll, tracks_append]
    simp only [now_conditionsOfAll_cons hk]
    constructor
    · rintro ⟨_, ⟨a, b, ha, hb, rfl⟩, rfl⟩
      obtain ⟨hpe, hte⟩ := (exists_conditions_iff e hke).1 ⟨a, ha, rfl⟩
      obtain ⟨hpes, htes⟩ := (exists_conditionsOfAll_iff es hkes).1 ⟨b, hb, rfl⟩
      exact ⟨⟨hpe, hpes⟩, a.inequality, hte, htes⟩
    · rintro ⟨⟨hpe, hpes⟩, j₁, hte, htes⟩
      obtain ⟨a, ha, rfl⟩ := (exists_conditions_iff e hke).2 ⟨hpe, hte⟩
      obtain ⟨b, hb, rfl⟩ := (exists_conditionsOfAll_iff es hkes).2 ⟨hpes, htes⟩
      exact ⟨_, ⟨a, b, ha, hb, rfl⟩, rfl⟩

end

end Expr

/-! ## Selectors and counts -/

namespace Expr

variable {s : Schema}

mutual

/-- **A selector is planned when the grammar derives it.** -/
theorem exists_sources_iff : ∀ e : Expr, (∃ sources, e.sources s = .ok sources) ↔ e.IsSelector s
  | .row => ⟨fun _ => .row, fun _ => ⟨_, rfl⟩⟩
  | .value _ => ⟨fun _ => .value, fun _ => ⟨_, rfl⟩⟩
  | .captured _ => ⟨fun _ => .captured, fun _ => ⟨_, rfl⟩⟩
  | .member m => by
    simp only [sources, bind_eq_ok]
    constructor
    · rintro ⟨_, column, hc, -⟩
      exact .member (Schema.exists_column_eq_ok.1 ⟨column, hc⟩)
    · rintro (_ | _ | _ | hm)
      obtain ⟨column, hc⟩ := Schema.exists_column_eq_ok.2 hm
      exact ⟨_, column, hc, rfl⟩
  | .record es => by
    refine (exists_sourcesOfAll_iff es).trans ⟨.record, fun h => ?_⟩
    cases h with
    | record h => exact h
  | .negation _ | .comparison _ _ _ | .conjunction _ | .disjunction _ | .call _ _ _ => by
    refine ⟨fun ⟨_, h⟩ => by simp [sources] at h, fun h => ?_⟩
    cases h

theorem exists_sourcesOfAll_iff : ∀ es : List Expr,
    (∃ sources, sourcesOfAll s es = .ok sources) ↔ ∀ e ∈ es, e.IsSelector s
  | [] => by simp [sourcesOfAll]
  | e :: es => by
    rw [List.forall_mem_cons, ← exists_sources_iff e, ← exists_sourcesOfAll_iff es]
    simp only [sourcesOfAll, bind_eq_ok]
    constructor
    · rintro ⟨_, a, ha, b, hb, -⟩
      exact ⟨⟨a, ha⟩, b, hb⟩
    · rintro ⟨⟨a, ha⟩, b, hb⟩
      exact ⟨_, a, ha, b, hb, rfl⟩

end

end Expr

/-- With at most one projection, the plan is made when its selector is
supported. -/
theorem Pipeline.exists_plan_iff {p : Pipeline}
    (h : (p.stages.filterMap Stage.selector?).length ≤ 1) :
    (∃ plan, p.plan = .ok plan) ↔
      ∀ e ∈ p.stages.filterMap Stage.selector?, e.IsSelector p.schema := by
  unfold Pipeline.plan
  rw [← List.head?_filterMap]
  match hs : p.stages.filterMap Stage.selector?, h with
  | [], _ => simp
  | [e], _ =>
    simp only [List.head?_cons, List.mem_singleton, forall_eq, ← Expr.exists_sources_iff,
      Schema.plan, bind_eq_ok]
    constructor
    · rintro ⟨_, sources, hsources, -⟩
      exact ⟨sources, hsources⟩
    · rintro ⟨sources, hsources⟩
      exact ⟨_, sources, hsources, rfl⟩

/-- A count is read when it is a constant integer that is not negative. -/
theorem Draft.exists_count_iff {pg : Paging} {n : Expr} {log : ReadLog} (h : n.IsConstant) :
    (∃ k log', (Draft.count pg n).after log = (.ok k, log')) ↔ n.IsCount := by
  have hnatural : ∀ v, (∃ k, count.natural pg v = .ok k) ↔ ∃ z, v.asInt? = some z ∧ 0 ≤ z := by
    intro v
    unfold count.natural
    cases v.asInt? with
    | none => simp
    | some z => by_cases hz : 0 ≤ z <;> simp [hz]
  unfold Expr.IsCount
  cases n with
  | value v => simpa [count, Expr.constant?] using hnatural v
  | captured c =>
    have hc := (h c (by simp [Expr.captures])).next log
    simpa [count, Expr.constant?, Reading.after_bind, hc] using hnatural c.first
  | _ => simp [count, Expr.constant?]

/-! ## Runs -/

namespace Ledger

variable {s : Schema} {l l' : Ledger} {log log' : ReadLog}

/-- There is room for stages: nothing is ordered twice, and no two of them
cut out rows in the same way. -/
structure Room (l : Ledger) (stages : List Stage) : Prop where
  order : l.order.isSome.toNat + stages.countP Stage.isOrderBy ≤ 1
  count : ∀ pg, (l.count pg).isSome.toNat + stages.countP (Stage.cuts pg) ≤ 1

theorem room_nil : l.Room [] where
  order := by simpa using Bool.toNat_le _
  count _ := by simpa using Bool.toNat_le _

theorem room_cons {st : Stage} {stages : List Stage} :
    l.Room (st :: stages) ↔
      l.order.isSome.toNat + st.isOrderBy.toNat + stages.countP Stage.isOrderBy ≤ 1 ∧
        ∀ pg, (l.count pg).isSome.toNat + (st.cuts pg).toNat + stages.countP (Stage.cuts pg) ≤ 1 := by
  have hcons : ∀ p : Stage → Bool,
      (st :: stages).countP p = (p st).toNat + stages.countP p := by
    intro p
    rw [List.countP_cons, Nat.add_comm]
    cases p st <;> rfl
  simp only [Nat.add_assoc, ← hcons]
  exact ⟨fun h => ⟨h.order, h.count⟩, fun h => ⟨h.1, h.2⟩⟩

/-- A stage takes its place. -/
theorem Step.room_iff {st : Stage} {stages : List Stage} (h : Step s .strict l log st l' log') :
    l.Room (st :: stages) ↔ l'.Room stages := by
  have horder : l'.order.isSome.toNat = l.order.isSome.toNat + st.isOrderBy.toNat := by
    cases h with
    | orderBy ho => simp [setOrder, ho, Stage.isOrderBy]
    | page hst => cases st <;> cases hst <;> rfl
    | repeated _ hm => cases hm
    | _ => rfl
  have hcount : ∀ pg,
      (l'.count pg).isSome.toNat = (l.count pg).isSome.toNat + (st.cuts pg).toNat := by
    intro pg
    cases hc : st.cuts pg with
    | false =>
      rw [h.count_eq hc]
      rfl
    | true =>
      obtain ⟨hn, hs⟩ := h.count_of_cuts hc
      rw [hn, hs]
      rfl
  rw [room_cons, ← horder]
  simp only [← hcount]
  exact ⟨fun h => ⟨h.1, h.2⟩, fun h => ⟨h.order, h.count⟩⟩

/-- A stage that has been walked was supported. -/
theorem Step.isSupported {st : Stage} (hk : ∀ k ∈ st.captures, k.IsConstant)
    (h : Step s .strict l log st l' log') :
    st.IsSupported s ∧ Tracks l.inequality (st.inequalityColumns s) l'.inequality := by
  have hpredicate : ∀ {e : Expr} {c : Conjunction} {log₁ : ReadLog}, e.IsConstant →
      (e.conditions s l.inequality).after log = (.ok c, log₁) →
      e.IsPredicate s ∧ Tracks l.inequality (e.inequalityColumns s) c.inequality := fun he hc =>
    (Expr.exists_conditions_iff _ he).1 ⟨_, Expr.now_conditions he hc, rfl⟩
  cases h with
  | filter hc => exact hpredicate hk hc
  | project => exact ⟨trivial, rfl⟩
  | orderBy _ hc => exact ⟨⟨_, rfl, Schema.exists_column_eq_ok.1 ⟨_, hc⟩⟩, rfl⟩
  | page hst _ hn =>
    cases st <;> cases hst <;> exact ⟨(Draft.exists_count_iff hk).1 ⟨_, _, hn⟩, rfl⟩
  | repeated _ hm => cases hm
  | close => exact ⟨by simp [Stage.IsSupported], rfl⟩
  | filterClose hc =>
    obtain ⟨hp, ht⟩ := hpredicate hk hc
    exact ⟨by simpa [Stage.IsSupported] using hp, ht⟩

/-- A supported stage for which there is room is walked. -/
theorem exists_step {st : Stage} {stages : List Stage} {j : Option String}
    (hk : ∀ k ∈ st.captures, k.IsConstant) (hs : st.IsSupported s)
    (ht : Tracks l.inequality (st.inequalityColumns s) j) (hr : l.Room (st :: stages))
    (log : ReadLog) : ∃ l' log', Step s .strict l log st l' log' ∧ l'.inequality = j := by
  have hpredicate : ∀ {e : Expr}, e.IsConstant → e.IsPredicate s →
      Tracks l.inequality (e.inequalityColumns s) j →
      ∃ c log', (e.conditions s l.inequality).after log = (.ok c, log') ∧ c.inequality = j := by
    intro e he hp ht
    obtain ⟨c, hc, hj⟩ := (Expr.exists_conditions_iff e he).2 ⟨hp, ht⟩
    obtain ⟨log', hlog⟩ := (Expr.settled_conditions s l.inequality e he).exists_after_eq_ok.2 hc
    exact ⟨c, log', hlog, hj⟩
  obtain ⟨horder, hcount⟩ := room_cons.1 hr
  -- The stage takes up the room that a count would have.
  have hfree : ∀ pg, st.cuts pg = true → l.count pg = none := by
    intro pg hc
    have := hcount pg
    cases hn : l.count pg with
    | none => rfl
    | some k =>
      simp only [hn, hc, Option.isSome_some, Bool.toNat_true] at this
      omega
  match st with
  | .filter e =>
    obtain ⟨c, log', hc, hj⟩ := hpredicate hk hs ht
    exact ⟨_, log', .filter hc, hj⟩
  | .project e => exact ⟨l, log, .project, ht.symm⟩
  | .orderBy key dir =>
    obtain ⟨m, rfl, hm⟩ := hs
    obtain ⟨column, hc⟩ := Schema.exists_column_eq_ok.2 hm
    have ho : l.order = none := by
      cases ho : l.order with
      | none => rfl
      | some o =>
        simp only [ho, Stage.isOrderBy, Option.isSome_some, Bool.toNat_true] at horder
        omega
    exact ⟨_, log, .orderBy ho hc, ht.symm⟩
  | .take n | .skip n =>
    obtain ⟨k, log', hn⟩ := (Draft.exists_count_iff hk).2 hs
    exact ⟨_, log', .page rfl (hfree _ rfl) hn, ht.symm⟩
  | .terminal kind none => exact ⟨_, log, .close (hfree _ rfl), ht.symm⟩
  | .terminal kind (some e) =>
    obtain ⟨c, log', hc, hj⟩ := hpredicate hk (hs e rfl) ht
    exact ⟨_, log', .filterClose hc (hfree _ rfl), hj⟩

/-- **Stages are walked when they are supported and there is room for
them.** -/
theorem exists_run_iff {stages : List Stage} (hk : ∀ st ∈ stages, ∀ k ∈ st.captures, k.IsConstant) :
    (∃ l' log', Run s .strict l log stages l' log') ↔
      (∀ st ∈ stages, st.IsSupported s) ∧
        (∃ j, Tracks l.inequality (stages.flatMap (Stage.inequalityColumns s)) j) ∧
        l.Room stages := by
  induction stages generalizing l log with
  | nil => exact ⟨fun _ => ⟨by simp, ⟨_, rfl⟩, room_nil⟩, fun _ => ⟨l, log, .nil⟩⟩
  | cons st stages ih =>
    rw [List.forall_mem_cons] at hk ⊢
    simp only [List.flatMap_cons, tracks_append]
    constructor
    · rintro ⟨l', log', _ | ⟨hst, hrun⟩⟩
      obtain ⟨hs, ht⟩ := hst.isSupported hk.1
      obtain ⟨hss, ⟨j, hts⟩, hroom⟩ := (ih hk.2).1 ⟨l', log', hrun⟩
      exact ⟨⟨hs, hss⟩, ⟨j, _, ht, hts⟩, hst.room_iff.2 hroom⟩
    · rintro ⟨⟨hs, hss⟩, ⟨j, i, ht, hts⟩, hroom⟩
      obtain ⟨l₁, log₁, hst, rfl⟩ := exists_step hk.1 hs ht hroom log
      obtain ⟨l', log', hrun⟩ := (ih hk.2).2 ⟨hss, ⟨j, hts⟩, hst.room_iff.1 hroom⟩
      exact ⟨l', log', .cons hst hrun⟩

end Ledger

/-- A limit beside a terminal stage is out of the question, so that at most
one limit is to be asked for. -/
theorem TerminalLast.countP_cuts_take {stages : List Stage} (h : TerminalLast stages) :
    stages.countP (Stage.cuts .take) ≤ 1 ↔ stages.countP Stage.isTake ≤ 1 := by
  have htake : ∀ {xs : List Stage}, (∀ st ∈ xs, st.terminal? = none) →
      xs.countP (Stage.cuts .take) = xs.countP Stage.isTake := by
    intro xs hxs
    refine List.countP_congr fun st hst => ?_
    have := hxs st hst
    cases st <;> simp_all [Stage.cuts, Stage.isTake, Stage.terminal?]
  rcases h with h | ⟨before, kind, e, rfl, hb⟩
  · rw [htake h]
  · have hnone : before.countP Stage.isTake = 0 :=
      List.countP_eq_zero.2 fun st hst => by simp [(hb st hst).2]
    rw [List.countP_append, List.countP_append, htake fun st hst => (hb st hst).1, hnone]
    simp [Stage.cuts, Stage.isTake]

theorem countP_cuts_skip {stages : List Stage} :
    stages.countP (Stage.cuts .skip) = stages.countP Stage.isSkip := by
  refine List.countP_congr fun st _ => ?_
  cases st <;> simp [Stage.cuts, Stage.isSkip]

/-! ## Compilation -/

namespace Pipeline

variable {p : Pipeline} {log : ReadLog}

/-- **A pipeline compiles exactly when it is supported**, if its captured
values are constant and its kind and fields have names. Once its stages
have been walked nothing can fail. -/
theorem exists_compile_iff_supported (hp : p.IsConstant) (hkind : p.schema.name ≠ "")
    (hfields : ∀ f ∈ p.schema.fields, f.name ≠ "") :
    (∃ q log', p.compile.after log = (.ok q, log')) ↔ p.Supported := by
  have hroom : ∀ {plan : Plan}, TerminalLast p.stages →
      ((Ledger.start p.schema plan).Room p.stages ↔
        p.stages.countP Stage.isOrderBy ≤ 1 ∧ p.stages.countP Stage.isTake ≤ 1 ∧
          p.stages.countP Stage.isSkip ≤ 1) := by
    intro plan hlast
    rw [← hlast.countP_cuts_take, ← countP_cuts_skip]
    constructor
    · rintro ⟨ho, hc⟩
      exact ⟨by simpa [Ledger.start] using ho, by simpa [Ledger.start] using hc .take,
        by simpa [Ledger.start] using hc .skip⟩
    · rintro ⟨ho, ht, hs⟩
      refine ⟨by simpa [Ledger.start] using ho, fun pg => ?_⟩
      cases pg with
      | take => simpa [Ledger.start] using ht
      | skip => simpa [Ledger.start] using hs
  constructor
  · rintro ⟨q, log', h⟩
    obtain ⟨plan, d, l, hq⟩ := exists_behind h
    obtain ⟨hs, ht, hr⟩ := (Ledger.exists_run_iff hp).1 ⟨l, log', hq.run⟩
    obtain ⟨ho, htake, hskip⟩ := (hroom hq.terminalLast).1 hr
    exact ⟨hs, (exists_plan_iff hq.oneSelector).1 ⟨plan, hq.planned⟩, hq.oneSelector, ho, htake,
      hskip, hq.terminalLast, exists_tracks_none.1 ht⟩
  · intro h
    obtain ⟨plan, hplan⟩ := (exists_plan_iff h.oneSelector).2 h.selectors
    obtain ⟨l, log', hrun⟩ : ∃ l log',
        Ledger.Run p.schema .strict (.start p.schema plan) log p.stages l log' :=
      (Ledger.exists_run_iff hp).2 ⟨h.stages, exists_tracks_none.2 h.oneInequality,
        (hroom h.terminalLast).2 ⟨h.oneOrdering, h.oneTake, h.oneSkip⟩⟩
    obtain ⟨d, hd, hkeep⟩ := Draft.keeps_start.exists_foldlM hrun
    -- The stages have been walked; it remains to write the query.
    have hcolumns : p.schema.Columns (· ≠ "") := Schema.columns_of_forall hfields (by decide)
    have hwritable : l.Writable :=
      hrun.writable hcolumns (Ledger.writable_start hkind (plan_columns hcolumns hplan))
    obtain ⟨text, htext⟩ := hkeep.exists_render hwritable
    rw [← hkeep.finalAst_eq] at htext
    exact ⟨_, log', translate_eq_ok.2
      ⟨checkStages_eq_ok.2 ⟨h.oneSelector, h.terminalLast⟩, plan, d, text, hplan, hd, htext, rfl⟩⟩

theorem supported_sample :
    sample.IsConstant ∧ sample.schema.name ≠ "" ∧ (∀ f ∈ sample.schema.fields, f.name ≠ "") ∧
      sample.Supported := by
  have h : ∃ q log', sample.compile.after [] = (.ok q, log') := ⟨_, _, rfl⟩
  exact ⟨isConstant_sample, by decide, by decide,
    (exists_compile_iff_supported isConstant_sample (by decide) (by decide)).1 h⟩

end Pipeline

end KindQuery
