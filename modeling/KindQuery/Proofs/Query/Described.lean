import KindQuery.Proofs.Query.Collapsed
import KindQuery.Proofs.Query.Matched
/-!
# What a shape says of its query

The marks of a shape are found while a pipeline is walked, and what a predicate
leaves is joined to what was there before it. What they amount to in the end can
be told without a walk: two of them from the fragments of the query, one from the
conditions that are constants, and the others from the terminal stage
(`Pipeline.isDescribed_of_translate`). A ledger carries it through a run
(`Ledger.IsDescribed`): each stage adds to its conditions, to the leaves that have
been walked and to the terminal stages, and marks what it adds.
-/

namespace KindQuery

/-! ## Leaves -/

/-- A condition that stands alone or in a conjunction, and the readings before
it. -/
structure Leaf where
  log : ReadLog
  condition : Expr

/-- **A leaf that is a constant condition**: the constant `true`, or the negation
of the constant `false`, whether it is literal or captured. -/
def Leaf.IsConstant (leaf : Leaf) : Prop :=
  match leaf.condition with
  | .negation e => e.constantAfter? leaf.log = some (.bool false)
  | e => e.constantAfter? leaf.log = some (.bool true)

mutual

/-- The leaves of a predicate from left to right, when some values have been read
before. -/
def Expr.leavesAfter (log : ReadLog) : Expr → List Leaf
  | .conjunction es => Expr.leavesAfterAll log es
  | e => [⟨log, e⟩]

/-- Those of several predicates one after the other. -/
def Expr.leavesAfterAll (log : ReadLog) : List Expr → List Leaf
  | [] => []
  | e :: es => e.leavesAfter log ++ Expr.leavesAfterAll (e.logAfter log) es

end

/-- The leaves of a stage. -/
def Stage.leavesAfter (log : ReadLog) (st : Stage) : List Leaf :=
  (st.predicate?.map (Expr.leavesAfter log)).getD []

/-- Those of stages one after the other. -/
def Stage.leavesAfterAll (log : ReadLog) : List Stage → List Leaf
  | [] => []
  | st :: stages =>
    st.leavesAfter log ++ Stage.leavesAfterAll (log ++ st.evaluated.map Captured.id) stages

/-- The leaves of a pipeline. A repeated limit or offset that is ignored is not
read. -/
def Pipeline.leavesAfter (p : Pipeline) (mode : Mode) (log : ReadLog) : List Leaf :=
  match mode with
  | .strict => Stage.leavesAfterAll log p.stages
  | .collapsing => Stage.leavesAfterAll log p.dropRepeats.stages

/-! ## Predicates -/

/-- What a mark says of conditions and of leaves. -/
def Mark.Says (ks : List Condition) (leaves : List Leaf) : Mark → Prop
  | .hasMember => ks ≠ []
  | .hasInequality => ∃ k ∈ ks, k.op.isInequality = true
  | .hasConstantBoolean => ∃ leaf ∈ leaves, leaf.IsConstant
  | _ => False

theorem Mark.says_append {ks ks' : List Condition} {leaves leaves' : List Leaf} {m : Mark} :
    m.Says (ks ++ ks') (leaves ++ leaves') ↔ m.Says ks leaves ∨ m.Says ks' leaves' := by
  cases m with
  | hasMember =>
    simp only [Says, ne_eq, List.append_eq_nil_iff]
    tauto
  | hasInequality | hasConstantBoolean => simp only [Says, List.mem_append, or_and_right, exists_or]
  | _ => simp only [Says, or_self]

/-- The terminal stages that leave a mark. -/
def Mark.terminals : Mark → List Terminal
  | .isFirst => [.first, .firstOrDefault]
  | .isSingle => [.single, .singleOrDefault]
  | .isAny => [.any]
  | .allowDefault => [.firstOrDefault, .singleOrDefault]
  | _ => []

theorem Draft.mem_terminalMarks_iff {m : Mark} {kind : Terminal} :
    m ∈ terminalMarks kind ↔ kind ∈ m.terminals := by
  cases m <;> cases kind <;> decide

namespace Expr

variable {s : Schema} {i : Option String} {c : Conjunction}

/-- A constant condition leaves its mark, and nothing else. -/
theorem says_of_constant (log : ReadLog) (e : Expr) (constant : Leaf.IsConstant ⟨log, e⟩)
    (m : Mark) : (Shape.ofMarks [.hasConstantBoolean]).has m = true ↔ m.Says [] [⟨log, e⟩] := by
  cases m <;> simp [Shape.ofMarks, Mark.Says, constant]

/-- A comparison leaves the mark of its member, and that of an inequality if it is
one. -/
theorem says_of_condition (log : ReadLog) (e : Expr) (varying : ¬ Leaf.IsConstant ⟨log, e⟩)
    (k : Condition) (m : Mark) :
    (Shape.ofMarks (if k.op.isInequality then [.hasMember, .hasInequality]
      else [.hasMember])).has m = true ↔ m.Says [k] [⟨log, e⟩] := by
  cases hk : k.op.isInequality <;> cases m <;> simp [Shape.ofMarks, Mark.Says, varying, hk]

theorem says_of_operands (log : ReadLog) (e : Expr) (varying : ¬ Leaf.IsConstant ⟨log, e⟩)
    {l r : Operand} {op : Comparison} (h : operandsCondition s i op l r = .ok c) (m : Mark) :
    c.shape.has m = true ↔ m.Says c.conditions [⟨log, e⟩] := by
  rcases operandsCondition_eq_ok.1 h with ⟨_, _, -, -, h⟩ | ⟨_, _, -, -, h⟩
  all_goals
    obtain ⟨column, _, operand, -, -, -, rfl⟩ := comparisonCondition_eq_ok.1 h
    exact says_of_condition log e varying ⟨column, _, operand⟩ m

mutual

/-- **A predicate is marked** by what its conditions and its leaves are. -/
theorem says_conditions : ∀ (e : Expr) {i : Option String} {c : Conjunction}
    {log log' : ReadLog}, (e.conditions s i).after log = (.ok c, log') →
    ∀ m, c.shape.has m = true ↔ m.Says c.conditions (e.leavesAfter log)
  | .value v, _, _, log, _, h, m => by
    obtain ⟨rfl, rfl⟩ := constantCondition_eq_ok.1 (Prod.mk.inj h).1
    exact says_of_constant log (.value (.bool true)) rfl m
  | .captured k, _, _, log, _, h, m => by
    obtain ⟨v, _, hv, h⟩ := Reading.after_bind_eq_ok.1 h
    obtain ⟨rfl, rfl⟩ := constantCondition_eq_ok.1 (Prod.mk.inj h).1
    exact says_of_constant log (.captured k) (congrArg some (Except.ok.inj (Prod.mk.inj hv).1)) m
  | .member field, _, _, log, _, h, m => by
    obtain ⟨column, -, -, rfl⟩ := boolCondition_eq_ok.1 (Prod.mk.inj h).1
    exact says_of_condition log (.member field) nofun ⟨column, .eq, _⟩ m
  | .negation (.member field), _, _, log, _, h, m => by
    obtain ⟨column, -, -, rfl⟩ := boolCondition_eq_ok.1 (Prod.mk.inj h).1
    exact says_of_condition log (.negation (.member field)) nofun ⟨column, .eq, _⟩ m
  | .negation (.value (.bool b)), _, _, log, _, h, m => by
    obtain ⟨hb, rfl⟩ := constantCondition_eq_ok.1 (Prod.mk.inj h).1
    cases b
    · exact says_of_constant log (.negation (.value (.bool false))) rfl m
    · cases hb
  | .negation (.captured k), _, _, log, _, h, m => by
    obtain ⟨v, _, hv, h⟩ := Reading.after_bind_eq_ok.1 h
    obtain ⟨rfl, rfl⟩ := negatedConstant_eq_ok.1 (Prod.mk.inj h).1
    exact says_of_constant log (.negation (.captured k))
      (congrArg some (Except.ok.inj (Prod.mk.inj hv).1)) m
  | .conjunction es, _, _, _, _, h, m => says_conditionsOfAll es h m
  | .comparison lhs op rhs, _, _, log, _, h, m => by
    cases op
    case ne => cases h
    all_goals
      obtain ⟨l, log₁, -, h⟩ := Reading.after_bind_eq_ok.1 h
      obtain ⟨r, log₂, -, h⟩ := Reading.after_bind_eq_ok.1 h
      exact says_of_operands log (.comparison lhs _ rhs) nofun (Prod.mk.inj h).1 m

theorem says_conditionsOfAll : ∀ (es : List Expr) {i : Option String} {c : Conjunction}
    {log log' : ReadLog}, (conditionsOfAll s i es).after log = (.ok c, log') →
    ∀ m, c.shape.has m = true ↔ m.Says c.conditions (leavesAfterAll log es)
  | [], _, _, _, _, h, m => by
    cases h
    cases m <;> simp [Conjunction.none, Mark.Says, leavesAfterAll]
  | e :: es, i, _, log, _, h, m => by
    obtain ⟨a, log₁, ha, h⟩ := Reading.after_bind_eq_ok.1 h
    obtain ⟨b, log₂, hb, h⟩ := Reading.after_bind_eq_ok.1 h
    cases h
    have read : log₁ = e.logAfter log := logs_conditions s e i log a log₁ ha
    rw [Conjunction.append, Shape.has_union, Bool.or_eq_true, says_conditions e ha m,
      says_conditionsOfAll es hb m, read, leavesAfterAll, Mark.says_append]

end

end Expr

/-! ## Stages -/

namespace Ledger

variable {s : Schema} {l l' : Ledger} {log log' : ReadLog} {st : Stage} {leaves : List Leaf}
  {kinds : List Terminal}

/-- **The shape of a ledger says what has been walked**: the conditions, the leaves
and the terminal stages. -/
def IsDescribed (l : Ledger) (leaves : List Leaf) (kinds : List Terminal) : Prop :=
  ∀ m, l.shape.has m = true ↔
    m.Says l.conditions leaves ∨ ∃ kind ∈ kinds, kind ∈ m.terminals

theorem isDescribed_start {plan : Plan} : (start s plan).IsDescribed [] [] := by
  intro m
  cases m <;> simp [start, Mark.Says]

theorem IsDescribed.require {e : Expr} {c : Conjunction} (h : l.IsDescribed leaves kinds)
    (hc : (e.conditions s l.inequality).after log = (.ok c, log')) :
    (l.require c).IsDescribed (leaves ++ e.leavesAfter log) kinds := by
  intro m
  rw [Ledger.require, Shape.has_union, Bool.or_eq_true, h m, e.says_conditions hc m,
    Mark.says_append, or_right_comm]

theorem IsDescribed.close (h : l.IsDescribed leaves kinds) (kind : Terminal) :
    (l.close kind).IsDescribed leaves (kinds ++ [kind]) := by
  intro m
  have marked : (Shape.ofMarks (Draft.terminalMarks kind)).has m = true ↔ kind ∈ m.terminals :=
    List.contains_iff_mem.trans Draft.mem_terminalMarks_iff
  change (l.shape.union _).has m = true ↔ m.Says l.conditions leaves ∨ _
  rw [Shape.has_union, Bool.or_eq_true, h m, marked, or_assoc]
  simp only [List.mem_append, List.mem_singleton, or_and_right, exists_or, exists_eq_left]

/-- **A stage marks what it adds.** -/
theorem IsDescribed.step {mode : Mode} (h : l.IsDescribed leaves kinds)
    (step : Step s mode l log st l' log') :
    l'.IsDescribed (leaves ++ st.leavesAfter log) (kinds ++ st.terminal?.toList) := by
  have same : l.IsDescribed (leaves ++ []) (kinds ++ []) := by
    rwa [List.append_nil, List.append_nil]
  cases step with
  | filter hc =>
    have added := h.require hc
    rw [← List.append_nil kinds] at added
    exact added
  | project | orderBy => exact same
  | page hst | repeated hst => cases st <;> cases hst <;> exact same
  | @close kind =>
    have closed := h.close kind
    rw [← List.append_nil leaves] at closed
    exact closed
  | filterClose hc => exact (h.require hc).close _

/-- **And a run marks what its stages add.** -/
theorem IsDescribed.run {stages : List Stage} (run : Run s .strict l log stages l' log')
    (h : l.IsDescribed leaves kinds) :
    l'.IsDescribed (leaves ++ Stage.leavesAfterAll log stages)
      (kinds ++ stages.filterMap Stage.terminal?) := by
  induction run generalizing leaves kinds with
  | nil =>
    rw [Stage.leavesAfterAll, List.filterMap_nil, List.append_nil, List.append_nil]
    exact h
  | @cons _ _ _ _ _ _ st stages step _ ih =>
    have kinds' : (st :: stages).filterMap Stage.terminal? =
        st.terminal?.toList ++ stages.filterMap Stage.terminal? := by
      cases ht : st.terminal? with
      | none => exact List.filterMap_cons_none ht
      | some kind => exact List.filterMap_cons_some ht
    rw [Stage.leavesAfterAll, kinds', ← List.append_assoc, ← List.append_assoc, ← step.log_eq]
    exact ih (h.step step)

end Ledger

/-! ## Fragments -/

/-- A fragment that says the same of a condition whatever its parameter is belongs
to a clause if it belongs to one of its conditions. -/
theorem Condition.mem_clause_iff {f : Fragment} {P : Condition → Prop} (alone : f ≠ .and)
    (each : ∀ n k, f ∈ Condition.fragments n k ↔ P k) {n : Nat} {ks : List Condition} :
    f ∈ clause n ks ↔ ∃ k ∈ ks, P k := by
  induction ks generalizing n with
  | nil => simp [clause]
  | cons k ks ih =>
    by_cases hks : ks = []
    · subst hks
      simp [clause, each]
    · rw [clause_cons hks, List.mem_append, List.mem_cons, each, ih, List.exists_mem_cons_iff]
      simp only [alone, false_or]

namespace Draft.Keeps

variable {d : Draft} {l : Ledger} {f : Fragment}

/-- What belongs to conditions is in their clause. -/
theorem mem_fragments_iff (h : d.Keeps l) (unmarked : f.isMark = false)
    (later : f ∉ [.select, .projection l.columns, .source, .kind l.kind, .condition]) :
    f ∈ d.ast.fragments ↔ f ∈ Condition.clause 0 l.conditions := by
  have inPlace : f ∈ d.ast.fragments ↔ f ∈ l.inPlace := by
    rw [← h.inPlace, List.mem_filter, unmarked]
    simp only [Bool.not_false, and_true]
  rw [inPlace, Ledger.inPlace, Ledger.clause]
  simp only [List.mem_cons, List.not_mem_nil, or_false, not_or] at later
  obtain ⟨select, projection, source, kind, condition⟩ := later
  cases hl : l.conditions with
  | nil => simp [Condition.clause, select, projection, source, kind]
  | cons k ks => simp [select, projection, source, kind, condition]

theorem exists_member_iff (h : d.Keeps l) :
    (∃ column, Fragment.member column ∈ d.ast.fragments) ↔ l.conditions ≠ [] := by
  have each : ∀ column n k, Fragment.member column ∈ Condition.fragments n k ↔
      column = k.column := by
    intro column n k
    cases hk : k.bindsParam <;> simp [Condition.fragments, hk]
  have mem : ∀ column, Fragment.member column ∈ d.ast.fragments ↔
      ∃ k ∈ l.conditions, column = k.column := by
    intro column
    rw [h.mem_fragments_iff rfl (by simp), Condition.mem_clause_iff (by simp) (each column)]
  simp only [mem]
  constructor
  · rintro ⟨_, k, hk, -⟩
    exact List.ne_nil_of_mem hk
  · intro some
    obtain ⟨k, hk⟩ := List.exists_mem_of_ne_nil _ some
    exact ⟨k.column, k, hk, rfl⟩

theorem mem_operator_iff (h : d.Keeps l) {op : Comparison} :
    Fragment.operator op ∈ d.ast.fragments ↔ ∃ k ∈ l.conditions, op = k.op := by
  have each : ∀ n k, Fragment.operator op ∈ Condition.fragments n k ↔ op = k.op := by
    intro n k
    cases hk : k.bindsParam <;> simp [Condition.fragments, hk]
  rw [h.mem_fragments_iff rfl (by simp), Condition.mem_clause_iff (by simp) each]

end Draft.Keeps

/-! ## Queries -/

/-- **A shape that says what its query is**, given the leaves of its predicates and
its terminal stage. -/
structure Compiled.IsDescribed (q : Compiled) (leaves : List Leaf) (terminal : Option Terminal) :
    Prop where
  /-- Where the walk was is not kept. -/
  walk : ∀ m ∈ [Mark.inTake, .inSkip, .inNot], q.shape.has m = false
  member : q.shape.has .hasMember = true ↔ ∃ column, Fragment.member column ∈ q.ast.fragments
  inequality : q.shape.has .hasInequality = true ↔
    ∃ op ∈ [Comparison.lt, .le, .gt, .ge], Fragment.operator op ∈ q.ast.fragments
  constant : q.shape.has .hasConstantBoolean = true ↔ ∃ leaf ∈ leaves, leaf.IsConstant
  first : q.shape.has .isFirst = true ↔
    ∃ kind ∈ [Terminal.first, .firstOrDefault], terminal = some kind
  single : q.shape.has .isSingle = true ↔
    ∃ kind ∈ [Terminal.single, .singleOrDefault], terminal = some kind
  any : q.shape.has .isAny = true ↔ terminal = some .any
  default : q.shape.has .allowDefault = true ↔
    ∃ kind ∈ [Terminal.firstOrDefault, .singleOrDefault], terminal = some kind

/-- What a query is described by is what its ledger is. -/
theorem Ledger.IsDescribed.compiled {q : Compiled} {d : Draft} {l : Ledger} {leaves : List Leaf}
    {terminal : Option Terminal} (h : l.IsDescribed leaves terminal.toList) (keeps : d.Keeps l)
    (shape : q.shape = d.shape) (ast : q.ast = d.ast) : q.IsDescribed leaves terminal := by
  have marked : ∀ m, q.shape.has m = true ↔
      m.Says l.conditions leaves ∨ ∃ kind ∈ m.terminals, terminal = some kind := by
    intro m
    rw [shape, keeps.shape, h m]
    simp only [Option.mem_toList, and_comm]
  have said : ∀ m, m.terminals = [] → (q.shape.has m = true ↔ m.Says l.conditions leaves) := by
    intro m unclosed
    rw [marked, unclosed]
    exact or_iff_left fun ⟨_, hkind, _⟩ => nomatch hkind
  have closed : ∀ m : Mark, ¬ m.Says l.conditions leaves →
      (q.shape.has m = true ↔ ∃ kind ∈ m.terminals, terminal = some kind) := by
    intro m unsaid
    rw [marked, or_iff_right unsaid]
  constructor
  case walk =>
    intro m hm
    refine Bool.eq_false_iff.2 fun set => ?_
    simp only [List.mem_cons, List.not_mem_nil, or_false] at hm
    rcases hm with rfl | rfl | rfl <;> exact (said _ rfl).1 set
  case member =>
    rw [ast, keeps.exists_member_iff]
    exact said .hasMember rfl
  case inequality =>
    have inequal : ∀ op : Comparison, op.isInequality = true ↔ op ∈ [.lt, .le, .gt, .ge] := by
      intro op
      cases op <;> decide
    rw [said .hasInequality rfl, ast, Mark.Says]
    simp only [inequal, keeps.mem_operator_iff]
    constructor
    · rintro ⟨k, hk, hop⟩
      exact ⟨k.op, hop, k, hk, rfl⟩
    · rintro ⟨_, hop, k, hk, rfl⟩
      exact ⟨k, hk, hop⟩
  case constant => exact said .hasConstantBoolean rfl
  case first => exact closed .isFirst nofun
  case single => exact closed .isSingle nofun
  case any => simpa [Mark.terminals] using closed .isAny nofun
  case default => exact closed .allowDefault nofun

namespace Pipeline

variable {p : Pipeline} {mode : Mode} {log log' : ReadLog} {q : Compiled}

theorem filterMap_terminal? {stages : List Stage} (h : TerminalLast stages) :
    stages.filterMap Stage.terminal? = (stages.findSome? Stage.terminal?).toList := by
  rcases h with unclosed | ⟨before, kind, e, rfl, hb⟩
  · rw [List.filterMap_eq_nil_iff.2 unclosed, List.findSome?_eq_none_iff.2 unclosed]
    rfl
  · have unclosed : ∀ st ∈ before, st.terminal? = none := fun st hst => (hb st hst).1
    rw [List.filterMap_append, List.findSome?_append, List.filterMap_eq_nil_iff.2 unclosed,
      List.findSome?_eq_none_iff.2 unclosed]
    rfl

/-- In strict mode all stages are read. -/
theorem isDescribed_compile (h : p.compile.after log = (.ok q, log')) :
    q.IsDescribed (Stage.leavesAfterAll log p.stages) (p.stages.findSome? Stage.terminal?) := by
  obtain ⟨plan, d, l, behind⟩ := exists_behind h
  obtain ⟨text, -, hq⟩ := behind.exists_text h
  have described := Ledger.isDescribed_start.run behind.run
  rw [List.nil_append, List.nil_append, filterMap_terminal? behind.terminalLast] at described
  exact described.compiled behind.keeps (by rw [hq]; rfl) behind.ast

/-- **A shape says what its query is.** Nothing is left of where the walk was. There
is a mark for members and one for inequalities just if there are such fragments, and
one for constant conditions just if a leaf of a predicate was one when it was read.
The other marks are those of the terminal stage. -/
theorem isDescribed_of_translate (h : (p.translate mode).after log = (.ok q, log')) :
    q.IsDescribed (p.leavesAfter mode log) (p.stages.findSome? Stage.terminal?) := by
  cases mode with
  | strict => exact isDescribed_compile h
  | collapsing =>
    obtain ⟨plan, d, l, behind⟩ := exists_behind h
    have ends : TerminalEnds p.stages := terminalEnds_iff.2 <|
      behind.terminalLast.imp id fun ⟨before, kind, e, heq, hb⟩ =>
        ⟨before, kind, e, heq, fun st hst => (hb st hst).1⟩
    rw [translate_collapsing ends] at h
    have terminal : p.dropRepeats.stages.findSome? Stage.terminal? =
        p.stages.findSome? Stage.terminal? := findSome?_dropRepeats terminal?_of_page?
    rw [← terminal]
    exact isDescribed_compile h

/-- A pipeline with a captured value that is `true` only at its first reading, which
both of its constant conditions need. -/
def alternating : Pipeline where
  schema := sample.schema
  stages :=
    [.skip (.value (.int32 1)), .skip .row,
      .filter (.conjunction [.captured ⟨0, .bool true, [.bool false]⟩,
        .conjunction [.negation (.captured ⟨0, .bool true, [.bool false]⟩)],
        .comparison (.value (.int32 5)) .lt (.field "Age")]),
      .terminal .firstOrDefault none]

/-- Both are accepted, and the second offset is ignored. -/
theorem alternating_isDescribed :
    ∃ q log', (alternating.translate .collapsing).after [] = (.ok q, log') ∧
      q.shape.has .hasConstantBoolean = true ∧ q.shape.has .hasInequality = true ∧
      q.shape.has .allowDefault = true ∧ q.shape.has .isAny = false ∧
      q.shape.has .inSkip = false := by
  obtain ⟨q, log', h, greater⟩ :
      ∃ q log', (alternating.translate .collapsing).after [] = (.ok q, log') ∧
        Fragment.operator .gt ∈ q.ast.fragments :=
    ⟨_, _, rfl, by decide⟩
  have described := isDescribed_of_translate h
  refine ⟨q, log', h, described.constant.2 ⟨⟨[], .captured _⟩, List.mem_cons_self, rfl⟩,
    described.inequality.2 ⟨.gt, by decide, greater⟩,
    described.default.2 ⟨.firstOrDefault, by decide, rfl⟩, ?_, described.walk _ (by decide)⟩
  exact Bool.eq_false_iff.2 fun set => nomatch described.any.1 set

end Pipeline

end KindQuery
