import KindQuery.Proofs.Query.Rendered
/-!
# The grammar of queries

Apart from the marks of what is written at the end, the fragments of a query
are a sentence of a small grammar: what is selected from where, and behind a
`WHERE` one or more comparisons with an `AND` between any two. Joiners are
written at two places, inside a predicate and between predicates. That they
fit together is read off the ledger, which has the conditions of all stages in
one list. Where the marks stand is no matter of the ledger, and is followed
along the drafts (`Ast.Arranged`).
-/

namespace KindQuery

/-! ## Sentences -/

namespace Fragment

/-- What a column is compared with. -/
inductive IsOperand : Fragment → Prop
  | param (name : String) : IsOperand (.param name)
  | null : IsOperand (.constant "NULL")

/-- One or more comparisons, joined. -/
inductive IsConjunction : List Fragment → Prop
  | single {column : String} {op : Comparison} {operand : Fragment} :
      op ≠ .ne → operand.IsOperand → IsConjunction [.member column, .operator op, operand]
  | cons {column : String} {op : Comparison} {operand : Fragment} {rest : List Fragment} :
      op ≠ .ne → operand.IsOperand → IsConjunction rest →
      IsConjunction (.member column :: .operator op :: operand :: .and :: rest)

/-- What comes before the conditions of a query. -/
def selection (columns kind : String) : List Fragment :=
  [.select, .projection columns, .source, .kind kind]

/-- **A query without its marks.** -/
inductive IsQuery (columns kind : String) : List Fragment → Prop
  | all : IsQuery columns kind (selection columns kind)
  | condition {clause : List Fragment} :
      IsConjunction clause → IsQuery columns kind (selection columns kind ++ .condition :: clause)

/-- Every `AND` joins two conjunctions. -/
theorem IsConjunction.joins {fs : List Fragment} (h : IsConjunction fs) :
    ∀ front back, fs = front ++ .and :: back → IsConjunction front ∧ IsConjunction back := by
  induction h with
  | single _ hoperand =>
    intro front back heq
    match front, heq with
    | [_, _], heq =>
      cases heq
      cases hoperand
    | _ :: _ :: _ :: front, heq => simp at heq
  | @cons _ _ operand rest hop hoperand hrest ih =>
    intro front back heq
    match front, heq with
    | [_, _], heq =>
      cases heq
      cases hoperand
    | [_, _, _], heq =>
      cases heq
      exact ⟨.single hop hoperand, hrest⟩
    | _ :: _ :: _ :: _ :: front, heq =>
      simp only [List.cons_append, List.cons.injEq] at heq
      obtain ⟨rfl, rfl, rfl, rfl, heq⟩ := heq
      obtain ⟨hfront, hback⟩ := ih front back heq
      exact ⟨.cons hop hoperand hfront, hback⟩

/-- Every column is compared. -/
theorem IsConjunction.compares {fs : List Fragment} (h : IsConjunction fs) :
    ∀ front column back, fs = front ++ .member column :: back →
      ∃ op operand rest, back = .operator op :: operand :: rest ∧ op ≠ .ne ∧ operand.IsOperand := by
  induction h with
  | @single _ op operand hop hoperand =>
    intro front column back heq
    match front, heq with
    | [], heq =>
      cases heq
      exact ⟨op, operand, [], rfl, hop, hoperand⟩
    | [_, _], heq =>
      cases heq
      cases hoperand
    | _ :: _ :: _ :: front, heq => simp at heq
  | @cons _ op operand rest hop hoperand _ ih =>
    intro front column back heq
    match front, heq with
    | [], heq =>
      cases heq
      exact ⟨op, operand, _, rfl, hop, hoperand⟩
    | [_, _], heq =>
      cases heq
      cases hoperand
    | _ :: _ :: _ :: _ :: front, heq =>
      simp only [List.cons_append, List.cons.injEq] at heq
      exact ih front column back heq.2.2.2.2

end Fragment

open Fragment (IsOperand IsConjunction IsQuery)

/-- The clause of conditions is a conjunction, however many parameters have
been bound before. -/
theorem Condition.isConjunction_clause {n : Nat} {ks : List Condition} (hks : ks ≠ [])
    (hop : ∀ k ∈ ks, k.op ≠ .ne) : IsConjunction (clause n ks) := by
  have hoperand : ∀ m (k : Condition), IsOperand
      (if k.bindsParam then .param (Param.numberedName m) else .constant "NULL") := by
    intro m k
    split
    · exact .param _
    · exact .null
  induction ks generalizing n with
  | nil => exact absurd rfl hks
  | cons k ks ih =>
    rw [List.forall_mem_cons] at hop
    by_cases hrest : ks = []
    · subst hrest
      exact .single hop.1 (hoperand (n + 1) k)
    · rw [clause_cons hrest]
      exact .cons hop.1 (hoperand (n + 1) k) (ih hrest hop.2)

/-! ## Conditions of a pipeline -/

/-- The predicate of the stage yields the condition. -/
def Stage.Yields (s : Schema) (st : Stage) (k : Condition) : Prop :=
  ∃ e ∈ st.predicate?, e.Yields s k

namespace Ledger

variable {s : Schema} {mode : Mode} {l l' : Ledger} {log log' : ReadLog}

/-- A stage enters the conditions of its predicate. -/
theorem Step.yields {st : Stage} (h : Step s mode l log st l' log') :
    ∀ k ∈ l'.conditions, k ∈ l.conditions ∨ st.Yields s k := by
  intro k hk
  cases h with
  | project | orderBy | page | repeated | close => exact .inl hk
  | filter hc | filterClose hc =>
    exact (List.mem_append.1 hk).imp id
      fun hk => ⟨_, rfl, Expr.yields_of_mem_conditions _ hc k hk⟩

/-- **The conditions of a run** are those of its stages. -/
theorem Run.yields {stages : List Stage} (h : Run s mode l log stages l' log') :
    ∀ k ∈ l'.conditions, k ∈ l.conditions ∨ ∃ st ∈ stages, st.Yields s k := by
  induction h with
  | nil => exact fun k hk => .inl hk
  | @cons _ _ _ _ _ _ st _ hst _ ih =>
    intro k hk
    rcases ih k hk with hk | ⟨st', hmem, hyields⟩
    · exact (hst.yields k hk).imp id fun h => ⟨st, List.mem_cons_self, h⟩
    · exact .inr ⟨st', List.mem_cons_of_mem _ hmem, hyields⟩

end Ledger

/-! ## Places of marks -/

namespace Fragment

/-- The two marks of an ordering stand side by side, and there is no other
one. -/
inductive OrdersOnce : List Fragment → Prop
  | unordered {fs : List Fragment} : (∀ f ∈ fs, f.isOrder = false) → OrdersOnce fs
  | ordered {front back : List Fragment} {dir : Direction} {column : String} :
      (∀ f ∈ front, f.isOrder = false) → (∀ f ∈ back, f.isOrder = false) →
      OrdersOnce (front ++ .orderBy dir :: .orderByField column :: back)

theorem OrdersOnce.concat {fs : List Fragment} {f : Fragment} (h : OrdersOnce fs)
    (hf : f.isOrder = false) : OrdersOnce (fs ++ [f]) := by
  cases h with
  | unordered hfs => exact .unordered (List.forall_mem_append.2 ⟨hfs, by simpa using hf⟩)
  | ordered hfront hback =>
    rw [List.append_assoc]
    exact .ordered hfront (List.forall_mem_append.2 ⟨hback, by simpa using hf⟩)

/-- Without a direction there is no ordering at all. -/
theorem OrdersOnce.isOrder_eq {fs : List Fragment} (h : OrdersOnce fs)
    (hnone : ∀ f ∈ fs, f.kindOf ≠ .orderBy) : ∀ f ∈ fs, f.isOrder = false := by
  cases h with
  | unordered hfs => exact hfs
  | @ordered front back dir _ _ _ => exact absurd rfl (hnone (.orderBy dir) (by simp))

end Fragment

open Fragment (OrdersOnce)

namespace Ast

variable {a : Ast} {f : Fragment}

/-- No kind of singletons has two fragments. -/
def Singular (a : Ast) : Prop :=
  ∀ f : Fragment, f.isSingleton = true → a.fragments.countP (·.kindOf == f.kindOf) ≤ 1

theorem Singular.push (h : a.Singular) (f : Fragment) : (a.push f).Singular := by
  intro g hg
  by_cases hkind : f.kindOf = g.kindOf
  · have hf : f.isSingleton = true := by
      rw [Fragment.isSingleton, hkind]
      exact hg
    cases hc : a.contains f with
    | true =>
      rw [push_of_contains hf hc]
      exact h g hg
    | false =>
      have hnone : a.fragments.countP (·.kindOf == g.kindOf) = 0 := by
        rw [← hkind]
        exact List.countP_eq_zero.2 (List.any_eq_false.1 hc)
      rw [push_of_not_contains hc, List.countP_append, hnone]
      simp [hkind]
  · rcases fragments_push a f with hpush | hpush
    · rw [hpush]
      exact h g hg
    · rw [hpush, List.countP_append]
      simpa [hkind] using h g hg

/-- **An arranged query** has its singletons once, and the marks of its ordering
together. -/
structure Arranged (a : Ast) : Prop where
  singular : a.Singular
  orders : OrdersOnce a.fragments

namespace Arranged

theorem push (h : a.Arranged) (hf : f.isOrder = false) : (a.push f).Arranged where
  singular := h.singular.push f
  orders := by
    rcases fragments_push a f with hpush | hpush
    · rw [hpush]
      exact h.orders
    · rw [hpush]
      exact h.orders.concat hf

theorem extend {fs : List Fragment} (h : a.Arranged) (hfs : ∀ f ∈ fs, f.isOrder = false) :
    (a.extend fs).Arranged := by
  induction fs generalizing a with
  | nil => exact h
  | cons f fs ih =>
    rw [List.forall_mem_cons] at hfs
    exact ih (h.push hfs.1) hfs.2

/-- An ordering is pushed as a whole where there is none. -/
theorem order (h : a.Arranged) (dir : Direction) (column : String)
    (hnone : a.contains (.orderBy dir) = false) :
    ((a.push (.orderBy dir)).push (.orderByField column)).Arranged where
  singular := (h.singular.push _).push _
  orders := by
    have hunordered : ∀ f ∈ a.fragments, f.isOrder = false :=
      h.orders.isOrder_eq fun f hf hkind => List.any_eq_false.1 hnone f hf (beq_iff_eq.2 hkind)
    have hfield : (a.push (.orderBy dir)).contains (.orderByField column) = false := by
      rw [contains_push, Bool.or_eq_false_iff]
      refine ⟨List.any_eq_false.2 fun f hf hkind => ?_, rfl⟩
      have hf := hunordered f hf
      rw [Fragment.isOrder, eq_of_beq hkind] at hf
      cases hf
    rw [push_of_not_contains hfield, push_of_not_contains hnone, List.append_assoc]
    exact .ordered hunordered (List.forall_mem_nil _)

end Arranged

end Ast

namespace Draft

variable {s : Schema} {mode : Mode} {d d' : Draft} {log log' : ReadLog}

theorem arranged_start (s : Schema) (plan : Plan) : (start s plan).ast.Arranged := by
  have hempty : Ast.empty.Arranged := ⟨fun _ _ => Nat.zero_le 1, .unordered nofun⟩
  refine hempty.extend ?_
  simp [Fragment.isOrder, Fragment.kindOf, Fragment.Kind.isOrder]

theorem arranged_require (h : d.ast.Arranged) (c : Conjunction) : (d.require c).ast.Arranged := by
  unfold require
  dsimp only
  split
  · exact h
  · refine (h.push ?_).extend fun f hf => ?_
    · split <;> rfl
    · have hsingle := Condition.isSingleton_of_mem_clause hf
      cases f <;> first | rfl | cases hsingle

theorem arranged_bindCount (h : d.ast.Arranged) (pg : Paging) (n : Int64) :
    (d.bindCount pg n).ast.Arranged := h.push (by cases pg <;> rfl)

/-- **A stage keeps the query arranged.** -/
theorem arranged_stage {st : Stage} (h : d.ast.Arranged)
    (hst : (stage s mode d st).after log = (.ok d', log')) : d'.ast.Arranged := by
  have hpage : ∀ {pg : Paging} {n : Expr}, (d.page mode pg n).after log = (.ok d', log') →
      d'.ast.Arranged := by
    intro pg n hpg
    rcases page_eq_ok.1 hpg with ⟨-, k, -, rfl⟩ | ⟨-, -, rfl, -⟩
    · exact arranged_bindCount h pg k
    · exact h
  match st with
  | .filter e =>
    obtain ⟨c, -, rfl⟩ := filter_eq_ok.1 hst
    exact arranged_require h c
  | .project _ =>
    cases hst
    exact h
  | .orderBy key dir =>
    obtain ⟨m, column, -, hnone, -, rfl⟩ := orderBy_eq_ok.1 (Prod.mk.inj hst).1
    exact h.order dir column hnone
  | .take n | .skip n => exact hpage hst
  | .terminal kind none =>
    cases hst
    exact arranged_bindCount (d := { d with shape := _ }) h .take kind.fetchLimit
  | .terminal kind (some e) =>
    obtain ⟨d₁, _, hfilter, hclose⟩ := Reading.after_bind_eq_ok.1 hst
    obtain ⟨c, -, rfl⟩ := filter_eq_ok.1 hfilter
    cases hclose
    exact arranged_bindCount (d := { d.require c with shape := _ }) (arranged_require h c) .take
      kind.fetchLimit

/-- **And so do all stages**, in whichever order they come. -/
theorem arranged_foldlM {stages : List Stage} (h : d.ast.Arranged)
    (hstages : Reading.after (stages.foldlM (stage s mode) d) log = (.ok d', log')) :
    d'.ast.Arranged := by
  induction stages generalizing d log with
  | nil =>
    cases hstages
    exact h
  | cons st stages ih =>
    rw [List.foldlM_cons] at hstages
    obtain ⟨d₁, log₁, hst, hrest⟩ := Reading.after_bind_eq_ok.1 hstages
    exact ih (arranged_stage h hst) hrest

end Draft

/-! ## Queries -/

/-- **The grammar of a query.** -/
structure Ast.Grammatical (columns kind : String) (a : Ast) : Prop where
  /-- Without its marks it is a sentence. -/
  sentence : IsQuery columns kind (a.fragments.filter fun f => !f.isMark)
  /-- Each `AND` has conjunctions on both sides. -/
  joins : ∀ front back, (a.fragments.filter fun f => !f.isMark) = front ++ .and :: back →
    ∃ clause, front = Fragment.selection columns kind ++ .condition :: clause ∧
      IsConjunction clause ∧ IsConjunction back
  /-- Each column is compared. -/
  compares : ∀ front column back,
    (a.fragments.filter fun f => !f.isMark) = front ++ .member column :: back →
    ∃ op operand rest, back = .operator op :: operand :: rest ∧ op ≠ .ne ∧ operand.IsOperand
  /-- The marks of an ordering come once, and together. -/
  ordering : OrdersOnce a.fragments
  /-- So do the limit and the offset. -/
  paging : ∀ pg : Paging, a.fragments.count pg.fragment ≤ 1

namespace Fragment

variable {columns kind : String} {fs : List Fragment}

/-- A fragment that only conditions have stands behind the `WHERE`. -/
theorem IsQuery.exists_clause {f : Fragment} {front back : List Fragment}
    (h : IsQuery columns kind fs) (hfs : fs = front ++ f :: back)
    (hf : f ∉ selection columns kind ++ [.condition]) :
    ∃ clause, front = selection columns kind ++ .condition :: clause ∧
      IsConjunction (clause ++ f :: back) := by
  cases h with
  | all =>
    refine absurd ?_ hf
    rw [hfs]
    simp
  | @condition c hc =>
    rw [List.append_cons] at hfs
    rcases List.append_eq_append_iff.1 hfs with ⟨clause, hfront, hclause⟩ | ⟨rest, hhead, hclause⟩
    · rw [hclause] at hc
      exact ⟨clause, by rw [hfront, ← List.append_cons], hc⟩
    · cases rest with
      | nil =>
        rw [List.nil_append] at hclause
        rw [List.append_nil] at hhead
        exact ⟨[], hhead.symm, by rw [List.nil_append, hclause]; exact hc⟩
      | cons g rest =>
        cases hclause
        refine absurd ?_ hf
        rw [hhead]
        simp

end Fragment

namespace Pipeline

variable {p : Pipeline} {mode : Mode} {log log' : ReadLog} {q : Compiled}

namespace Behind

variable {plan : Plan} {d : Draft} {l : Ledger}

/-- Every condition of a query comes from the predicate of a stage. -/
theorem yields (h : p.Behind mode log log' q plan d l) :
    ∀ k ∈ l.conditions, ∃ st ∈ p.stages, st.Yields p.schema k := fun k hk =>
  (h.run.yields k hk).resolve_left nofun

theorem isQuery (h : p.Behind mode log log' q plan d l) :
    IsQuery plan.columnText p.schema.name (q.ast.fragments.filter fun f => !f.isMark) := by
  obtain ⟨hcolumns, hkind⟩ := h.run.columns_eq
  rw [h.ast, h.keeps.inPlace, Ledger.inPlace, hcolumns, hkind, Ledger.clause]
  cases hconditions : l.conditions with
  | nil => exact .all
  | cons k ks =>
    refine .condition (Condition.isConjunction_clause (List.cons_ne_nil k ks) fun k' hk' => ?_)
    obtain ⟨st, -, e, -, hyields⟩ := h.yields k' (hconditions ▸ hk')
    exact hyields.op_ne

end Behind

/-- **Every query that is translated is in the grammar.** -/
theorem grammatical_of_translate (h : (p.translate mode).after log = (.ok q, log')) :
    q.ast.Grammatical q.plan.columnText q.kind := by
  obtain ⟨plan, d, l, hbehind⟩ := exists_behind h
  obtain ⟨-, plan', d', text, hplan, -, -, hq⟩ := translate_eq_ok.1 h
  have hsame : plan' = plan := Except.ok.inj (hplan.symm.trans hbehind.planned)
  have hquery : IsQuery q.plan.columnText q.kind (q.ast.fragments.filter fun f => !f.isMark) := by
    have hisQuery := hbehind.isQuery
    rw [← hsame] at hisQuery
    rw [hq] at hisQuery ⊢
    exact hisQuery
  have harranged : q.ast.Arranged := by
    rw [hbehind.ast]
    exact Draft.arranged_foldlM (Draft.arranged_start p.schema plan) hbehind.walked
  refine ⟨hquery, fun front back heq => ?_, fun front column back heq => ?_, harranged.orders,
    fun pg => ?_⟩
  · obtain ⟨clause, hfront, hclause⟩ := hquery.exists_clause heq (by simp [Fragment.selection])
    obtain ⟨hbefore, hafter⟩ := hclause.joins clause back rfl
    exact ⟨clause, hfront, hbefore, hafter⟩
  · obtain ⟨clause, -, hclause⟩ := hquery.exists_clause heq (by simp [Fragment.selection])
    exact hclause.compares clause column back rfl
  · refine Nat.le_trans ?_ (harranged.singular pg.fragment (by cases pg <;> rfl))
    refine List.countP_mono_left fun f _ hf => ?_
    rw [eq_of_beq hf, beq_self_eq_true]

/-- Two filters and a constant leave one clause, with the marks of an offset
and an ordering in its midst. -/
theorem grammatical_sample : ∃ q log', sample.compile.after [] = (.ok q, log') ∧
    q.ast.Grammatical q.plan.columnText q.kind := by
  obtain ⟨q, log', h⟩ : ∃ q log', sample.compile.after [] = (.ok q, log') := ⟨_, _, rfl⟩
  exact ⟨q, log', h, grammatical_of_translate h⟩

end Pipeline

end KindQuery
