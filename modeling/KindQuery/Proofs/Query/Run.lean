import KindQuery.Proofs.Query.Ledger
import Mathlib.Data.List.TakeWhile
/-!
# Runs of a translation

What a stage may do to a ledger, said once as a relation, and a run as the
stages of a pipeline taken one after the other. Drafts do the same as the
ledgers that they keep (`Keeps.exists_run`, `Keeps.exists_foldlM`), so that
what a translated query is like is an invariant of runs of ledgers.
-/

namespace KindQuery

/-- A stage that cuts out rows, and its count. -/
def Stage.paging? : Stage → Option (Paging × Expr)
  | .take n => some (.take, n)
  | .skip n => some (.skip, n)
  | _ => none

/-- The predicate that rows have to satisfy to pass a stage. -/
def Stage.predicate? : Stage → Option Expr
  | .filter e => some e
  | .terminal _ e => e
  | _ => none

/-- Does the stage cut out rows, so that it may enter a count? A terminal
stage does so as a limit. -/
def Stage.cuts (pg : Paging) : Stage → Bool
  | .take _ | .terminal _ _ => pg == .take
  | .skip _ => pg == .skip
  | _ => false

/-- No stage is terminal but perhaps the last one, which has no limit
before it. -/
def TerminalLast (stages : List Stage) : Prop :=
  (∀ st ∈ stages, st.terminal? = none) ∨
    ∃ before kind e, stages = before ++ [.terminal kind e] ∧
      ∀ st ∈ before, st.terminal? = none ∧ st.isTake = false

/-- No stage is terminal but perhaps the last one. -/
def TerminalEnds (stages : List Stage) : Prop := ∀ st ∈ stages.dropLast, st.terminal? = none

theorem terminalEnds_iff {stages : List Stage} :
    TerminalEnds stages ↔ (∀ st ∈ stages, st.terminal? = none) ∨
      ∃ before kind e, stages = before ++ [.terminal kind e] ∧
        ∀ st ∈ before, st.terminal? = none := by
  rcases List.eq_nil_or_concat stages with rfl | ⟨before, last, rfl⟩
  · exact ⟨fun _ => .inl nofun, fun _ => nofun⟩
  rw [List.concat_eq_append, TerminalEnds, List.dropLast_concat]
  constructor
  · intro hb
    cases last with
    | terminal kind e => exact .inr ⟨before, kind, e, rfl, hb⟩
    | _ => exact .inl (List.forall_mem_append.2 ⟨hb, by simp [Stage.terminal?]⟩)
  · rintro (hnone | ⟨before', kind, e, heq, hb⟩)
    · exact fun st hst => hnone st (List.mem_append_left _ hst)
    · obtain ⟨rfl, -⟩ := List.append_inj' heq rfl
      exact hb

namespace Ledger

/-- **What one stage does**: the ledger and the log of readings before it,
and those after it. -/
inductive Step (s : Schema) (mode : Mode) : Ledger → ReadLog → Stage → Ledger → ReadLog → Prop
  /-- A predicate adds what it amounts to. -/
  | filter {l : Ledger} {log log' : ReadLog} {e : Expr} {c : Conjunction} :
      (e.conditions s l.inequality).after log = (.ok c, log') →
      Step s mode l log (.filter e) (l.require c) log'
  /-- A projection has been planned before. -/
  | project {l : Ledger} {log : ReadLog} {e : Expr} : Step s mode l log (.project e) l log
  /-- The first ordering is entered. -/
  | orderBy {l : Ledger} {log : ReadLog} {m : Member} {dir : Direction} {column : String} :
      l.order = none → s.column m = .ok column →
      Step s mode l log (.orderBy (.member m) dir) (l.setOrder dir column) log
  /-- The first limit or offset enters its count. -/
  | page {l : Ledger} {log log' : ReadLog} {st : Stage} {pg : Paging} {n : Expr} {k : Int64} :
      st.paging? = some (pg, n) → l.count pg = none →
      (Draft.count pg n).after log = (.ok k, log') → Step s mode l log st (l.setCount pg k) log'
  /-- A later one is ignored. -/
  | repeated {l : Ledger} {log : ReadLog} {st : Stage} {pg : Paging} {n : Expr} :
      st.paging? = some (pg, n) → mode = .collapsing → (l.count pg).isSome = true →
      Step s mode l log st l log
  /-- A terminal stage enters its limit. -/
  | close {l : Ledger} {log : ReadLog} {kind : Terminal} :
      l.count .take = none → Step s mode l log (.terminal kind none) (l.close kind) log
  /-- It may have a predicate of its own. -/
  | filterClose {l : Ledger} {log log' : ReadLog} {kind : Terminal} {e : Expr} {c : Conjunction} :
      (e.conditions s l.inequality).after log = (.ok c, log') → l.count .take = none →
      Step s mode l log (.terminal kind (some e)) ((l.require c).close kind) log'

/-- The stages of a pipeline one after the other. -/
inductive Run (s : Schema) (mode : Mode) :
    Ledger → ReadLog → List Stage → Ledger → ReadLog → Prop
  | nil {l : Ledger} {log : ReadLog} : Run s mode l log [] l log
  | cons {l₀ l₁ l₂ : Ledger} {log₀ log₁ log₂ : ReadLog} {st : Stage} {stages : List Stage} :
      Step s mode l₀ log₀ st l₁ log₁ → Run s mode l₁ log₁ stages l₂ log₂ →
      Run s mode l₀ log₀ (st :: stages) l₂ log₂

variable {s : Schema} {mode : Mode} {l l' : Ledger} {log log' : ReadLog}

namespace Run

/-- A run over two chains is a run over the first and then one over the
second. -/
theorem append_iff {xs ys : List Stage} :
    Run s mode l log (xs ++ ys) l' log' ↔
      ∃ l₁ log₁, Run s mode l log xs l₁ log₁ ∧ Run s mode l₁ log₁ ys l' log' := by
  induction xs generalizing l log with
  | nil =>
    constructor
    · exact fun h => ⟨l, log, .nil, h⟩
    · rintro ⟨_, _, h, hr⟩
      cases h
      exact hr
  | cons st xs ih =>
    constructor
    · rintro (_ | ⟨h, hr⟩)
      obtain ⟨l₂, log₂, hx, hy⟩ := ih.1 hr
      exact ⟨l₂, log₂, .cons h hx, hy⟩
    · rintro ⟨l₂, log₂, _ | ⟨h, hx⟩, hy⟩
      exact .cons h (ih.2 ⟨l₂, log₂, hx, hy⟩)

theorem singleton_iff {st : Stage} :
    Run s mode l log [st] l' log' ↔ Step s mode l log st l' log' := by
  constructor
  · rintro (_ | ⟨h, hr⟩)
    cases hr
    exact h
  · exact fun h => .cons h .nil

end Run

/-- A count is entered by a stage that cuts out rows only. -/
theorem Step.count_eq {st : Stage} {pg : Paging} (h : Step s mode l log st l' log')
    (hc : st.cuts pg = false) : l'.count pg = l.count pg := by
  cases h with
  | filter | project | orderBy | repeated => rfl
  | page hst =>
    refine if_neg fun hq => ?_
    subst hq
    cases st <;> cases hst <;> cases hc
  | close | filterClose => exact if_neg fun hq => by simp [Stage.cuts, hq] at hc

/-- And so by a run over stages of which none does. -/
theorem Run.count_eq {stages : List Stage} {pg : Paging} (h : Run s mode l log stages l' log')
    (hs : ∀ st ∈ stages, st.cuts pg = false) : l'.count pg = l.count pg := by
  induction h with
  | nil => rfl
  | cons hst _ ih =>
    rw [ih fun st hm => hs st (List.mem_cons_of_mem _ hm)]
    exact hst.count_eq (hs _ List.mem_cons_self)

/-- When no count may be repeated, a stage that cuts out rows enters one
where there was none. -/
theorem Step.count_of_cuts {st : Stage} {pg : Paging} (h : Step s .strict l log st l' log')
    (hc : st.cuts pg = true) : l.count pg = none ∧ (l'.count pg).isSome = true := by
  cases h with
  | filter | project | orderBy => cases hc
  | page hst hn =>
    cases st <;> cases hst <;> cases eq_of_beq hc <;> exact ⟨hn, by simp [setCount]⟩
  | repeated _ hm => cases hm
  | close hn | filterClose _ hn =>
    cases eq_of_beq hc
    exact ⟨hn, by simp [Ledger.close, setCount]⟩

/-- A count that has been entered stands. -/
theorem Step.count_eq_of_isSome {st : Stage} {pg : Paging} (h : Step s mode l log st l' log')
    (hs : (l.count pg).isSome = true) : l'.count pg = l.count pg := by
  cases h with
  | filter | project | orderBy | repeated => rfl
  | page _ hn | close hn | filterClose _ hn =>
    refine if_neg fun hq => ?_
    subst hq
    simp [hn] at hs

theorem Run.count_eq_of_isSome {stages : List Stage} {pg : Paging}
    (h : Run s mode l log stages l' log') (hs : (l.count pg).isSome = true) :
    l'.count pg = l.count pg := by
  induction h with
  | nil => rfl
  | cons hst _ ih =>
    have hc := hst.count_eq_of_isSome hs
    rw [ih (hc ▸ hs), hc]

end Ledger

/-! ## Drafts do what ledgers do -/

namespace Draft

open Ledger (Step Run)

variable {s : Schema} {mode : Mode} {d d' : Draft} {l l' : Ledger} {log log' : ReadLog}

theorem filter_eq_ok {e : Expr} :
    (d.filter s e).after log = (.ok d', log') ↔
      ∃ c, (e.conditions s d.inequality).after log = (.ok c, log') ∧ d' = d.require c := by
  simp only [filter, Reading.after_bind_eq_ok, Reading.after_pure, Prod.mk.injEq,
    Except.ok.injEq]
  constructor
  · rintro ⟨c, log₁, hc, rfl, rfl⟩
    exact ⟨c, hc, rfl⟩
  · rintro ⟨c, hc, rfl⟩
    exact ⟨c, log', hc, rfl, rfl⟩

theorem orderBy_eq_ok {key : Expr} {dir : Direction} :
    d.orderBy s key dir = .ok d' ↔
      ∃ m column, key = .member m ∧ d.ast.contains (.orderBy dir) = false ∧
        s.column m = .ok column ∧
        d' = { d with ast := (d.ast.push (.orderBy dir)).push (.orderByField column) } := by
  cases hd : d.ast.contains (.orderBy dir) with
  | true => simp [orderBy, hd]
  | false =>
    cases key with
    | member m =>
      simp only [orderBy, hd, Bool.false_eq_true, if_false, bind_eq_ok, Expr.member.injEq,
        Except.ok.injEq, true_and]
      constructor
      · rintro ⟨column, hc, rfl⟩
        exact ⟨m, column, rfl, hc, rfl⟩
      · rintro ⟨_, column, rfl, hc, rfl⟩
        exact ⟨column, hc, rfl⟩
    | _ => simp [orderBy, hd]

theorem page_eq_ok {pg : Paging} {n : Expr} :
    (d.page mode pg n).after log = (.ok d', log') ↔
      (d.ast.contains pg.fragment = false ∧
        ∃ k, (count pg n).after log = (.ok k, log') ∧ d' = d.bindCount pg k) ∨
      (mode = .collapsing ∧ d.ast.contains pg.fragment = true ∧ d' = d ∧ log' = log) := by
  cases hd : d.ast.contains pg.fragment with
  | true =>
    cases mode with
    | strict => simp [page, hd]
    | collapsing =>
      simp only [page, hd, if_true, Reading.after_pure, Prod.mk.injEq, Except.ok.injEq,
        Bool.true_eq_false, false_and, true_and, false_or]
      exact ⟨fun h => ⟨h.1.symm, h.2.symm⟩, fun h => ⟨h.1.symm, h.2.symm⟩⟩
  | false =>
    simp only [page, hd, Bool.false_eq_true, if_false, Reading.after_bind_eq_ok,
      Reading.after_pure, Prod.mk.injEq, Except.ok.injEq, true_and, false_and, and_false, or_false]
    constructor
    · rintro ⟨k, log₁, hk, rfl, rfl⟩
      exact ⟨k, hk, rfl⟩
    · rintro ⟨k, hk, rfl⟩
      exact ⟨k, log', hk, rfl, rfl⟩

theorem stage_of_paging? {st : Stage} {pg : Paging} {n : Expr} (h : st.paging? = some (pg, n)) :
    stage s mode d st = d.page mode pg n := by
  cases st <;> cases h <;> rfl

/-- **A stage that succeeds is a step of the ledger.** -/
theorem Keeps.exists_step {st : Stage} (hk : d.Keeps l)
    (ht : st.terminal?.isSome → l.count .take = none)
    (h : (stage s mode d st).after log = (.ok d', log')) :
    ∃ l', Step s mode l log st l' log' ∧ d'.Keeps l' := by
  match st with
  | .filter e =>
    obtain ⟨c, hc, rfl⟩ := filter_eq_ok.1 h
    exact ⟨_, .filter (hk.inequality ▸ hc), hk.require c⟩
  | .project e =>
    cases h
    exact ⟨l, .project, hk⟩
  | .orderBy key dir =>
    simp only [stage, Reading.after_ofExcept, Prod.mk.injEq] at h
    obtain ⟨hd, rfl⟩ := h
    obtain ⟨m, column, rfl, hn, hc, rfl⟩ := orderBy_eq_ok.1 hd
    have ho : l.order = none := by simpa [hk.contains_order (f := .orderBy dir) rfl] using hn
    exact ⟨_, .orderBy ho hc, hk.setOrder ho dir column⟩
  | .take n | .skip n =>
    rcases page_eq_ok.1 h with ⟨hn, k, hc, rfl⟩ | ⟨hm, hn, rfl, rfl⟩
    · have hl := hk.paging _ ▸ hn
      rw [Option.isSome_eq_false_iff, Option.isNone_iff_eq_none] at hl
      exact ⟨_, .page rfl hl hc, hk.bindCount k hl⟩
    · exact ⟨l, .repeated rfl hm (hk.paging _ ▸ hn), hk⟩
  | .terminal kind none =>
    cases h
    exact ⟨_, .close (ht rfl), hk.close kind (ht rfl)⟩
  | .terminal kind (some e) =>
    simp only [stage, Reading.after_bind_eq_ok, Reading.after_pure, Prod.mk.injEq,
      Except.ok.injEq] at h
    obtain ⟨_, _, hf, rfl, rfl⟩ := h
    obtain ⟨c, hc, rfl⟩ := filter_eq_ok.1 hf
    exact ⟨_, .filterClose (hk.inequality ▸ hc) (ht rfl), (hk.require c).close kind (ht rfl)⟩

/-- **A step of the ledger is a stage that succeeds.** -/
theorem Keeps.exists_stage {st : Stage} (hk : d.Keeps l) (h : Step s mode l log st l' log') :
    ∃ d', (stage s mode d st).after log = (.ok d', log') ∧ d'.Keeps l' := by
  cases h with
  | filter hc => exact ⟨_, filter_eq_ok.2 ⟨_, hk.inequality ▸ hc, rfl⟩, hk.require _⟩
  | project => exact ⟨d, rfl, hk⟩
  | orderBy ho hc =>
    refine ⟨_, ?_, hk.setOrder ho _ _⟩
    simp only [stage, Reading.after_ofExcept, Prod.mk.injEq, and_true]
    exact orderBy_eq_ok.2 ⟨_, _, rfl, by rw [hk.contains_order rfl, ho]; rfl, hc, rfl⟩
  | page hst hn hc =>
    rw [stage_of_paging? hst]
    exact ⟨_, page_eq_ok.2 (.inl ⟨by simp [hk.paging, hn], _, hc, rfl⟩), hk.bindCount _ hn⟩
  | repeated hst hm hn =>
    rw [stage_of_paging? hst]
    exact ⟨d, page_eq_ok.2 (.inr ⟨hm, by rw [hk.paging, hn], rfl, rfl⟩), hk⟩
  | close hn => exact ⟨_, rfl, hk.close _ hn⟩
  | filterClose hc hn =>
    refine ⟨_, ?_, (hk.require _).close _ hn⟩
    simp only [stage, Reading.after_bind_eq_ok, Reading.after_pure, Prod.mk.injEq,
      Except.ok.injEq]
    exact ⟨_, _, filter_eq_ok.2 ⟨_, hk.inequality ▸ hc, rfl⟩, rfl, rfl⟩

/-- A chain without terminal stages that succeeds is a run. -/
theorem Keeps.exists_run {stages : List Stage} (hk : d.Keeps l)
    (hs : ∀ st ∈ stages, st.terminal? = none)
    (h : Reading.after (stages.foldlM (stage s mode) d) log = (.ok d', log')) :
    ∃ l', Run s mode l log stages l' log' ∧ d'.Keeps l' := by
  induction stages generalizing d l log with
  | nil =>
    cases h
    exact ⟨l, .nil, hk⟩
  | cons st stages ih =>
    simp only [List.foldlM_cons, Reading.after_bind_eq_ok] at h
    obtain ⟨d₁, log₁, hst, hr⟩ := h
    obtain ⟨l₁, hl₁, hk₁⟩ := hk.exists_step (by simp [hs st List.mem_cons_self]) hst
    obtain ⟨l₂, hl₂, hk₂⟩ := ih hk₁ (fun st' hm => hs st' (List.mem_cons_of_mem _ hm)) hr
    exact ⟨l₂, .cons hl₁ hl₂, hk₂⟩

/-- **A chain of stages that go together and succeed is a run.** -/
theorem Keeps.exists_run_of_terminalLast {stages : List Stage} (hk : d.Keeps l)
    (hs : TerminalLast stages) (hn : l.count .take = none)
    (h : Reading.after (stages.foldlM (stage s mode) d) log = (.ok d', log')) :
    ∃ l', Run s mode l log stages l' log' ∧ d'.Keeps l' := by
  rcases hs with hs | ⟨before, kind, e, rfl, hb⟩
  · exact hk.exists_run hs h
  · simp only [List.foldlM_append, List.foldlM_cons, List.foldlM_nil, bind_pure,
      Reading.after_bind_eq_ok] at h
    obtain ⟨d₁, log₁, hbefore, hlast⟩ := h
    obtain ⟨l₁, hl₁, hk₁⟩ := hk.exists_run (fun st hm => (hb st hm).1) hbefore
    -- Neither a limit nor a terminal stage has come before the last stage.
    have hn₁ : l₁.count .take = none := by
      rw [hl₁.count_eq fun st hm => ?_, hn]
      obtain ⟨ht, hp⟩ := hb st hm
      cases st <;> simp_all [Stage.cuts, Stage.terminal?, Stage.isTake]
    obtain ⟨l₂, hl₂, hk₂⟩ := hk₁.exists_step (fun _ => hn₁) hlast
    exact ⟨l₂, Run.append_iff.2 ⟨l₁, log₁, hl₁, Run.singleton_iff.2 hl₂⟩, hk₂⟩

/-- **A run is a chain of stages that succeeds.** -/
theorem Keeps.exists_foldlM {stages : List Stage} (hk : d.Keeps l)
    (h : Run s mode l log stages l' log') :
    ∃ d', Reading.after (stages.foldlM (stage s mode) d) log = (.ok d', log') ∧ d'.Keeps l' := by
  induction h generalizing d with
  | nil => exact ⟨d, rfl, hk⟩
  | cons hst _ ih =>
    obtain ⟨d₁, h₁, hk₁⟩ := hk.exists_stage hst
    obtain ⟨d₂, h₂, hk₂⟩ := ih hk₁
    refine ⟨d₂, ?_, hk₂⟩
    rw [List.foldlM_cons, Reading.after_bind_eq_ok]
    exact ⟨d₁, _, h₁, h₂⟩

end Draft

/-! ## Translations -/

namespace Pipeline

/-- The last draft of a pipeline, as the query that it is. -/
def compiled (p : Pipeline) (plan : Plan) (d : Draft) (text : String) : Compiled where
  kind := p.schema.name
  text := text
  params := d.params
  plan := plan
  shape := d.shape
  terminal := p.stages.findSome? Stage.terminal?
  ast := d.finalAst

/-- When a plan is made, and what it is. A pipeline without a projection has
the row for its selector. -/
theorem plan_eq_ok {p : Pipeline} {plan : Plan} :
    p.plan = .ok plan ↔
      plan.selector = (p.stages.findSome? Stage.selector?).getD .row ∧
        ∃ sources, plan.selector.sources p.schema = .ok sources ∧
          plan.columns = requiredColumns sources := by
  obtain ⟨columns, selector⟩ := plan
  unfold Pipeline.plan
  cases p.stages.findSome? Stage.selector? with
  | none =>
    constructor
    · rintro ⟨⟩
      exact ⟨rfl, _, rfl, rfl⟩
    · rintro ⟨rfl, sources, hsources, rfl⟩
      cases hsources
      rfl
  | some e =>
    simp only [Schema.plan, bind_eq_ok, Except.ok.injEq, Plan.mk.injEq, Option.getD_some]
    constructor
    · rintro ⟨sources, hsources, rfl, rfl⟩
      exact ⟨rfl, sources, hsources, rfl⟩
    · rintro ⟨rfl, sources, hsources, rfl⟩
      exact ⟨sources, hsources, rfl, rfl⟩

/-- When a translation succeeds, and what it gives. -/
theorem translate_eq_ok {p : Pipeline} {mode : Mode} {log log' : ReadLog} {c : Compiled} :
    (p.translate mode).after log = (.ok c, log') ↔
      checkStages p.stages = .ok () ∧
        ∃ plan d text, p.plan = .ok plan ∧
          Reading.after (p.stages.foldlM (Draft.stage p.schema mode) (.start p.schema plan)) log =
            (.ok d, log') ∧
          d.finalAst.render .named = .ok text ∧ c = p.compiled plan d text := by
  simp only [translate, Reading.after_bind_eq_ok, Reading.after_ofExcept, Reading.after_pure,
    Prod.mk.injEq, Except.ok.injEq]
  constructor
  · rintro ⟨_, _, ⟨hs, rfl⟩, plan, _, ⟨hp, rfl⟩, d, _, hr, text, _, ⟨ht, rfl⟩, rfl, rfl⟩
    exact ⟨hs, plan, d, text, hp, hr, ht, rfl⟩
  · rintro ⟨hs, plan, d, text, hp, hr, ht, rfl⟩
    exact ⟨_, _, ⟨hs, rfl⟩, plan, _, ⟨hp, rfl⟩, d, _, hr, text, _, ⟨ht, rfl⟩, rfl, rfl⟩

/-- Stages up to the first terminal one. -/
theorem takeWhile_append_terminal {before after : List Stage} {kind : Terminal} {e : Option Expr}
    (hb : ∀ st ∈ before, st.terminal? = none) :
    (before ++ .terminal kind e :: after).takeWhile (fun st => st.terminal?.isNone) = before := by
  rw [List.takeWhile_append_of_pos (fun st hst => by simp [hb st hst])]
  simp [Stage.terminal?]

/-- The first terminal stage and what follows it. -/
theorem dropWhile_append_terminal {before after : List Stage} {kind : Terminal} {e : Option Expr}
    (hb : ∀ st ∈ before, st.terminal? = none) :
    (before ++ .terminal kind e :: after).dropWhile (fun st => st.terminal?.isNone) =
      .terminal kind e :: after := by
  rw [List.dropWhile_append_of_pos (fun st hst => by simp [hb st hst])]
  simp [Stage.terminal?]

/-- Either no stage is terminal or there is a first one that is. -/
theorem exists_first_terminal (stages : List Stage) :
    (∀ st ∈ stages, st.terminal? = none) ∨
      ∃ before kind e after, stages = before ++ .terminal kind e :: after ∧
        ∀ st ∈ before, st.terminal? = none := by
  induction stages with
  | nil => exact .inl (by simp)
  | cons st stages ih =>
    by_cases hst : st.terminal? = none
    · rcases ih with hnone | ⟨before, kind, e, after, rfl, hb⟩
      · exact .inl (by simpa [hst] using hnone)
      · exact .inr ⟨st :: before, kind, e, after, rfl, by simpa [hst] using hb⟩
    · cases st with
      | terminal kind e => exact .inr ⟨[], kind, e, stages, rfl, by simp⟩
      | _ => exact absurd rfl hst

/-- A first terminal stage is the last stage of all, without a limit before
it. -/
theorem terminalLast_append_terminal {before after : List Stage} {kind : Terminal}
    {e : Option Expr} (hb : ∀ st ∈ before, st.terminal? = none) :
    TerminalLast (before ++ .terminal kind e :: after) ↔
      before.any Stage.isTake = false ∧ after = [] := by
  constructor
  · rintro (hnone | ⟨before', kind', e', heq, hb'⟩)
    · exact absurd (hnone (.terminal kind e) (by simp)) (by simp [Stage.terminal?])
    · -- Both splittings are at the first terminal stage, so that they are one.
      have hbefore : before = before' := by
        have h := congrArg (List.takeWhile fun st => st.terminal?.isNone) heq
        rwa [takeWhile_append_terminal hb,
          takeWhile_append_terminal fun st hst => (hb' st hst).1] at h
      subst hbefore
      exact ⟨List.any_eq_false.2 fun st hst => by simp [(hb' st hst).2],
        (List.cons.inj (List.append_cancel_left heq)).2⟩
  · rintro ⟨ht, rfl⟩
    exact .inr ⟨before, kind, e, rfl, fun st hst =>
      ⟨hb st hst, by simpa using List.any_eq_false.1 ht st hst⟩⟩

/-- **Which stages go together**: at most one projection, and nothing after
a terminal stage nor a limit beside it. -/
theorem checkStages_eq_ok {stages : List Stage} :
    checkStages stages = .ok () ↔
      (stages.filterMap Stage.selector?).length ≤ 1 ∧ TerminalLast stages := by
  by_cases hone : 1 < (stages.filterMap Stage.selector?).length
  · rw [checkStages, if_pos hone]
    exact ⟨nofun, fun h => absurd h.1 (by omega)⟩
  rw [checkStages, if_neg hone, and_iff_right (by omega)]
  rcases exists_first_terminal stages with hnone | ⟨before, kind, e, after, rfl, hb⟩
  · have hd : stages.dropWhile (fun st => st.terminal?.isNone) = [] :=
      List.dropWhile_eq_nil_iff.2 fun st hst => by simp [hnone st hst]
    rw [hd]
    exact ⟨fun _ => .inl hnone, fun _ => rfl⟩
  · rw [dropWhile_append_terminal hb, takeWhile_append_terminal hb,
      terminalLast_append_terminal hb]
    cases before.any Stage.isTake with
    | true => simp
    | false =>
      cases after with
      | nil => simp
      | cons st after => cases st <;> simp

/-- What is looked for among stages is kept if it is kept in each of them. -/
theorem findSome?_map_of_forall {β : Type} {f : Stage → Stage} {g : Stage → Option β}
    (h : ∀ st, g (f st) = g st) (stages : List Stage) :
    (stages.map f).findSome? g = stages.findSome? g := by
  rw [List.findSome?_map]
  exact congrArg (stages.findSome? ·) (funext h)

/-- Whether stages go together depends only on which of them project, are
terminal or are limits. -/
theorem checkStages_map {f : Stage → Stage}
    (hselector : ∀ st, (f st).selector?.isSome = st.selector?.isSome)
    (hterminal : ∀ st, (f st).terminal? = st.terminal?) (htake : ∀ st, (f st).isTake = st.isTake)
    (stages : List Stage) : checkStages (stages.map f) = checkStages stages := by
  have hone : ((stages.map f).filterMap Stage.selector?).length =
      (stages.filterMap Stage.selector?).length := by
    simp only [List.length_filterMap_eq_countP, List.countP_map]
    exact congrArg (stages.countP ·) (funext hselector)
  have hnone : (fun st : Stage => st.terminal?.isNone) ∘ f = fun st => st.terminal?.isNone :=
    funext fun st => congrArg Option.isNone (hterminal st)
  have hany : ∀ before : List Stage, (before.map f).any Stage.isTake = before.any Stage.isTake := by
    intro before
    rw [List.any_map]
    exact congrArg (before.any ·) (funext htake)
  rw [checkStages, checkStages, hone, List.dropWhile_map, List.takeWhile_map, hnone, hany]
  cases stages.dropWhile (fun st => st.terminal?.isNone) with
  | nil => rfl
  | cons _ after =>
    cases after with
    | nil => rfl
    | cons st after =>
      -- Of the stage after a terminal one, only those two things are looked at.
      have ht := hterminal st
      have hk := htake st
      rw [List.map_cons, List.map_cons]
      cases hf : f st <;> rw [hf] at ht hk <;> cases st <;> first | rfl | (cases ht; done) | cases hk

/-- **What stands behind a translated query**: a plan, the draft after the
last stage, and the ledger that it keeps. -/
structure Behind (p : Pipeline) (mode : Mode) (log log' : ReadLog) (q : Compiled) (plan : Plan)
    (d : Draft) (l : Ledger) : Prop where
  oneSelector : (p.stages.filterMap Stage.selector?).length ≤ 1
  terminalLast : TerminalLast p.stages
  planned : p.plan = .ok plan
  walked : Reading.after (p.stages.foldlM (Draft.stage p.schema mode) (.start p.schema plan)) log =
    (.ok d, log')
  run : Ledger.Run p.schema mode (.start p.schema plan) log p.stages l log'
  keeps : d.Keeps l
  /-- Nothing was taken away from the draft. -/
  ast : q.ast = d.ast
  params : q.params = d.params

/-- **A translation that succeeds is a run** of the ledger. -/
theorem exists_behind {p : Pipeline} {mode : Mode} {log log' : ReadLog} {q : Compiled}
    (h : (p.translate mode).after log = (.ok q, log')) :
    ∃ plan d l, p.Behind mode log log' q plan d l := by
  obtain ⟨hs, plan, d, text, hplan, hd, -, rfl⟩ := translate_eq_ok.1 h
  obtain ⟨hone, hlast⟩ := checkStages_eq_ok.1 hs
  obtain ⟨l, hl, hk⟩ := Draft.keeps_start.exists_run_of_terminalLast hlast rfl hd
  exact ⟨plan, d, l, hone, hlast, hplan, hd, hl, hk, hk.finalAst_eq, rfl⟩

/-- What is compiled is the draft and its text. -/
theorem Behind.exists_text {p : Pipeline} {mode : Mode} {log log' : ReadLog} {q : Compiled}
    {plan : Plan} {d : Draft} {l : Ledger} (h : p.Behind mode log log' q plan d l)
    (hq : (p.translate mode).after log = (.ok q, log')) :
    ∃ text, d.ast.render .named = .ok text ∧ q = p.compiled plan d text := by
  obtain ⟨-, plan', d', text, hplan, hd, ht, hc⟩ := translate_eq_ok.1 hq
  obtain rfl := Except.ok.inj (h.planned.symm.trans hplan)
  obtain rfl : d = d' := Except.ok.inj (Prod.mk.inj (h.walked.symm.trans hd)).1
  rw [h.keeps.finalAst_eq] at ht
  exact ⟨text, ht, hc⟩

/-! ## A sample -/

/-- Adults over five under the name of the key, but for the first three:
a pipeline with a stage of each kind that goes with a terminal one. -/
def sample : Pipeline where
  schema := ⟨"Person",
    [⟨"Id", .text, .key⟩, ⟨"Adult", .bool, .normal⟩, ⟨"Age", .int32, .normal⟩]⟩
  stages :=
    [.filter (.conjunction [.field "Adult", .comparison (.value (.text "ada")) .eq (.field "Id")]),
      .skip (.captured ⟨0, .int32 3, []⟩), .orderBy (.field "Age") .desc, .project .row,
      .filter (.comparison (.captured ⟨1, .int32 5, []⟩) .lt (.field "Age")),
      .terminal .first (some (.negation (.value (.bool false))))]

theorem isConstant_sample : sample.IsConstant := by
  simp [IsConstant, sample, Stage.captures, Expr.captures, Expr.capturesOfAll, Expr.field,
    Captured.IsConstant]

end Pipeline

end KindQuery
