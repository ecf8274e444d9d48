import KindQuery.Proofs.Query.Run
/-!
# Repeated limits and offsets

A translation that ignores repeated limits and offsets is a translation of
the pipeline without them (`collapsing_eq_strict`). What is dropped is told
from the stages alone, and what is ignored from the draft: a count has been
bound exactly when a stage of its kind has been walked.
-/

namespace KindQuery

/-! ## Stages without repeats -/

/-- The way in which a stage cuts out rows, a terminal one apart. -/
def Stage.page? (st : Stage) : Option Paging := st.paging?.map Prod.fst

/-- Has a stage of the same kind been seen? -/
def Stage.repeats (seen : List Paging) (st : Stage) : Bool := st.page?.any seen.contains

/-- The stages without each limit and each offset of a kind that has been
seen before it. -/
def dropRepeats (seen : List Paging) : List Stage → List Stage
  | [] => []
  | st :: stages =>
    if st.repeats seen then dropRepeats seen stages
    else st :: dropRepeats (st.page?.toList ++ seen) stages

variable {s : Schema} {seen : List Paging} {st : Stage} {stages : List Stage} {pg : Paging}

theorem Stage.repeats_iff : st.repeats seen = true ↔ ∃ pg ∈ seen, st.page? = some pg := by
  cases hp : st.page? with
  | none => simp [repeats, hp]
  | some pg => simp [repeats, hp]

theorem dropRepeats_cons_of_repeats (h : st.repeats seen = true) :
    dropRepeats seen (st :: stages) = dropRepeats seen stages := by
  rw [dropRepeats, if_pos h]

theorem dropRepeats_cons_of_first (h : ¬ st.repeats seen = true) :
    dropRepeats seen (st :: stages) = st :: dropRepeats (st.page?.toList ++ seen) stages := by
  rw [dropRepeats, if_neg h]

theorem mem_of_mem_dropRepeats (h : st ∈ dropRepeats seen stages) : st ∈ stages := by
  induction seen, stages using dropRepeats.induct with
  | case1 seen => exact h
  | case2 seen st' stages hr ih =>
    rw [dropRepeats_cons_of_repeats hr] at h
    exact List.mem_cons_of_mem _ (ih h)
  | case3 seen st' stages hr ih =>
    rw [dropRepeats_cons_of_first hr] at h
    rcases List.mem_cons.1 h with rfl | h
    · exact List.mem_cons_self
    · exact List.mem_cons_of_mem _ (ih h)

/-- What no limit and no offset has is left as it is. -/
theorem filterMap_dropRepeats {α : Type} {g : Stage → Option α}
    (hg : ∀ st pg, st.page? = some pg → g st = none) :
    (dropRepeats seen stages).filterMap g = stages.filterMap g := by
  induction seen, stages using dropRepeats.induct with
  | case1 seen => rfl
  | case2 seen st stages hr ih =>
    obtain ⟨pg, -, hp⟩ := Stage.repeats_iff.1 hr
    rw [dropRepeats_cons_of_repeats hr, ih, List.filterMap_cons_none (hg st pg hp)]
  | case3 seen st stages hr ih =>
    rw [dropRepeats_cons_of_first hr, List.filterMap_cons, List.filterMap_cons, ih]

theorem findSome?_dropRepeats {α : Type} {g : Stage → Option α}
    (hg : ∀ st pg, st.page? = some pg → g st = none) :
    (dropRepeats seen stages).findSome? g = stages.findSome? g := by
  rw [← List.head?_filterMap, ← List.head?_filterMap, filterMap_dropRepeats hg]

theorem Stage.page?_eq_take_iff : st.page? = some .take ↔ st.isTake = true := by
  cases st <;> simp [page?, paging?, isTake]

/-- The first limit is kept. -/
theorem any_isTake_dropRepeats (h : Paging.take ∉ seen) :
    (dropRepeats seen stages).any Stage.isTake = stages.any Stage.isTake := by
  induction seen, stages using dropRepeats.induct with
  | case1 seen => rfl
  | case2 seen st stages hr ih =>
    -- What is dropped is no limit, since none has been seen.
    have ht : st.isTake = false := by
      rw [← Bool.not_eq_true, ← Stage.page?_eq_take_iff]
      intro hp
      obtain ⟨pg, hpg, hp'⟩ := Stage.repeats_iff.1 hr
      cases hp.symm.trans hp'
      exact h hpg
    rw [dropRepeats_cons_of_repeats hr, ih h, List.any_cons, ht, Bool.false_or]
  | case3 seen st stages hr ih =>
    rw [dropRepeats_cons_of_first hr, List.any_cons, List.any_cons]
    cases ht : st.isTake with
    | true => rfl
    | false =>
      have hnone : Paging.take ∉ st.page?.toList ++ seen := by
        rw [List.mem_append, Option.mem_toList, Stage.page?_eq_take_iff, ht]
        simpa using h
      rw [ih hnone]

/-- A stage of another kind at the end stays there. -/
theorem dropRepeats_concat (h : st.page? = none) :
    dropRepeats seen (stages ++ [st]) = dropRepeats seen stages ++ [st] := by
  induction seen, stages using dropRepeats.induct with
  | case1 seen =>
    have hr : ¬ st.repeats seen = true := by simp [Stage.repeats, h]
    rw [List.nil_append, dropRepeats_cons_of_first hr]
    rfl
  | case2 seen st' stages hr ih =>
    rw [List.cons_append, dropRepeats_cons_of_repeats hr, dropRepeats_cons_of_repeats hr, ih]
  | case3 seen st' stages hr ih =>
    rw [List.cons_append, dropRepeats_cons_of_first hr, dropRepeats_cons_of_first hr, ih]
    rfl

/-- A repeat may be taken out beforehand. -/
theorem dropRepeats_append_cons {before after : List Stage} (hst : st.page? = some pg)
    (h : pg ∈ seen ∨ ∃ st' ∈ before, st'.page? = some pg) :
    dropRepeats seen (before ++ st :: after) = dropRepeats seen (before ++ after) := by
  induction seen, before using dropRepeats.induct with
  | case1 seen =>
    have hseen : pg ∈ seen := by simpa using h
    exact dropRepeats_cons_of_repeats (Stage.repeats_iff.2 ⟨pg, hseen, hst⟩)
  | case2 seen st' before hr ih =>
    rw [List.cons_append, List.cons_append, dropRepeats_cons_of_repeats hr,
      dropRepeats_cons_of_repeats hr]
    refine ih ?_
    rw [List.exists_mem_cons_iff] at h
    rcases h with h | hp | h
    · exact .inl h
    · obtain ⟨pg', hpg', hp'⟩ := Stage.repeats_iff.1 hr
      cases hp.symm.trans hp'
      exact .inl hpg'
    · exact .inr h
  | case3 seen st' before hr ih =>
    rw [List.cons_append, List.cons_append, dropRepeats_cons_of_first hr,
      dropRepeats_cons_of_first hr]
    refine congrArg _ (ih ?_)
    rw [List.exists_mem_cons_iff] at h
    rcases h with h | hp | h
    · exact .inl (List.mem_append_right _ h)
    · exact .inl (List.mem_append_left _ (Option.mem_toList.2 hp))
    · exact .inr h

/-! ## Walks -/

namespace Draft

open Ledger (Step)

variable {d d' : Draft} {l : Ledger} {log log' : ReadLog}

/-- A stage that is no repeat is walked alike in both modes. -/
theorem stage_collapsing_of_first
    (h : ∀ pg, st.page? = some pg → d.ast.contains pg.fragment = false) :
    stage s .collapsing d st = stage s .strict d st := by
  cases st with
  | take n =>
    have hn : d.ast.contains Paging.take.fragment = false := h .take rfl
    rw [stage, stage, page, page, hn]
    rfl
  | skip n =>
    have hn : d.ast.contains Paging.skip.fragment = false := h .skip rfl
    rw [stage, stage, page, page, hn]
    rfl
  | terminal kind e => cases e <;> rfl
  | _ => rfl

/-- A repeat is ignored, and its count with it. -/
theorem stage_collapsing_of_repeat (hst : st.page? = some pg)
    (h : d.ast.contains pg.fragment = true) : stage s .collapsing d st = pure d := by
  obtain ⟨⟨pg', n⟩, hpaging, heq⟩ := Option.map_eq_some_iff.1 hst
  cases heq
  rw [stage_of_paging? hpaging, page, if_pos h]

/-- A stage that cuts out rows leaves a count, and no other stage does. -/
theorem isSome_count_iff {l' : Ledger} (h : Step s .strict l log st l' log')
    (ht : st.terminal? = none) :
    (l'.count pg).isSome = true ↔ st.page? = some pg ∨ (l.count pg).isSome = true := by
  have hcuts : st.cuts pg = true ↔ st.page? = some pg := by
    cases st with
    | terminal => cases ht
    | _ => cases pg <;> simp [Stage.cuts, Stage.page?, Stage.paging?]
  rw [← hcuts]
  cases hc : st.cuts pg with
  | true =>
    rw [(h.count_of_cuts hc).2]
    simp
  | false =>
    rw [h.count_eq hc]
    simp

/-- **Ignoring repeats is walking without them**, when those kinds have been
seen whose counts are in the ledger. -/
theorem Keeps.foldlM_collapsing (hk : d.Keeps l)
    (hseen : ∀ pg, pg ∈ seen ↔ (l.count pg).isSome = true)
    (hs : ∀ st ∈ stages, st.terminal? = none) (log : ReadLog) :
    Reading.after (stages.foldlM (stage s .collapsing) d) log =
      Reading.after ((dropRepeats seen stages).foldlM (stage s .strict) d) log := by
  induction seen, stages using dropRepeats.induct generalizing d l log with
  | case1 seen => rfl
  | case2 seen st stages hr ih =>
    rw [List.forall_mem_cons] at hs
    obtain ⟨pg, hpg, hst⟩ := Stage.repeats_iff.1 hr
    have hcontains : d.ast.contains pg.fragment = true := by rw [hk.paging, (hseen pg).1 hpg]
    rw [dropRepeats_cons_of_repeats hr, List.foldlM_cons,
      stage_collapsing_of_repeat hst hcontains, pure_bind]
    exact ih hk hseen hs.2 log
  | case3 seen st stages hr ih =>
    rw [List.forall_mem_cons] at hs
    have hfirst : ∀ pg, st.page? = some pg → d.ast.contains pg.fragment = false := by
      intro pg hst
      rw [hk.paging, ← Bool.not_eq_true, ← hseen]
      intro hpg
      exact hr (Stage.repeats_iff.2 ⟨pg, hpg, hst⟩)
    rw [dropRepeats_cons_of_first hr, List.foldlM_cons, List.foldlM_cons,
      stage_collapsing_of_first hfirst]
    refine Reading.after_bind_congr rfl fun d₁ log₁ h₁ => ?_
    obtain ⟨l₁, hstep, hk₁⟩ := hk.exists_step (by simp [hs.1]) h₁
    refine ih hk₁ (fun pg => ?_) hs.2 log₁
    rw [isSome_count_iff hstep hs.1, ← hseen, List.mem_append, Option.mem_toList]

/-- A stage that can be walked when repeats are errors is walked alike when
they are ignored. -/
theorem stage_collapsing_eq_ok (h : (stage s .strict d st).after log = (.ok d', log')) :
    (stage s .collapsing d st).after log = (.ok d', log') := by
  rw [stage_collapsing_of_first, h]
  intro pg hst
  obtain ⟨⟨pg', n⟩, hpaging, heq⟩ := Option.map_eq_some_iff.1 hst
  cases heq
  rw [stage_of_paging? hpaging] at h
  rcases page_eq_ok.1 h with ⟨hn, -⟩ | ⟨hmode, -⟩
  · exact hn
  · cases hmode

theorem foldlM_collapsing_eq_ok
    (h : Reading.after (stages.foldlM (stage s .strict) d) log = (.ok d', log')) :
    Reading.after (stages.foldlM (stage s .collapsing) d) log = (.ok d', log') := by
  induction stages generalizing d log with
  | nil => exact h
  | cons st stages ih =>
    rw [List.foldlM_cons, Reading.after_bind_eq_ok] at h ⊢
    obtain ⟨d₁, log₁, hst, hrest⟩ := h
    exact ⟨d₁, log₁, stage_collapsing_eq_ok hst, ih hrest⟩

end Draft

/-- Of a chain whose only terminal stage is the last one. -/
theorem TerminalEnds.foldlM_collapsing (h : TerminalEnds stages) (plan : Plan) :
    stages.foldlM (Draft.stage s .collapsing) (.start s plan) =
      (dropRepeats [] stages).foldlM (Draft.stage s .strict) (.start s plan) := by
  have hseen : ∀ pg, pg ∈ ([] : List Paging) ↔ ((Ledger.start s plan).count pg).isSome = true :=
    fun pg => ⟨nofun, nofun⟩
  refine Reading.ext fun log => ?_
  rcases terminalEnds_iff.1 h with hnone | ⟨before, kind, e, rfl, hb⟩
  · exact Draft.keeps_start.foldlM_collapsing hseen hnone log
  · rw [dropRepeats_concat rfl, List.foldlM_append, List.foldlM_append]
    have hwalk := Draft.keeps_start.foldlM_collapsing (s := s) hseen hb log
    refine Reading.after_bind_congr hwalk fun d log₁ _ => ?_
    -- A terminal stage does the same in both modes.
    cases e <;> rfl

theorem TerminalEnds.dropRepeats (h : TerminalEnds stages) :
    TerminalEnds (dropRepeats [] stages) := by
  rw [terminalEnds_iff] at h ⊢
  rcases h with hnone | ⟨before, kind, e, rfl, hb⟩
  · exact .inl fun st hst => hnone st (mem_of_mem_dropRepeats hst)
  · refine .inr ⟨_, kind, e, dropRepeats_concat rfl, fun st hst => ?_⟩
    exact hb st (mem_of_mem_dropRepeats hst)

/-! ## Translations -/

namespace Pipeline

/-- Of a chain whose only terminal stage is the last one, it is checked that
there is one projection and no limit beside the terminal stage. -/
theorem checkStages_of_terminalEnds (h : TerminalEnds stages) :
    checkStages stages =
      if 1 < (stages.filterMap Stage.selector?).length then
        Fault.raise (.unsupportedShape .severalProjections)
      else if (stages.findSome? Stage.terminal?).isSome && stages.any Stage.isTake then
        Fault.raise (.invalidPipeline .takeWithTerminal)
      else .ok () := by
  rw [checkStages]
  rcases terminalEnds_iff.1 h with hnone | ⟨before, kind, e, rfl, hb⟩
  · have hdrop : stages.dropWhile (fun st => st.terminal?.isNone) = [] :=
      List.dropWhile_eq_nil_iff.2 fun st hst => by simp [hnone st hst]
    rw [hdrop, List.findSome?_eq_none_iff.2 hnone]
    rfl
  · rw [dropWhile_append_terminal hb, takeWhile_append_terminal hb, List.findSome?_append,
      List.findSome?_eq_none_iff.2 hb, List.any_append]
    simp [Stage.terminal?, Stage.isTake]

/-- A pipeline without repeated limits and offsets. -/
def dropRepeats (p : Pipeline) : Pipeline :=
  { p with stages := KindQuery.dropRepeats [] p.stages }

variable {p : Pipeline}

theorem selector?_of_page? (st : Stage) (pg : Paging) (h : st.page? = some pg) :
    st.selector? = none := by
  cases st <;> first | rfl | cases h

theorem terminal?_of_page? (st : Stage) (pg : Paging) (h : st.page? = some pg) :
    st.terminal? = none := by
  cases st <;> first | rfl | cases h

theorem checkStages_dropRepeats (h : TerminalEnds p.stages) :
    checkStages p.dropRepeats.stages = checkStages p.stages := by
  change checkStages (KindQuery.dropRepeats [] p.stages) = _
  rw [checkStages_of_terminalEnds h, checkStages_of_terminalEnds h.dropRepeats,
    filterMap_dropRepeats selector?_of_page?, findSome?_dropRepeats terminal?_of_page?,
    any_isTake_dropRepeats List.not_mem_nil]

theorem plan_dropRepeats : p.dropRepeats.plan = p.plan := by
  rw [plan, plan, dropRepeats, findSome?_dropRepeats selector?_of_page?]

/-- **Ignoring repeats is translating without them**, errors and readings
included. -/
theorem translate_collapsing (h : TerminalEnds p.stages) :
    p.translate .collapsing = p.dropRepeats.compile := by
  have hfold : ∀ plan, p.stages.foldlM (Draft.stage p.schema .collapsing) (.start p.schema plan) =
      p.dropRepeats.stages.foldlM (Draft.stage p.schema .strict) (.start p.schema plan) :=
    h.foldlM_collapsing
  have hterminal : p.dropRepeats.stages.findSome? Stage.terminal? =
      p.stages.findSome? Stage.terminal? := findSome?_dropRepeats terminal?_of_page?
  rw [compile, translate, translate, checkStages_dropRepeats h, plan_dropRepeats, hterminal]
  simp only [hfold]
  rfl

/-- A repeat may be taken out, so that its count is neither checked nor
read. -/
theorem translate_collapsing_append_cons {before after : List Stage}
    (h : TerminalEnds (before ++ st :: after)) (hst : st.page? = some pg)
    (hbefore : ∃ st' ∈ before, st'.page? = some pg) :
    (Pipeline.mk s (before ++ st :: after)).translate .collapsing =
      (Pipeline.mk s (before ++ after)).translate .collapsing := by
  have hends : TerminalEnds (before ++ after) := by
    rcases List.eq_nil_or_concat after with rfl | ⟨after, last, rfl⟩
    · rw [TerminalEnds, List.dropLast_concat] at h
      rw [List.append_nil]
      exact fun st' hst' => h st' (List.dropLast_subset _ hst')
    · rw [List.concat_eq_append] at h ⊢
      rw [TerminalEnds, ← List.cons_append, ← List.append_assoc, List.dropLast_concat,
        List.forall_mem_append, List.forall_mem_cons] at h
      rw [TerminalEnds, ← List.append_assoc, List.dropLast_concat, List.forall_mem_append]
      exact ⟨h.1, h.2.2⟩
  rw [translate_collapsing h, translate_collapsing hends, dropRepeats, dropRepeats,
    dropRepeats_append_cons hst (.inr hbefore)]

/-- What compiles is translated alike when repeats are ignored. -/
theorem translate_collapsing_eq_ok {log log' : ReadLog} {c : Compiled}
    (h : p.compile.after log = (.ok c, log')) :
    (p.translate .collapsing).after log = (.ok c, log') := by
  obtain ⟨hcheck, plan, d, text, hplan, hd, htext, hc⟩ := translate_eq_ok.1 h
  exact translate_eq_ok.2
    ⟨hcheck, plan, d, text, hplan, Draft.foldlM_collapsing_eq_ok hd, htext, hc⟩

/-- **Collapsing is compiling without repeats**, for a pipeline in which no
stage follows a terminal one. Results, errors and readings are the same, and
so are the texts for a person. A repeat has no part in it, whatever its
count is, and a pipeline that compiles is translated to the same query. -/
theorem collapsing_eq_strict (h : TerminalEnds p.stages) :
    p.translate .collapsing = p.dropRepeats.compile ∧
      p.displayText = (do
        let c ← p.dropRepeats.compile
        Reading.ofExcept (c.ast.render (.inline c.params))) ∧
      (∀ before st after pg, p.stages = before ++ st :: after → st.page? = some pg →
        (∃ st' ∈ before, st'.page? = some pg) →
        p.translate .collapsing = (Pipeline.mk p.schema (before ++ after)).translate .collapsing) ∧
      ∀ log c log', p.compile.after log = (.ok c, log') →
        (p.translate .collapsing).after log = (.ok c, log') := by
  refine ⟨translate_collapsing h, ?_, ?_, fun log c log' => translate_collapsing_eq_ok⟩
  · rw [displayText, translate_collapsing h]
    rfl
  · intro before st after pg hstages hst hbefore
    obtain ⟨s, stages⟩ := p
    cases hstages
    exact translate_collapsing_append_cons h hst hbefore

/-- Adults, three at a time and starting over: the second limit is no number,
and it would be read from outside. -/
def sampleRepeated : Pipeline where
  schema := sample.schema
  stages :=
    [.take (.value (.int32 3)), .skip (.value (.int64 6)), .filter (.field "Adult"),
      .take (.captured ⟨0, .text "many", []⟩), .skip (.value (.int64 (-1)))]

/-- It is not compiled. Ignoring its repeats, it is what it is without
them, and nothing is read. So it is shown with the first limit and offset. -/
theorem sampleRepeated_collapses : TerminalEnds sampleRepeated.stages ∧
    (∃ e log, sampleRepeated.compile.after [] = (.error e, log)) ∧
    ∃ c, sampleRepeated.dropRepeats.compile.after [] = (.ok c, []) ∧
      (sampleRepeated.translate .collapsing).after [] = (.ok c, []) ∧
      sampleRepeated.displayText.after [] =
        (.ok "SELECT * FROM Person WHERE Adult = @True LIMIT @3 OFFSET @6", []) := by
  have hends : TerminalEnds sampleRepeated.stages := by
    simp [TerminalEnds, sampleRepeated, Stage.terminal?]
  obtain ⟨c, hc⟩ : ∃ c, sampleRepeated.dropRepeats.compile.after [] = (.ok c, []) := ⟨_, rfl⟩
  obtain ⟨collapsed, shown, -⟩ := collapsing_eq_strict hends
  refine ⟨hends, ⟨_, _, rfl⟩, c, hc, ?_, ?_⟩
  · rw [collapsed]
    exact hc
  · rw [shown]
    rfl

end Pipeline

end KindQuery
