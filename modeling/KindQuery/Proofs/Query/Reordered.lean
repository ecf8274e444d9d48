import KindQuery.Proofs.Query.Collected
import KindQuery.Proofs.Query.Supported
/-!
# Stages in another order

Filters add up to a conjunction from left to right and a terminal stage
closes the query. All other stages may stand anywhere among them: what is
compiled is the same (`compile_reorder`). The drafts on the way are not.
They keep the same ledger at the end, and drafts of one ledger are written
alike.
-/

namespace KindQuery

/-! ## Drafts of one ledger -/

namespace Fragment

variable {p : Placeholder} {f : Fragment} {fs : List Fragment} {text : String}

/-- Where a mark stands nothing is written. -/
theorem eq_empty_of_isMark (h : f.isMark = true) (ht : f.inPlace p = .ok text) : text = "" := by
  cases f with
  | orderByField name =>
    obtain ⟨_, -, ht⟩ := bind_eq_ok.1 ht
    exact (Except.ok.inj ht).symm
  | take | skip | orderBy => exact (Except.ok.inj ht).symm
  | _ => cases h

theorem inPlace_of_isMark (h : f.isMark = true) (ho : f.isOrder = false) :
    f.inPlace p = .ok "" := by
  cases f with
  | take | skip => rfl
  | orderBy | orderByField => cases ho
  | _ => cases h

/-- What fragments are written as. -/
def Pieces (p : Placeholder) (fs : List Fragment) (text : String) : Prop :=
  ∃ pieces, fs.mapM (inPlace p) = .ok pieces ∧ String.join pieces = text

theorem pieces_cons_iff : Pieces p (f :: fs) text ↔
    ∃ first rest, f.inPlace p = .ok first ∧ Pieces p fs rest ∧ text = first ++ rest := by
  unfold Pieces
  simp only [List.mapM_cons, bind_eq_ok]
  constructor
  · rintro ⟨_, ⟨first, hfirst, pieces, hpieces, h⟩, rfl⟩
    cases h
    exact ⟨first, _, hfirst, ⟨pieces, hpieces, rfl⟩, String.join_cons⟩
  · rintro ⟨first, _, hfirst, ⟨pieces, hpieces, rfl⟩, rfl⟩
    exact ⟨first :: pieces, ⟨first, hfirst, pieces, hpieces, rfl⟩, String.join_cons⟩

/-- **Only what is no mark is written in place.** Of the marks it is asked
that those of the ordering can be written. -/
theorem pieces_iff : Pieces p fs text ↔
    Pieces p (fs.filter fun f => !f.isMark) text ∧
      ∀ f ∈ fs.filter isOrder, f.inPlace p = .ok "" := by
  induction fs generalizing text with
  | nil => simp
  | cons f fs ih =>
    cases hm : f.isMark with
    | false =>
      have ho : f.isOrder = false := by
        cases ho : f.isOrder with
        | false => rfl
        | true => rw [isMark_of_isOrder ho] at hm; cases hm
      rw [List.filter_cons_of_pos (by simp [hm]), List.filter_cons_of_neg (by simp [ho]),
        pieces_cons_iff, pieces_cons_iff]
      simp only [ih]
      constructor
      · rintro ⟨first, rest, hfirst, ⟨hrest, horder⟩, htext⟩
        exact ⟨⟨first, rest, hfirst, hrest, htext⟩, horder⟩
      · rintro ⟨⟨first, rest, hfirst, hrest, htext⟩, horder⟩
        exact ⟨first, rest, hfirst, ⟨hrest, horder⟩, htext⟩
    | true =>
      have hmark : Pieces p (f :: fs) text ↔ f.inPlace p = .ok "" ∧ Pieces p fs text := by
        rw [pieces_cons_iff]
        constructor
        · rintro ⟨first, rest, hfirst, hrest, rfl⟩
          have hempty := eq_empty_of_isMark hm hfirst
          subst hempty
          exact ⟨hfirst, by simpa using hrest⟩
        · rintro ⟨hfirst, hrest⟩
          exact ⟨"", text, hfirst, hrest, by simp⟩
      rw [hmark, ih, List.filter_cons_of_neg (by simp [hm])]
      cases ho : f.isOrder with
      | true =>
        rw [List.filter_cons_of_pos ho, List.forall_mem_cons]
        exact and_left_comm
      | false =>
        rw [List.filter_cons_of_neg (by simp [ho])]
        exact and_iff_right (inPlace_of_isMark hm ho)

end Fragment

/-- **Drafts of one ledger are written alike.** -/
theorem Draft.Keeps.render_eq_ok {d d' : Draft} {l : Ledger} (h : d.Keeps l) (h' : d'.Keeps l)
    {p : Placeholder} {text : String} (htext : d.ast.render p = .ok text) :
    d'.ast.render p = .ok text := by
  simp only [Ast.render, bind_eq_ok] at htext ⊢
  obtain ⟨pieces, hpieces, order, horder, limit, hlimit, offset, hoffset, ht⟩ := htext
  have hwritten : Fragment.Pieces p d'.ast.fragments (String.join pieces) := by
    rw [Fragment.pieces_iff, h'.inPlace, h'.ordering, ← h.inPlace, ← h.ordering,
      ← Fragment.pieces_iff]
    exact ⟨pieces, hpieces, rfl⟩
  obtain ⟨pieces', hpieces', hjoin⟩ := hwritten
  have hclause : d'.ast.orderClause = d.ast.orderClause := by
    rw [Ast.orderClause, Ast.orderClause, h.direction?_eq, h'.direction?_eq, h.orderedField?_eq,
      h'.orderedField?_eq]
  have hpaging : ∀ (pg : Paging) keyword name,
      d'.ast.pagingClause p pg.fragment keyword name =
        d.ast.pagingClause p pg.fragment keyword name := by
    intro pg keyword name
    rw [Ast.pagingClause, Ast.pagingClause, h.paging, h'.paging]
  refine ⟨pieces', hpieces', order, hclause.trans horder, limit, (hpaging .take _ _).trans hlimit,
    offset, (hpaging .skip _ _).trans hoffset, ?_⟩
  rw [hjoin]
  exact ht

theorem Param.find?_eq_some_iff {params : List Param} (h : (params.map Param.name).Nodup)
    {name : String} {v : Value} : find? name params = some v ↔ ⟨name, v⟩ ∈ params := by
  constructor
  · intro hfind
    obtain ⟨p, hp, rfl⟩ := Option.map_eq_some_iff.1 hfind
    have hname : p.name = name := by simpa using List.find?_some hp
    rw [← hname]
    exact List.mem_of_find?_eq_some hp
  · exact fun hmem => find?_of_mem h hmem

/-- And their parameters have the same values. -/
theorem Draft.Keeps.find?_eq {d d' : Draft} {l : Ledger} (h : d.Keeps l) (h' : d'.Keeps l)
    (name : String) : Param.find? name d'.params = Param.find? name d.params := by
  have hperm : d'.params.Perm d.params := h'.params_perm.trans h.params_perm.symm
  refine Option.ext fun v => ?_
  rw [Param.find?_eq_some_iff h'.nodup_names, Param.find?_eq_some_iff h.nodup_names, hperm.mem_iff]

/-! ## Chains of stages -/

/-- Is the stage a filter? -/
def Stage.isFilter : Stage → Bool
  | .filter _ => true
  | _ => false

/-- Stages in another order: filters come one after the other as before, and
no stage follows a terminal one. -/
structure Reorders (xs ys : List Stage) : Prop where
  perm : xs.Perm ys
  filters : xs.filter Stage.isFilter = ys.filter Stage.isFilter
  ends : TerminalEnds xs
  ends' : TerminalEnds ys

namespace Reorders

variable {xs ys : List Stage}

theorem symm (h : Reorders xs ys) : Reorders ys xs :=
  ⟨h.perm.symm, h.filters.symm, h.ends', h.ends⟩

/-- Either no stage is terminal or both chains end with the same one. -/
theorem cases (h : Reorders xs ys) :
    ((∀ st ∈ xs, st.terminal? = none) ∧ ∀ st ∈ ys, st.terminal? = none) ∨
      ∃ before before' kind e, xs = before ++ [.terminal kind e] ∧
        ys = before' ++ [.terminal kind e] ∧ before.Perm before' ∧
        (∀ st ∈ before, st.terminal? = none) ∧ ∀ st ∈ before', st.terminal? = none := by
  rcases terminalEnds_iff.1 h.ends with hnone | ⟨before, kind, e, rfl, hb⟩
  · exact .inl ⟨hnone, fun st hst => hnone st (h.perm.mem_iff.2 hst)⟩
  have hmem : Stage.terminal kind e ∈ ys := h.perm.mem_iff.1 (by simp)
  rcases terminalEnds_iff.1 h.ends' with hnone | ⟨before', kind', e', rfl, hb'⟩
  · cases hnone _ hmem
  · have hlast : Stage.terminal kind e = .terminal kind' e' := by
      rcases List.mem_append.1 hmem with hmem | hmem
      · cases hb' _ hmem
      · exact List.mem_singleton.1 hmem
    rw [← hlast]
    have hperm := h.perm
    rw [← hlast, List.perm_append_right_iff] at hperm
    exact .inr ⟨before, before', kind, e, rfl, rfl, hperm, hb, hb'⟩

/-- The predicates of stages of which none is terminal are those of the
filters. -/
theorem filterMap_predicate? {stages : List Stage} (h : ∀ st ∈ stages, st.terminal? = none) :
    stages.filterMap Stage.predicate? =
      (stages.filter Stage.isFilter).filterMap Stage.predicate? := by
  rw [List.filterMap_filter]
  refine List.filterMap_congr fun st hst => ?_
  have := h st hst
  cases st <;> first | rfl | cases this

/-- **Predicates come in the same order.** -/
theorem predicates (h : Reorders xs ys) :
    xs.filterMap Stage.predicate? = ys.filterMap Stage.predicate? := by
  have hfilters := h.filters
  rcases h.cases with ⟨hx, hy⟩ | ⟨before, before', kind, e, rfl, rfl, -, hb, hb'⟩
  · rw [filterMap_predicate? hx, filterMap_predicate? hy, hfilters]
  · rw [List.filter_append, List.filter_append, List.append_cancel_right_eq] at hfilters
    rw [List.filterMap_append, List.filterMap_append, filterMap_predicate? hb,
      filterMap_predicate? hb', hfilters]

theorem terminal (h : Reorders xs ys) :
    xs.findSome? Stage.terminal? = ys.findSome? Stage.terminal? := by
  rcases h.cases with ⟨hx, hy⟩ | ⟨before, before', kind, e, rfl, rfl, -, hb, hb'⟩
  · rw [List.findSome?_eq_none_iff.2 hx, List.findSome?_eq_none_iff.2 hy]
  · rw [List.findSome?_append, List.findSome?_append, List.findSome?_eq_none_iff.2 hb,
      List.findSome?_eq_none_iff.2 hb']

theorem terminalLast (h : Reorders xs ys) (hx : TerminalLast xs) : TerminalLast ys := by
  rcases h.cases with ⟨-, hy⟩ | ⟨before, before', kind, e, rfl, rfl, hperm, hb, hb'⟩
  · exact .inl hy
  · rw [Pipeline.terminalLast_append_terminal hb] at hx
    rw [Pipeline.terminalLast_append_terminal hb', ← hperm.any_eq]
    exact hx

/-- Of one selector at most there is only one order. -/
theorem selectors (h : Reorders xs ys) (hone : (xs.filterMap Stage.selector?).length ≤ 1) :
    ys.filterMap Stage.selector? = xs.filterMap Stage.selector? := by
  have hperm := (h.perm.filterMap Stage.selector?).symm
  match hs : xs.filterMap Stage.selector?, hone with
  | [], _ =>
    rw [hs] at hperm
    exact hperm.eq_nil
  | [e], _ =>
    rw [hs] at hperm
    exact hperm.eq_singleton

end Reorders

theorem flatMap_inequalityColumns {s : Schema} {stages : List Stage} :
    stages.flatMap (Stage.inequalityColumns s) =
      (stages.filterMap Stage.predicate?).flatMap (Expr.inequalityColumns s) := by
  induction stages with
  | nil => rfl
  | cons st stages ih =>
    rw [List.flatMap_cons, ih, Stage.inequalityColumns]
    cases hp : st.predicate? with
    | none => rw [List.filterMap_cons_none hp]; rfl
    | some e => rw [List.filterMap_cons_some hp]; rfl

/-! ## Runs -/

/-- **Stages in another order end in the same ledger.** -/
theorem Ledger.Run.reorder {s : Schema} {l l' : Ledger} {log log' : ReadLog} {xs ys : List Stage}
    (h : Run s .strict l log xs l' log') (hxy : Reorders xs ys)
    (hk : ∀ st ∈ xs, ∀ k ∈ st.captures, k.IsConstant) (log₁ : ReadLog) :
    ∃ log₁', Run s .strict l log₁ ys l' log₁' := by
  have hk' : ∀ st ∈ ys, ∀ k ∈ st.captures, k.IsConstant :=
    fun st hst => hk st (hxy.perm.mem_iff.2 hst)
  obtain ⟨hsupported, htracks, hroom⟩ := (exists_run_iff hk).1 ⟨l', log', h⟩
  obtain ⟨l'', log₁', hrun⟩ : ∃ l'' log₁', Run s .strict l log₁ ys l'' log₁' := by
    refine (exists_run_iff hk').2 ⟨fun st hst => hsupported st (hxy.perm.mem_iff.2 hst), ?_, ?_, ?_⟩
    · rw [flatMap_inequalityColumns, ← hxy.predicates, ← flatMap_inequalityColumns]
      exact htracks
    · rw [← hxy.perm.countP_eq]
      exact hroom.order
    · intro pg
      rw [← hxy.perm.countP_eq]
      exact hroom.count pg
  have heq : l' = l'' :=
    (h.collects hk).eq (hrun.collects hk') (fun st => hxy.perm.mem_iff) hxy.predicates
  rw [heq]
  exact ⟨log₁', hrun⟩

/-! ## Pipelines -/

/-- The same query, but for the order in which fragments and parameters have
been added. -/
structure Compiled.Alike (c c' : Compiled) : Prop where
  kind : c'.kind = c.kind
  text : c'.text = c.text
  plan : c'.plan = c.plan
  shape : c'.shape = c.shape
  terminal : c'.terminal = c.terminal
  params : ∀ name, Param.find? name c'.params = Param.find? name c.params

namespace Pipeline

variable {p q : Pipeline} {log : ReadLog}

theorem IsConstant.reorder (hp : p.IsConstant) (h : Reorders p.stages q.stages) : q.IsConstant :=
  fun st hst => hp st (h.perm.mem_iff.2 hst)

/-- A pipeline that compiles does so in another order. -/
theorem exists_compile_of_reorders (hs : p.schema = q.schema) (h : Reorders p.stages q.stages)
    (hp : p.IsConstant) {c : Compiled} {log' : ReadLog}
    (hc : p.compile.after log = (.ok c, log')) (log₁ : ReadLog) :
    ∃ c' log₁', q.compile.after log₁ = (.ok c', log₁') ∧ c.Alike c' := by
  obtain ⟨hcheck, plan, d, text, hplan, hd, htext, rfl⟩ := translate_eq_ok.1 hc
  obtain ⟨hone, hlast⟩ := checkStages_eq_ok.1 hcheck
  obtain ⟨l, hrun, hkeeps⟩ := Draft.keeps_start.exists_run_of_terminalLast hlast rfl hd
  obtain ⟨log₁', hrun'⟩ := hrun.reorder h hp log₁
  rw [hs] at hrun'
  obtain ⟨d', hd', hkeeps'⟩ := Draft.keeps_start.exists_foldlM hrun'
  have hselectors := h.selectors hone
  have hcheck' : checkStages q.stages = .ok () :=
    checkStages_eq_ok.2 ⟨by rw [hselectors]; exact hone, h.terminalLast hlast⟩
  have hplan' : q.plan = .ok plan := by
    rw [← hplan, Pipeline.plan, Pipeline.plan, ← List.head?_filterMap, ← List.head?_filterMap,
      hselectors, hs]
  have htext' : d'.finalAst.render .named = .ok text := by
    rw [hkeeps.finalAst_eq] at htext
    rw [hkeeps'.finalAst_eq]
    exact hkeeps.render_eq_ok hkeeps' htext
  refine ⟨_, log₁', translate_eq_ok.2 ⟨hcheck', plan, d', text, hplan', hd', htext', rfl⟩, ?_⟩
  exact ⟨congrArg Schema.name hs.symm, rfl, rfl, hkeeps'.shape.trans hkeeps.shape.symm,
    h.terminal.symm, hkeeps.find?_eq hkeeps'⟩

/-- **The order of stages is canonical.** Of two pipelines with the same
stages, filters in the same order and a terminal stage at the end, one
compiles if the other does, whatever has been read before, and they
compile to the same text, plan, shape, terminal and values of parameters. -/
theorem compile_reorder (hs : p.schema = q.schema) (h : Reorders p.stages q.stages)
    (hp : p.IsConstant) (log₁ log₂ : ReadLog) :
    ((∃ c log', p.compile.after log₁ = (.ok c, log')) ↔
      ∃ c log', q.compile.after log₂ = (.ok c, log')) ∧
    ∀ c c' log₁' log₂', p.compile.after log₁ = (.ok c, log₁') →
      q.compile.after log₂ = (.ok c', log₂') → c.Alike c' := by
  have hq : q.IsConstant := hp.reorder h
  refine ⟨⟨?_, ?_⟩, ?_⟩
  · rintro ⟨c, log', hc⟩
    obtain ⟨c', log₂', hc', -⟩ := exists_compile_of_reorders hs h hp hc log₂
    exact ⟨c', log₂', hc'⟩
  · rintro ⟨c', log', hc'⟩
    obtain ⟨c, log₁', hc, -⟩ := exists_compile_of_reorders hs.symm h.symm hq hc' log₁
    exact ⟨c, log₁', hc⟩
  · intro c c' log₁' log₂' hc hc'
    obtain ⟨c'', log₂'', hc'', halike⟩ := exists_compile_of_reorders hs h hp hc log₂
    rw [hc'] at hc''
    cases hc''
    exact halike

/-- The sample with its filters in front. -/
def sampleFiltersFirst : Pipeline where
  schema := sample.schema
  stages :=
    [.filter (.conjunction [.field "Adult", .comparison (.value (.text "ada")) .eq (.field "Id")]),
      .filter (.comparison (.captured ⟨1, .int32 5, []⟩) .lt (.field "Age")),
      .skip (.captured ⟨0, .int32 3, []⟩), .orderBy (.field "Age") .desc, .project .row,
      .terminal .first (some (.negation (.value (.bool false))))]

theorem reorders_sample : Reorders sample.stages sampleFiltersFirst.stages where
  perm := .cons _ (List.perm_middle : ([_, _, _] ++ _ :: [_]).Perm _)
  filters := rfl
  ends := by simp [TerminalEnds, sample, Stage.terminal?]
  ends' := by simp [TerminalEnds, sampleFiltersFirst, Stage.terminal?]

/-- Their fragments come in another order all the same. -/
theorem compile_sample_alike : ∃ c c' log log',
    sample.compile.after [] = (.ok c, log) ∧ sampleFiltersFirst.compile.after [] = (.ok c', log') ∧
      c.Alike c' ∧ c'.ast ≠ c.ast := by
  obtain ⟨c, log, hc⟩ : ∃ c log, sample.compile.after [] = (.ok c, log) := ⟨_, _, rfl⟩
  have hs : sample.schema = sampleFiltersFirst.schema := rfl
  have halike := compile_reorder hs reorders_sample isConstant_sample [] []
  obtain ⟨c', log', hc'⟩ := halike.1.1 ⟨c, log, hc⟩
  refine ⟨c, c', log, log', hc, hc', halike.2 c c' log log' hc hc', ?_⟩
  cases hc
  cases hc'
  decide

end Pipeline

end KindQuery
