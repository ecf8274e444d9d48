import KindQuery.Proofs.Query.Run
import KindQuery.Query.Bind
/-!
# Placeholders and parameters

The text of a translated query holds placeholders, and its constants
travel beside it under names. `placeholders_match_params` says that the two
fit: each placeholder has one parameter, the only others are the limit and
the offset, and no name is used twice.

A limit or an offset is the count of the first stage that cuts out rows in
its way, read when that stage is reached.
-/

namespace KindQuery

/-- The names of the placeholders in order of appearance. -/
def Ast.placeholders (a : Ast) : List String := a.fragments.filterMap Fragment.paramName?

/-- The names of the parameters that hold counts. -/
def Ast.reservedNames (a : Ast) : List String :=
  (if a.contains .take then [Param.takeName] else []) ++
    if a.contains .skip then [Param.skipName] else []

/-! ## Counts -/

/-- The count that a stage enters, when some values have been read
before. -/
inductive Stage.Counts (pg : Paging) (log : ReadLog) : Stage → Int64 → Prop
  | page {st : Stage} {n : Expr} {k : Int64} {log' : ReadLog} :
      st.paging? = some (pg, n) → (Draft.count pg n).after log = (.ok k, log') →
      Counts pg log st k
  | terminal {kind : Terminal} {e : Option Expr} :
      pg = .take → Counts pg log (.terminal kind e) kind.fetchLimit

/-- The count of the first stage of a pipeline that cuts out rows in some
way. -/
def Pipeline.FirstCount (p : Pipeline) (mode : Mode) (log : ReadLog) (pg : Paging) (k : Int64) :
    Prop :=
  ∃ before st after plan d log₁, p.stages = before ++ st :: after ∧
    (∀ st' ∈ before, st'.cuts pg = false) ∧ p.plan = .ok plan ∧
    Reading.after (before.foldlM (Draft.stage p.schema mode) (.start p.schema plan)) log =
      (.ok d, log₁) ∧
    st.Counts pg log₁ k

namespace Stage

variable {pg : Paging} {log : ReadLog} {st : Stage} {k k' : Int64}

theorem Counts.cuts_eq (h : st.Counts pg log k) : st.cuts pg = true := by
  cases h with
  | page hst => cases st <;> cases hst <;> rfl
  | terminal hpg => subst hpg; rfl

theorem Counts.eq (h : st.Counts pg log k) (h' : st.Counts pg log k') : k = k' := by
  cases h with
  | page hst hk =>
    cases h' with
    | page hst' hk' =>
      rw [hst] at hst'
      cases hst'
      rw [hk] at hk'
      cases hk'
      rfl
    | terminal => cases hst
  | terminal =>
    cases h' with
    | page hst' => cases hst'
    | terminal => rfl

end Stage

/-- Of stages of which one cuts out rows there is a first one that does. -/
theorem exists_first_cut {stages : List Stage} {pg : Paging}
    (h : ∃ st ∈ stages, st.cuts pg = true) :
    ∃ before st after, stages = before ++ st :: after ∧
      (∀ st' ∈ before, st'.cuts pg = false) ∧ st.cuts pg = true := by
  obtain ⟨st, hst⟩ := Option.isSome_iff_exists.1 (List.find?_isSome.2 h)
  obtain ⟨hc, before, after, rfl, hb⟩ := List.find?_eq_some_iff_append.1 hst
  exact ⟨before, st, after, rfl, fun st' hm => by simpa using hb st' hm, hc⟩

namespace Ledger

variable {s : Schema} {mode : Mode} {l l' : Ledger} {log log' : ReadLog} {pg : Paging}

/-- The first stage that cuts out rows enters its count. -/
theorem Step.exists_counts {st : Stage} (h : Step s mode l log st l' log')
    (hn : l.count pg = none) (hc : st.cuts pg = true) :
    ∃ k, st.Counts pg log k ∧ l'.count pg = some k := by
  have hpaging : ∀ {pg' n}, st.paging? = some (pg', n) → pg' = pg := by
    intro pg' n hst
    cases st <;> cases hst <;> exact (eq_of_beq hc).symm
  cases h with
  | filter | project | orderBy => cases hc
  | page hst _ hk =>
    cases hpaging hst
    exact ⟨_, .page hst hk, if_pos rfl⟩
  | repeated hst _ hs =>
    cases hpaging hst
    simp [hn] at hs
  | close | filterClose =>
    have hpg : pg = .take := eq_of_beq hc
    exact ⟨_, .terminal hpg, if_pos hpg⟩

/-- **The count of a run** is that of its first stage that cuts out
rows. -/
theorem Run.exists_counts {before after : List Stage} {st : Stage}
    (h : Run s mode l log (before ++ st :: after) l' log') (hn : l.count pg = none)
    (hb : ∀ st' ∈ before, st'.cuts pg = false) (hc : st.cuts pg = true) :
    ∃ l₁ log₁ k, Run s mode l log before l₁ log₁ ∧ st.Counts pg log₁ k ∧
      l'.count pg = some k := by
  obtain ⟨l₁, log₁, hbefore, hrest⟩ := Run.append_iff.1 h
  cases hrest with
  | cons hst hafter =>
    obtain ⟨k, hk, hcount⟩ := hst.exists_counts ((hbefore.count_eq hb).trans hn) hc
    refine ⟨l₁, log₁, k, hbefore, hk, ?_⟩
    rw [hafter.count_eq_of_isSome (by simp [hcount]), hcount]

end Ledger

namespace Draft.Keeps

variable {d : Draft} {l : Ledger}

/-- The placeholders are those of the conditions. -/
theorem placeholders_eq (h : d.Keeps l) :
    d.ast.placeholders = (Condition.params 0 l.conditions).map Param.name := by
  -- Marks hold no placeholders, so that those in place are all.
  have hmark : d.ast.placeholders =
      (d.ast.fragments.filter fun f => !f.isMark).filterMap Fragment.paramName? := by
    rw [List.filterMap_filter, Ast.placeholders]
    congr 1
    funext f
    cases f <;> rfl
  rw [hmark, h.inPlace, Ledger.inPlace, Ledger.clause, ← Condition.filterMap_paramName?_clause]
  cases l.conditions <;> rfl

/-- The other parameters are the reserved ones. -/
theorem names_perm (h : d.Keeps l) :
    (d.params.map Param.name).Perm (d.ast.placeholders ++ d.ast.reservedNames) := by
  have hpage : ∀ pg : Paging, (l.pageParams pg).map Param.name =
      if d.ast.contains pg.fragment then [pg.paramName] else [] := by
    intro pg
    rw [h.paging]
    cases hc : l.count pg <;> simp [Ledger.pageParams, hc]
  refine (h.params_perm.map Param.name).trans ?_
  rw [Ledger.params, List.map_append, List.map_append, hpage, hpage, h.placeholders_eq,
    List.append_assoc]
  exact .refl _

/-- A count is bound to the parameter that is reserved for it. -/
theorem find?_paramName (h : d.Keeps l) (pg : Paging) :
    Param.find? pg.paramName d.params = (l.count pg).map Value.int64 := by
  rw [Param.find?, ← List.head?_filter, h.counts, Ledger.pageParams]
  cases l.count pg <;> rfl

end Draft.Keeps

/-! ## Arguments -/

namespace Value

mutual

/-- Has the value a form in which it travels? A map and a record have
none, however deep in lists they are. -/
def travels : Value → Bool
  | .list items => travelsEach items
  | .map _ | .record _ => false
  | _ => true

/-- Have all of them? -/
def travelsEach : List Value → Bool
  | [] => true
  | v :: vs => v.travels && travelsEach vs

end

mutual

theorem exists_toWire_eq_ok : ∀ v : Value, (∃ w, v.toWire = .ok w) ↔ v.travels = true
  | .list items => by
    rw [travels, ← exists_toWireEach_eq_ok items]
    simp only [toWire, bind_eq_ok]
    constructor
    · rintro ⟨_, ps, hps, -⟩
      exact ⟨ps, hps⟩
    · rintro ⟨ps, hps⟩
      exact ⟨_, ps, hps, rfl⟩
  | .map _ | .record _ => by simp [toWire, travels]
  | .null | .bool _ | .int16 _ | .int32 _ | .int64 _ | .double _ | .decimal _ | .text _
  | .instant _ | .bytes _ | .variant _ | .key _ => by simp [toWire, travels]

theorem exists_toWireEach_eq_ok : ∀ vs : List Value,
    (∃ ps, toWireEach vs = .ok ps) ↔ travelsEach vs = true
  | [] => by simp [toWireEach, travelsEach]
  | v :: vs => by
    rw [travelsEach, Bool.and_eq_true, ← exists_toWire_eq_ok v, ← exists_toWireEach_eq_ok vs]
    simp only [toWireEach, bind_eq_ok]
    constructor
    · rintro ⟨_, w, hw, ps, hps, -⟩
      exact ⟨⟨w, hw⟩, ps, hps⟩
    · rintro ⟨⟨w, hw⟩, ps, hps⟩
      exact ⟨_, w, hw, ps, hps, rfl⟩

end

end Value

namespace Param

theorem exists_bindAll_eq_ok {params : List Param} :
    (∃ args, bindAll params = .ok args) ↔ ∀ x ∈ params, x.value.travels = true := by
  induction params with
  | nil => simp [bindAll]
  | cons x params ih =>
    rw [List.forall_mem_cons, ← ih, ← Value.exists_toWire_eq_ok]
    simp only [bindAll, bind_eq_ok]
    constructor
    · rintro ⟨_, w, hw, ws, hws, -⟩
      exact ⟨⟨w, hw⟩, ws, hws⟩
    · rintro ⟨⟨w, hw⟩, ws, hws⟩
      exact ⟨_, w, hw, ws, hws, rfl⟩

theorem map_fst_of_bindAll {params : List Param} {args : List (String × Wire)}
    (h : bindAll params = .ok args) : args.map Prod.fst = params.map name := by
  induction params generalizing args with
  | nil =>
    cases h
    rfl
  | cons x params ih =>
    simp only [bindAll, bind_eq_ok, Except.ok.injEq] at h
    obtain ⟨w, -, ws, hws, rfl⟩ := h
    rw [List.map_cons, List.map_cons, ih hws]

end Param

namespace Compiled

variable {q : Compiled}

theorem exists_bind_eq_ok : (∃ b, q.bind = .ok b) ↔ ∀ x ∈ q.params, x.value.travels = true := by
  rw [← Param.exists_bindAll_eq_ok]
  simp only [bind, bind_eq_ok]
  constructor
  · rintro ⟨_, args, hargs, -⟩
    exact ⟨args, hargs⟩
  · rintro ⟨args, hargs⟩
    exact ⟨_, args, hargs, rfl⟩

theorem map_fst_of_bind {b : BoundQuery} (h : q.bind = .ok b) :
    b.arguments.map Prod.fst = q.params.map Param.name := by
  simp only [bind, bind_eq_ok, Except.ok.injEq] at h
  obtain ⟨args, hargs, rfl⟩ := h
  exact Param.map_fst_of_bindAll hargs

end Compiled

/-! ## Translations -/

namespace Pipeline

variable {p : Pipeline} {mode : Mode} {log log' : ReadLog} {q : Compiled}

/-- A count is bound exactly when it is that of the first stage that cuts
out rows in its way. -/
theorem find?_paramName_iff (h : (p.translate mode).after log = (.ok q, log')) (pg : Paging)
    (v : Value) :
    Param.find? pg.paramName q.params = some v ↔
      ∃ k, p.FirstCount mode log pg k ∧ v = .int64 k := by
  obtain ⟨plan, d, l, hq⟩ := exists_behind h
  have hl := hq.run
  rw [hq.params, hq.keeps.find?_paramName]
  -- Any splitting at a first cut gives the count of the last ledger.
  have hfirst : ∀ {before st after}, p.stages = before ++ st :: after →
      (∀ st' ∈ before, st'.cuts pg = false) → st.cuts pg = true →
      ∃ d₁ log₁ k, Reading.after (before.foldlM (Draft.stage p.schema mode)
        (.start p.schema plan)) log = (.ok d₁, log₁) ∧ st.Counts pg log₁ k ∧
        l.count pg = some k := by
    intro before st after heq hb hc
    rw [heq] at hl
    obtain ⟨l₁, log₁, k, hbefore, hcounts, hcount⟩ := hl.exists_counts rfl hb hc
    obtain ⟨d₁, hd₁, -⟩ := Draft.keeps_start.exists_foldlM hbefore
    exact ⟨d₁, log₁, k, hd₁, hcounts, hcount⟩
  constructor
  · intro hv
    have hcut : ∃ st ∈ p.stages, st.cuts pg = true := by
      by_contra hnone
      have hcount : l.count pg = none := hl.count_eq fun st hm =>
        Bool.eq_false_iff.2 fun hc => hnone ⟨st, hm, hc⟩
      rw [hcount] at hv
      cases hv
    obtain ⟨before, st, after, heq, hb, hc⟩ := exists_first_cut hcut
    obtain ⟨d₁, log₁, k, hd₁, hcounts, hcount⟩ := hfirst heq hb hc
    rw [hcount] at hv
    exact ⟨k, ⟨before, st, after, plan, d₁, log₁, heq, hb, hq.planned, hd₁, hcounts⟩,
      (Option.some.inj hv).symm⟩
  · rintro ⟨k, ⟨before, st, after, plan', d₁, log₁, heq, hb, hplan', hd₁, hcounts⟩, rfl⟩
    obtain ⟨d₂, log₂, k', hd₂, hcounts', hcount⟩ := hfirst heq hb hcounts.cuts_eq
    cases hq.planned.symm.trans hplan'
    cases hd₁.symm.trans hd₂
    rw [hcount, hcounts.eq hcounts']
    rfl

/-- **Placeholders and parameters fit.** The placeholders are numbered in
order of appearance; the parameters are one for each of them, one for a
limit and one for an offset, under distinct names. They can be sent unless
a map or a record is among their values. -/
theorem placeholders_match_params (h : (p.translate mode).after log = (.ok q, log')) :
    (∃ n, q.ast.placeholders = (List.range' 1 n).map Param.numberedName) ∧
      (q.params.map Param.name).Perm (q.ast.placeholders ++ q.ast.reservedNames) ∧
      (q.params.map Param.name).Nodup ∧
      (∀ x ∈ q.params, Param.find? x.name q.params = some x.value) ∧
      (∀ pg v, Param.find? pg.paramName q.params = some v ↔
        ∃ k, p.FirstCount mode log pg k ∧ v = .int64 k) ∧
      ((∃ b, q.bind = .ok b) ↔ ∀ x ∈ q.params, x.value.travels = true) ∧
      ∀ b, q.bind = .ok b → b.arguments.map Prod.fst = q.params.map Param.name := by
  obtain ⟨plan, d, l, hq⟩ := exists_behind h
  refine ⟨?_, ?_, ?_, ?_, find?_paramName_iff h, Compiled.exists_bind_eq_ok,
    fun b => Compiled.map_fst_of_bind⟩
  · exact ⟨_, by rw [hq.ast, hq.keeps.placeholders_eq, Condition.map_name_params]⟩
  · rw [hq.ast, hq.params]
    exact hq.keeps.names_perm
  · rw [hq.params]
    exact hq.keeps.nodup_names
  · rw [hq.params]
    exact fun x => hq.keeps.find?_name

theorem sample_placeholders_match_params :
    ∃ q log', (sample.translate .strict).after [] = (.ok q, log') ∧
      (q.params.map Param.name).Perm (q.ast.placeholders ++ q.ast.reservedNames) ∧
      (q.params.map Param.name).Nodup := by
  obtain ⟨q, log', h⟩ : ∃ q log', (sample.translate .strict).after [] = (.ok q, log') :=
    ⟨_, _, rfl⟩
  obtain ⟨-, hperm, hnodup, -⟩ := placeholders_match_params h
  exact ⟨q, log', h, hperm, hnodup⟩

end Pipeline

end KindQuery
