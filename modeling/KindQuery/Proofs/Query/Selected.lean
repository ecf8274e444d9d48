import KindQuery.Proofs.Codec.Columns
import KindQuery.Proofs.Query.Spelled
/-!
# What a selector selects

A plan is made for a selector when each of its parts can be selected, at
whatever depth, and whether or not another part needs the whole row. Its
columns are those that the parts are read from, each of them once and in the
order in which they first occur (`Schema.plan_selects`). There are none if a
part is the row itself, or if no part is a member; the query then has a `*`
in their place.

A list of parts and the list of sources that a plan is made of say the same
(`Expr.sources_eq`), so that nothing has to be said of records in records
after that.
-/

namespace KindQuery

/-! ## First occurrences -/

/-- **The elements of a list, each of them once**, in the order in which they
first occur. -/
structure FirstOccurrences (xs ys : List String) : Prop where
  nodup : ys.Nodup
  mem_iff : ∀ x, x ∈ ys ↔ x ∈ xs
  ordered : ys.Pairwise fun x y => xs.idxOf x < xs.idxOf y

theorem firstOccurrences_distinct (names : List String) :
    FirstOccurrences names (distinct names) where
  nodup := nodup_distinct names
  mem_iff _ := mem_distinct
  ordered := by
    induction names with
    | nil => exact .nil
    | cons name names ih =>
      have later : ∀ x ∈ (distinct names).filter (· != name),
          (name :: names).idxOf x = names.idxOf x + 1 := by
        intro x hx
        have other : x ≠ name := by simpa using (List.mem_filter.1 hx).2
        exact List.idxOf_cons_ne names other.symm
      rw [distinct, List.pairwise_cons]
      constructor
      · intro x hx
        rw [later x hx, List.idxOf_cons_self]
        exact Nat.succ_pos _
      · refine (ih.filter _).imp_of_mem fun {x y} hx hy before => ?_
        rw [later x hx, later y hy]
        exact Nat.succ_lt_succ before

/-! ## Parts of a selector -/

/-- **What can be selected from a row**: the row, a literal, a captured value or
a single field. -/
def Schema.CanSelect (s : Schema) : Expr → Prop
  | .row | .value _ | .captured _ => True
  | .member m => s.HasMember m
  | _ => False

/-- What a part is read from, if it is read from the row at all. -/
def Schema.source? (s : Schema) : Expr → Option Source
  | .row => some .wholeRow
  | .member m => some (.column (s.columnOf m))
  | _ => none

namespace Expr

variable {s : Schema}

mutual

/-- A selector is supported when each part can be selected. -/
theorem isSelector_iff_parts : ∀ e : Expr, e.IsSelector s ↔ ∀ part ∈ e.parts, s.CanSelect part
  | .record es => by
    refine Iff.trans ⟨fun h => ?_, .record⟩ (isSelector_iff_partsOfAll es)
    cases h with
    | record h => exact h
  | .row => iff_of_true .row (List.forall_mem_singleton.2 trivial)
  | .value _ => iff_of_true .value (List.forall_mem_singleton.2 trivial)
  | .captured _ => iff_of_true .captured (List.forall_mem_singleton.2 trivial)
  | .member m => by
    refine Iff.trans ⟨fun h => ?_, .member⟩
      (List.forall_mem_singleton (p := s.CanSelect) (a := .member m)).symm
    cases h with
    | member h => exact h
  | .negation _ | .comparison _ _ _ | .conjunction _ | .disjunction _ | .call _ _ _ =>
    iff_of_false nofun fun h => h _ (List.mem_singleton_self _)

theorem isSelector_iff_partsOfAll : ∀ es : List Expr,
    (∀ e ∈ es, e.IsSelector s) ↔ ∀ part ∈ partsOfAll es, s.CanSelect part
  | [] => by simp [partsOfAll]
  | e :: es => by
    rw [List.forall_mem_cons, partsOfAll, List.forall_mem_append, isSelector_iff_parts e,
      isSelector_iff_partsOfAll es]

end

mutual

/-- **What a selector reads is what its parts are read from**, from left to
right. -/
theorem sources_eq : ∀ (e : Expr) {sources : List Source}, e.sources s = .ok sources →
    sources = e.parts.filterMap s.source?
  | .record es, _, h => sourcesOfAll_eq es h
  | .row, _, h | .value _, _, h | .captured _, _, h => by
    cases h
    rfl
  | .member m, _, h => by
    obtain ⟨column, hcolumn, h⟩ := bind_eq_ok.1 h
    cases h
    rw [← Schema.columnOf_eq hcolumn]
    rfl
  | .negation _, _, h | .comparison _ _ _, _, h | .conjunction _, _, h | .disjunction _, _, h
  | .call _ _ _, _, h => by simp [sources] at h

theorem sourcesOfAll_eq : ∀ (es : List Expr) {sources : List Source},
    sourcesOfAll s es = .ok sources → sources = (partsOfAll es).filterMap s.source?
  | [], _, h => by
    cases h
    rfl
  | e :: es, _, h => by
    obtain ⟨a, ha, h⟩ := bind_eq_ok.1 h
    obtain ⟨b, hb, h⟩ := bind_eq_ok.1 h
    cases h
    rw [partsOfAll, List.filterMap_append, ← sources_eq e ha, ← sourcesOfAll_eq es hb]

end

theorem wholeRow_mem_filterMap_source? {es : List Expr} :
    Source.wholeRow ∈ es.filterMap s.source? ↔ .row ∈ es := by
  rw [List.mem_filterMap]
  constructor
  · rintro ⟨e, he, hsource⟩
    cases e <;> first | exact he | cases hsource
  · exact fun h => ⟨.row, h, rfl⟩

/-- The columns among the sources are those of the members. -/
theorem filterMap_column?_source? (es : List Expr) :
    (es.filterMap s.source?).filterMap Source.column? = es.filterMap (operandColumn? s) := by
  rw [List.filterMap_filterMap]
  refine List.filterMap_congr fun e _ => ?_
  cases e <;> rfl

theorem filterMap_operandColumn?_eq_nil_iff {es : List Expr} :
    es.filterMap (operandColumn? s) = [] ↔ ∀ m, .member m ∉ es := by
  rw [List.filterMap_eq_nil_iff]
  constructor
  · exact fun h m hm => Option.some_ne_none _ (h _ hm)
  · intro h e he
    cases e with
    | member m => exact absurd he (h m)
    | _ => rfl

end Expr

/-! ## Plans -/

/-- **A plan that selects what a selector does.** -/
structure Plan.Selects (plan : Plan) (s : Schema) (e : Expr) : Prop where
  selector_eq : plan.selector = e
  /-- All properties are selected for a part that is the row, or if nothing is
  read. -/
  columns_eq_nil_iff : plan.columns = [] ↔ .row ∈ e.parts ∨ ∀ m, .member m ∉ e.parts
  /-- Otherwise the columns of the members are. -/
  columns : .row ∉ e.parts →
    FirstOccurrences (e.parts.filterMap (Expr.operandColumn? s)) plan.columns

variable {s : Schema} {e : Expr} {plan : Plan}

theorem Schema.exists_plan_iff :
    (∃ plan, s.plan e = .ok plan) ↔ ∀ part ∈ e.parts, s.CanSelect part := by
  rw [← Expr.isSelector_iff_parts, ← Expr.exists_sources_iff]
  constructor
  · rintro ⟨plan, h⟩
    obtain ⟨sources, hsources, -⟩ := bind_eq_ok.1 h
    exact ⟨sources, hsources⟩
  · rintro ⟨sources, hsources⟩
    exact ⟨_, bind_eq_ok.2 ⟨sources, hsources, rfl⟩⟩

theorem Schema.selects_of_plan (h : s.plan e = .ok plan) : plan.Selects s e := by
  obtain ⟨sources, hsources, h⟩ := bind_eq_ok.1 h
  cases h
  have hrow : sources.contains .wholeRow = true ↔ .row ∈ e.parts := by
    rw [List.contains_iff_mem, Expr.sources_eq e hsources, Expr.wholeRow_mem_filterMap_source?]
  have hcolumns : sources.filterMap Source.column? = e.parts.filterMap (Expr.operandColumn? s) := by
    rw [Expr.sources_eq e hsources, Expr.filterMap_column?_source?]
  have hfirst := firstOccurrences_distinct (e.parts.filterMap (Expr.operandColumn? s))
  by_cases row : .row ∈ e.parts
  · have hnil : requiredColumns sources = [] := by rw [requiredColumns, if_pos (hrow.2 row)]
    exact ⟨rfl, iff_of_true hnil (.inl row), fun h => absurd row h⟩
  · have hdistinct : requiredColumns sources =
        distinct (e.parts.filterMap (Expr.operandColumn? s)) := by
      rw [requiredColumns, if_neg fun h => row (hrow.1 h), hcolumns]
    have hnil : distinct (e.parts.filterMap (Expr.operandColumn? s)) = [] ↔
        e.parts.filterMap (Expr.operandColumn? s) = [] := by
      simp only [List.eq_nil_iff_forall_not_mem, hfirst.mem_iff]
    refine ⟨rfl, ?_, fun _ => hdistinct ▸ hfirst⟩
    change requiredColumns sources = [] ↔ _
    rw [hdistinct, hnil, Expr.filterMap_operandColumn?_eq_nil_iff]
    exact (or_iff_right row).symm

/-! ## Texts -/

/-- The names of columns with commas between them are no text only if there is
one column, and it has no name. -/
theorem Plan.columnText_eq_empty_iff : plan.columnText = "" ↔ plan.columns = [""] := by
  unfold columnText selectsAll
  match plan.columns with
  | [] => decide
  | [column] => simp
  | column :: next :: rest => simp [String.intercalate_cons_cons]

/-- **The text selects columns from a kind.** Blanks at the end are dropped, and
nothing before them. -/
def Compiled.SelectsFrom (q : Compiled) (columns kind : String) : Prop :=
  ∃ clauses, q.text = trim ("SELECT " ++ columns ++ " FROM " ++ kind ++ clauses)

namespace Pipeline

variable {p : Pipeline} {mode : Mode} {log log' : ReadLog} {q : Compiled}

/-- A translated query has its selector's columns in its text. -/
theorem selectsFrom_of_translate (h : (p.translate mode).after log = (.ok q, log')) :
    q.SelectsFrom q.plan.columnText p.schema.name := by
  obtain ⟨plan, d, l, behind⟩ := exists_behind h
  obtain ⟨text, render, rfl⟩ := behind.exists_text h
  have columns : l.columns = plan.columnText := behind.run.columns_eq.1
  have kind : l.kind = p.schema.name := behind.run.columns_eq.2
  have written := behind.keeps.toList_render render
  rw [columns, kind] at written
  have start : ∀ rest, trimChars ("SELECT ".toList ++ rest) = trimEnd ("SELECT ".toList ++ rest) :=
    fun _ => rfl
  refine ⟨String.ofList (spaced l.words), String.toList_inj.1 ?_⟩
  -- The first letter is no blank, and neither is the last one of `FROM`.
  have spelled : ("SELECT " ++ plan.columnText ++ " FROM " ++ p.schema.name ++
      String.ofList (spaced l.words)).toList = ("SELECT ".toList ++ plan.columnText.toList ++
        " FRO".toList) ++ 'M' :: (' ' :: p.schema.name.toList ++ spaced l.words) := by
    simp
  change text.toList = (trim ("SELECT " ++ plan.columnText ++ " FROM " ++ p.schema.name ++
    String.ofList (spaced l.words))).toList
  rw [trim, String.toList_ofList, spelled, List.append_assoc, List.append_assoc, start,
    ← List.append_assoc, ← List.append_assoc, trimEnd_append (by decide)]
  refine written.trans ?_
  simp

/-- **A query of its own** is what the selector makes, unless there is nothing to
write for the kind or the columns. -/
theorem exists_translate_project_iff (planned : s.plan e = .ok plan) :
    (∃ q log', (translate mode ⟨s, [.project e]⟩).after log = (.ok q, log')) ↔
      s.name ≠ "" ∧ plan.columns ≠ [""] := by
  rw [ne_eq, ne_eq, ← Plan.columnText_eq_empty_iff]
  constructor
  · rintro ⟨q, log', h⟩
    obtain ⟨-, plan', d, text, planned', walked, render, -⟩ := translate_eq_ok.1 h
    cases planned.symm.trans planned'
    cases walked
    rw [Draft.keeps_start.finalAst_eq] at render
    obtain ⟨pieces, written, -⟩ := bind_eq_ok.1 render
    obtain ⟨_, _, -, rest, -⟩ := Fragment.pieces_cons_iff.1 ⟨pieces, written, rfl⟩
    obtain ⟨_, _, columns, rest, -⟩ := Fragment.pieces_cons_iff.1 rest
    obtain ⟨_, _, -, rest, -⟩ := Fragment.pieces_cons_iff.1 rest
    obtain ⟨_, _, kind, -, -⟩ := Fragment.pieces_cons_iff.1 rest
    exact ⟨(requireText_eq_ok.1 kind).1, (requireText_eq_ok.1 columns).1⟩
  · rintro ⟨kind, columns⟩
    have writable : (Ledger.start s plan).Writable := ⟨Ledger.refers_start, columns, kind⟩
    obtain ⟨text, render⟩ := Draft.keeps_start.exists_render writable
    refine ⟨_, log, translate_eq_ok.2 ⟨rfl, plan, .start s plan, text, planned, rfl, ?_, rfl⟩⟩
    rw [Draft.keeps_start.finalAst_eq]
    exact render

/-- With one projection, the plan of the pipeline is that of its selector. -/
theorem plan_of_mem (one : (p.stages.filterMap Stage.selector?).length ≤ 1)
    (h : .project e ∈ p.stages) : p.plan = p.schema.plan e := by
  have mem : e ∈ p.stages.filterMap Stage.selector? := List.mem_filterMap.2 ⟨_, h, rfl⟩
  unfold Pipeline.plan
  rw [← List.head?_filterMap]
  match hs : p.stages.filterMap Stage.selector?, one with
  | [], _ => simp [hs] at mem
  | [e'], _ =>
    rw [hs] at mem
    rw [List.mem_singleton.1 mem]
    rfl

/-- The plan of a translated query is the one it was drafted with. -/
theorem planned_of_translate (h : (p.translate mode).after log = (.ok q, log')) :
    p.plan = .ok q.plan := by
  obtain ⟨-, plan, d, text, planned, -, -, rfl⟩ := translate_eq_ok.1 h
  exact planned

end Pipeline

/-- **A selector is planned as what its parts are read from.** It has a plan when
each part can be selected. The plan keeps the selector, and has the columns of
its members, each once where it first occurs, or none if all properties are
selected. So has every query with the selector: in its text there are the
columns with commas between them, or a `*`. -/
theorem Schema.plan_selects (s : Schema) (e : Expr) :
    ((∃ plan, s.plan e = .ok plan) ↔ ∀ part ∈ e.parts, s.CanSelect part) ∧
    ∀ plan, s.plan e = .ok plan → plan.Selects s e ∧
      (∀ mode log,
        (∃ q log', (Pipeline.translate mode ⟨s, [.project e]⟩).after log = (.ok q, log')) ↔
          s.name ≠ "" ∧ plan.columns ≠ [""]) ∧
      ∀ (p : Pipeline) mode log q log', p.schema = s → .project e ∈ p.stages →
        (p.translate mode).after log = (.ok q, log') →
        q.plan = plan ∧ q.SelectsFrom
          (if plan.columns = [] then "*" else String.intercalate ", " plan.columns) s.name := by
  refine ⟨exists_plan_iff, fun plan planned => ⟨selects_of_plan planned, fun mode log =>
    Pipeline.exists_translate_project_iff planned, ?_⟩⟩
  rintro p mode log q log' rfl projects h
  obtain ⟨_, _, _, behind⟩ := Pipeline.exists_behind h
  have same := (Pipeline.planned_of_translate h).symm.trans
    (Pipeline.plan_of_mem behind.oneSelector projects)
  obtain rfl : q.plan = plan := Except.ok.inj (same.trans planned)
  refine ⟨rfl, ?_⟩
  have text := Pipeline.selectsFrom_of_translate h
  unfold Plan.columnText Plan.selectsAll at text
  simpa only [List.isEmpty_iff] using text

namespace Pipeline

/-- An age, the key and a flag in a record, a number, and the age again. -/
def agesWithin : Expr :=
  .record [.field "Age", .record [.field "Id", .field "Adult"], .value (.int32 7), .field "Age"]

/-- All persons but the first one. -/
def agesBehindFirst : Pipeline where
  schema := sample.schema
  stages := [.skip (.value (.int32 1)), .project agesWithin]

/-- The columns of records in records come in the order of their first
occurrences. One row makes all columns of a selector needless, and does not make
up for a field that is not there. -/
theorem plan_selects_agesWithin :
    (∃ plan, sample.schema.plan agesWithin = .ok plan ∧ plan.Selects sample.schema agesWithin ∧
      plan.columns = ["Age", "__key__", "Adult"]) ∧
    (∃ q, agesBehindFirst.compile.after [] = (.ok q, []) ∧
      q.SelectsFrom "Age, __key__, Adult" "Person") ∧
    (∃ plan, sample.schema.plan (.record [agesWithin, .row]) = .ok plan ∧ plan.columns = []) ∧
    ¬ ∃ plan, sample.schema.plan (.record [.row, .field "Name"]) = .ok plan := by
  obtain ⟨plan, planned, columns⟩ : ∃ plan, sample.schema.plan agesWithin = .ok plan ∧
      plan.columns = ["Age", "__key__", "Adult"] := ⟨_, rfl, rfl⟩
  obtain ⟨q, compiled⟩ : ∃ q, agesBehindFirst.compile.after [] = (.ok q, []) := ⟨_, rfl⟩
  obtain ⟨-, selected⟩ := sample.schema.plan_selects agesWithin
  obtain ⟨selects, -, text⟩ := selected plan planned
  obtain ⟨all, planned', columns'⟩ : ∃ plan,
      sample.schema.plan (.record [agesWithin, .row]) = .ok plan ∧ plan.columns = [] :=
    ⟨_, rfl, rfl⟩
  refine ⟨⟨plan, planned, selects, columns⟩, ⟨q, compiled, ?_⟩, ⟨all, planned', columns'⟩, ?_⟩
  · have listed := (text agesBehindFirst .strict [] q [] rfl (by simp [agesBehindFirst]) compiled).2
    rw [columns, if_neg (List.cons_ne_nil _ _)] at listed
    exact listed
  · rw [(sample.schema.plan_selects (.record [.row, .field "Name"])).1]
    intro all
    obtain ⟨f, hf, path⟩ := all (.field "Name") (by simp [Expr.parts, Expr.partsOfAll, Expr.field])
    simp [sample] at hf
    rcases hf with rfl | rfl | rfl <;> simp at path

end Pipeline

end KindQuery
