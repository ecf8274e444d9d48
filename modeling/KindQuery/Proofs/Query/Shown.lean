import KindQuery.Proofs.Query.Spelled
/-!
# One query, written twice

A query is a sequence of texts and of names of parameters. It is sent with each
name after an `@`, and shown with the value in its place that is bound to just
this name (`Pipeline.shown_as_sent`). That one name begins with another makes no
difference, and what can be sent can be shown.
-/

namespace KindQuery

/-- A part of a query. -/
inductive Segment where
  /-- Text that stands as it is. -/
  | text (s : String)
  /-- The place of the parameter of a name. -/
  | placeholder (name : String)
deriving DecidableEq, Repr

namespace Segment

/-- The name of the parameter whose place it is. -/
def paramName? : Segment → Option String
  | .text _ => none
  | .placeholder name => some name

/-- A segment as it is sent. -/
def named : Segment → String
  | .text s => s
  | .placeholder name => "@" ++ name

/-- What a policy writes for it. -/
def write (p : Placeholder) : Segment → Except Error String
  | .text s => .ok s
  | .placeholder name => p name

/-- **What is shown of a segment.** Where a parameter has its place, this is the
value of the parameter of just this name. -/
inductive Shows (params : List Param) : Segment → String → Prop
  | text (s : String) : Shows params (.text s) s
  | value {x : Param} : x ∈ params →
      Shows params (.placeholder x.name) ("@" ++ x.value.displayText)

end Segment

/-! ## The segments of a query -/

/-- What stands in the place of a fragment. A mark leaves nothing there. -/
def Fragment.segment : Fragment → Segment
  | select => .text "SELECT "
  | projection columns => .text columns
  | source => .text " FROM "
  | kind name => .text name
  | condition => .text " WHERE "
  | and => .text " AND "
  | operator op => .text (" " ++ op.symbol ++ " ")
  | member name => .text name
  | param name => .placeholder name
  | constant text => .text text
  | take | skip | orderBy _ | orderByField _ => .text ""

namespace Ast

variable {a : Ast} {p : Placeholder} {text : String}

/-- The text of the ordering. -/
def orderSegments (a : Ast) : List Segment :=
  match a.direction?, a.orderedField? with
  | some direction, some name => [.text (" ORDER BY " ++ name ++ " " ++ direction.symbol)]
  | _, _ => []

/-- A keyword and the place of its count. -/
def pagingSegments (a : Ast) (pg : Paging) (keyword : String) : List Segment :=
  if a.contains pg.fragment then [.text keyword, .placeholder pg.paramName] else []

/-- **The segments of a query** in the order in which they are written. -/
def segments (a : Ast) : List Segment :=
  a.fragments.map Fragment.segment ++ a.orderSegments ++ a.pagingSegments .take " LIMIT " ++
    a.pagingSegments .skip " OFFSET "

/-- Their names are those of the conditions and of the counts. -/
theorem filterMap_paramName?_segments :
    a.segments.filterMap Segment.paramName? = a.placeholders ++ a.reservedNames := by
  have fragments : (a.fragments.map Fragment.segment).filterMap Segment.paramName? =
      a.placeholders := by
    rw [List.filterMap_map, placeholders]
    congr 1
    funext f
    cases f <;> rfl
  have order : a.orderSegments.filterMap Segment.paramName? = [] := by
    unfold orderSegments
    split <;> rfl
  have paging : ∀ pg keyword, (a.pagingSegments pg keyword).filterMap Segment.paramName? =
      if a.contains pg.fragment then [pg.paramName] else [] := by
    intro pg keyword
    unfold pagingSegments
    split <;> rfl
  rw [segments, List.filterMap_append, List.filterMap_append, List.filterMap_append, fragments,
    order, paging, paging, List.append_nil, List.append_assoc]
  rfl

end Ast

/-! ## Policies -/

/-- A list is worked through just if each of its members is. -/
theorem mapM_eq_ok_iff {α β : Type} {f : α → Except Error β} {xs : List α} {ys : List β} :
    xs.mapM f = .ok ys ↔ List.Forall₂ (fun x y => f x = .ok y) xs ys := by
  induction xs generalizing ys with
  | nil =>
    rw [List.forall₂_nil_left_iff, List.mapM_nil]
    exact ⟨fun h => (Except.ok.inj h).symm, fun h => congrArg _ h.symm⟩
  | cons x xs ih =>
    rw [List.forall₂_cons_left_iff, List.mapM_cons, bind_eq_ok]
    constructor
    · rintro ⟨y, hy, h⟩
      obtain ⟨ys', hys, h⟩ := bind_eq_ok.1 h
      exact ⟨y, ys', hy, ih.1 hys, (Except.ok.inj h).symm⟩
    · rintro ⟨y, ys', hy, hys, rfl⟩
      exact ⟨y, hy, bind_eq_ok.2 ⟨ys', ih.2 hys, rfl⟩⟩

/-- A fragment that can be written by names is written as its segment under any
other policy. -/
theorem Fragment.inPlace_eq {f : Fragment} {t : String} (h : f.inPlace .named = .ok t)
    (p : Placeholder) : f.inPlace p = f.segment.write p := by
  cases f with
  | param name =>
    obtain ⟨_, hname, -⟩ := bind_eq_ok.1 h
    obtain ⟨some, rfl⟩ := requireText_eq_ok.1 hname
    rw [inPlace, Placeholder.write, requireText_of_ne_empty some]
    rfl
  | orderByField name =>
    obtain ⟨_, hname, -⟩ := bind_eq_ok.1 h
    rw [inPlace, requireText_of_ne_empty (requireText_eq_ok.1 hname).1]
    rfl
  | projection text | kind text | member text | constant text =>
    exact requireText_of_ne_empty (requireText_eq_ok.1 h).1
  | _ => rfl

namespace Ast

variable {a : Ast} {text : String}

theorem mapM_inPlace_eq {fs : List Fragment} {pieces : List String}
    (h : fs.mapM (Fragment.inPlace .named) = .ok pieces) (p : Placeholder) :
    fs.mapM (Fragment.inPlace p) = (fs.map Fragment.segment).mapM (Segment.write p) := by
  rw [List.mapM_map]
  have each := mapM_eq_ok_iff.1 h
  induction each with
  | nil => rfl
  | cons hf hfs ih =>
    rw [List.mapM_cons, List.mapM_cons, ih (mapM_eq_ok_iff.2 hfs), Fragment.inPlace_eq hf p]
    rfl

theorem pagingClause_eq (a : Ast) (p : Placeholder) (pg : Paging) (keyword : String) :
    a.pagingClause p pg.fragment keyword pg.paramName =
      (a.pagingSegments pg keyword).mapM (Segment.write p) >>= fun parts =>
        .ok (String.join parts) := by
  have some : pg.paramName ≠ "" := by cases pg <;> decide
  unfold pagingClause pagingSegments
  split
  · rw [Placeholder.write, requireText_of_ne_empty some]
    simp only [List.mapM_cons, List.mapM_nil, Segment.write, bind_assoc, pure_bind,
      String.join_cons, String.join_nil, String.append_empty]
    rfl
  · rfl

/-- **One sequence under all policies.** A query that can be written by names is
its segments, as a policy writes them. -/
theorem render_eq (h : a.render .named = .ok text) (p : Placeholder) :
    a.render p = a.segments.mapM (Segment.write p) >>= fun parts =>
      .ok (trim (String.join parts)) := by
  simp only [render, bind_eq_ok] at h
  obtain ⟨pieces, hpieces, order, horder, -⟩ := h
  have hclause : a.orderClause = a.orderSegments.mapM (Segment.write p) >>= fun parts =>
      .ok (String.join parts) := by
    unfold orderClause at horder ⊢
    unfold orderSegments
    generalize a.direction? = direction, a.orderedField? = name at horder ⊢
    match direction, name, horder with
    | some _, some _, _ | none, none, _ => rfl
    | some _, none, horder | none, some _, horder => cases horder
  have take := a.pagingClause_eq p .take " LIMIT "
  have skip := a.pagingClause_eq p .skip " OFFSET "
  simp only [Paging.fragment, Paging.paramName] at take skip
  rw [render, mapM_inPlace_eq hpieces p, hclause, take, skip]
  simp only [segments, List.mapM_append, bind_assoc, pure_bind, String.join_append]
  rfl

end Ast

/-! ## What is sent and what is shown -/

namespace Segment

variable {params : List Param} {segments : List Segment} {parts : List String}

theorem mapM_write_named : segments.mapM (write .named) = .ok (segments.map named) := by
  rw [mapM_eq_ok_iff, List.forall₂_map_right_iff, List.forall₂_same]
  rintro (s | name) - <;> rfl

/-- A policy of values writes what is shown. -/
theorem write_inline_eq_ok (distinct : (params.map Param.name).Nodup) {segment : Segment}
    {part : String} :
    segment.write (.inline params) = .ok part ↔ segment.Shows params part := by
  constructor
  · intro h
    cases segment with
    | text s =>
      obtain rfl := Except.ok.inj h
      exact .text s
    | placeholder name =>
      simp only [write, Placeholder.inline] at h
      split at h
      next v found =>
        cases h
        exact .value (x := ⟨name, v⟩) ((Param.find?_eq_some_iff distinct).1 found)
      next => cases h
  · intro h
    cases h with
    | text s => rfl
    | value bound => simp only [write, Placeholder.inline, Param.find?_of_mem distinct bound]

theorem exists_shows (segment : Segment)
    (bound : ∀ name ∈ segment.paramName?, name ∈ params.map Param.name) :
    ∃ part, segment.Shows params part := by
  cases segment with
  | text s => exact ⟨s, .text s⟩
  | placeholder name =>
    obtain ⟨x, hx, rfl⟩ := List.mem_map.1 (bound name rfl)
    exact ⟨_, .value hx⟩

end Segment

namespace Pipeline

variable {p : Pipeline} {mode : Mode} {log log' : ReadLog} {q : Compiled}

/-- **A query is shown as it is sent**, but for the places of its parameters. It
is one sequence of segments, whose names are those of the parameters, each once.
The text that is sent has the names in their places. A text that is shown there
always is, and it has the values in their places that are bound to the names. -/
theorem shown_as_sent (h : (p.translate mode).after log = (.ok q, log')) :
    (q.params.map Param.name).Nodup ∧
      (q.params.map Param.name).Perm (q.ast.segments.filterMap Segment.paramName?) ∧
      q.text = trim (String.join (q.ast.segments.map Segment.named)) ∧
      ∃ shown, List.Forall₂ (Segment.Shows q.params) q.ast.segments shown ∧
        q.displayText = .ok (trim (String.join shown)) := by
  obtain ⟨plan, d, l, behind⟩ := exists_behind h
  obtain ⟨text, written, hq⟩ := behind.exists_text h
  have distinct : (q.params.map Param.name).Nodup := by
    rw [behind.params]
    exact behind.keeps.nodup_names
  have names : (q.params.map Param.name).Perm
      (q.ast.segments.filterMap Segment.paramName?) := by
    rw [Ast.filterMap_paramName?_segments, behind.ast, behind.params]
    exact behind.keeps.names_perm
  rw [← behind.ast] at written
  have sent : q.text = trim (String.join (q.ast.segments.map Segment.named)) := by
    have rendered := Ast.render_eq written .named
    rw [written, Segment.mapM_write_named] at rendered
    have texts : q.text = text := congrArg Compiled.text hq
    rw [texts]
    exact Except.ok.inj rendered
  have shows : ∀ segment ∈ q.ast.segments, ∃ part,
      segment.write (.inline q.params) = .ok part := by
    intro segment hsegment
    obtain ⟨part, hpart⟩ := segment.exists_shows fun name hname =>
      names.mem_iff.2 (List.mem_filterMap.2 ⟨segment, hsegment, hname⟩)
    exact ⟨part, (Segment.write_inline_eq_ok distinct).2 hpart⟩
  obtain ⟨shown, hshown⟩ := exists_mapM_eq_ok shows
  refine ⟨distinct, names, sent, shown, ?_, ?_⟩
  · exact (mapM_eq_ok_iff.1 hshown).imp fun _ _ => (Segment.write_inline_eq_ok distinct).1
  · rw [Compiled.displayText, Ast.render_eq written, hshown]
    rfl

/-- The first three notes with ten tags. The name of the first parameter begins
that of the last one. -/
def tagged : Pipeline where
  schema := ⟨"Note", [⟨"Id", .text, .key⟩, ⟨"Tags", .text, .normal⟩]⟩
  stages :=
    (["a", "b", "c", "d", "e", "f", "g", "h", "i", "j"].map fun tag =>
      .filter (.comparison (.field "Tags") .eq (.value (.text tag)))) ++ [.take (.value (.int32 3))]

theorem tagged_shown_as_sent :
    ∃ q log shown, (tagged.translate .strict).after [] = (.ok q, log) ∧
      List.Forall₂ (Segment.Shows q.params) q.ast.segments shown ∧
      q.displayText = .ok (trim (String.join shown)) ∧
      .placeholder "p1" ∈ q.ast.segments ∧ .placeholder "p10" ∈ q.ast.segments ∧
      ∀ part, (Segment.placeholder "p10").Shows q.params part ↔ part = "@j" := by
  have evaluated : (match ((tagged.translate .strict).after []).1 with
      | .ok q => decide (.placeholder "p1" ∈ q.ast.segments ∧ .placeholder "p10" ∈ q.ast.segments ∧
          (Segment.placeholder "p10").write (.inline q.params) = .ok "@j")
      | .error _ => false) = true := by
    decide +kernel
  generalize h : (tagged.translate .strict).after [] = result at evaluated
  obtain ⟨error | q, log⟩ := result
  · cases evaluated
  · obtain ⟨first, last, value⟩ := of_decide_eq_true evaluated
    obtain ⟨distinct, -, -, shown, hshown, text⟩ := shown_as_sent h
    refine ⟨q, log, shown, rfl, hshown, text, first, last, fun part => ?_⟩
    rw [← Segment.write_inline_eq_ok distinct, value, Except.ok.injEq, eq_comm]

end Pipeline

end KindQuery
