import KindQuery.Proofs.Codec.Projected
/-!
# Columns of a plan

A store answers a query with the columns of its plan, and a row that is *cut*
to these columns should be projected as the whole row is. A selector is
projected alike where its parts are (`Expr.project_congr`), and most parts
are: the key is kept, a property is kept under the name of its field, and a
selector that reads the whole row asks for all columns.

A part that is a map is not. Its entries are properties of their own, and the
plan asks for the name of the field, under which nothing is stored. Whether
a row has a name that cannot be taken apart, for one, is not seen in the cut
row, and is an error in the whole one. So the columns of a plan are enough
exactly when no part is a map (`Pipeline.columns_suffice_iff`).
-/

namespace KindQuery

/-! ## Cut rows -/

/-- An entity with the properties of some names only. -/
def Entity.keep (e : Entity) (names : List String) : Entity :=
  { e with properties := e.properties.filter fun p => names.contains p.1 }

/-- A row as the store returns it for the columns of a plan. -/
def Plan.cut (plan : Plan) (row : Entity) : Entity :=
  if plan.selectsAll then row else row.keep plan.columns

theorem Entity.get?_keep {e : Entity} {names : List String} {name : String} (h : name ∈ names) :
    (e.keep names).get? name = e.get? name := by
  have hfind : ∀ bag : PropertyBag,
      Entries.find? name (bag.filter fun p => names.contains p.1) = bag.find? name := by
    intro bag
    induction bag with
    | nil => rfl
    | cons p bag ih =>
      rw [List.filter_cons, Entries.find?]
      by_cases hp : p.1 = name
      · simp [hp, h, Entries.find?]
      · rw [if_neg hp, ← ih]
        split
        · rw [Entries.find?, if_neg hp]
        · rfl
  exact hfind e.properties

/-! ## Parts that agree -/

namespace Expr

variable {catalog : Catalog} {s : Schema} {row row' : Entity}

mutual

/-- **A selector is projected alike where its parts are.** -/
theorem project_congr : ∀ e : Expr,
    (∀ part ∈ e.parts, part.project catalog s row' = part.project catalog s row) →
      e.project catalog s row' = e.project catalog s row
  | .record es, h => by
    rw [project, project, projectAll_congr es h]
  | .row, h | .member _, h | .value _, h | .captured _, h | .negation _, h
  | .comparison _ _ _, h | .conjunction _, h | .disjunction _, h | .call _ _ _, h =>
    h _ List.mem_cons_self

theorem projectAll_congr : ∀ es : List Expr,
    (∀ part ∈ partsOfAll es, part.project catalog s row' = part.project catalog s row) →
      projectAll catalog s row' es = projectAll catalog s row es
  | [], _ => rfl
  | e :: es, h => by
    have he := project_congr e fun part hpart => h part (List.mem_append_left _ hpart)
    have hes := projectAll_congr es fun part hpart => h part (List.mem_append_right _ hpart)
    rw [projectAll, projectAll, he, hes]

end

mutual

/-- What a part reads is among what the selector does. -/
theorem sources_of_mem_parts : ∀ {e : Expr} {sources : List Source}, e.sources s = .ok sources →
    ∀ part ∈ e.parts, ∃ a, part.sources s = .ok a ∧ ∀ x ∈ a, x ∈ sources
  | .record es, _, h => sources_of_mem_partsOfAll h
  | .row, _, h | .member _, _, h | .value _, _, h | .captured _, _, h | .negation _, _, h
  | .comparison _ _ _, _, h | .conjunction _, _, h | .disjunction _, _, h | .call _ _ _, _, h => by
    intro part hpart
    rw [List.mem_singleton.1 hpart]
    exact ⟨_, h, fun _ hx => hx⟩

theorem sources_of_mem_partsOfAll : ∀ {es : List Expr} {sources : List Source},
    sourcesOfAll s es = .ok sources →
    ∀ part ∈ partsOfAll es, ∃ a, part.sources s = .ok a ∧ ∀ x ∈ a, x ∈ sources
  | [], _, _ => nofun
  | e :: es, _, h => by
    obtain ⟨a, ha, h⟩ := bind_eq_ok.1 h
    obtain ⟨b, hb, h⟩ := bind_eq_ok.1 h
    cases h
    intro part hpart
    rcases List.mem_append.1 hpart with hpart | hpart
    · obtain ⟨x, hx, hmem⟩ := sources_of_mem_parts ha part hpart
      exact ⟨x, hx, fun y hy => List.mem_append_left _ (hmem y hy)⟩
    · obtain ⟨x, hx, hmem⟩ := sources_of_mem_partsOfAll hb part hpart
      exact ⟨x, hx, fun y hy => List.mem_append_right _ (hmem y hy)⟩

end

end Expr

/-! ## Columns -/

theorem nodup_distinct (names : List String) : (distinct names).Nodup := by
  induction names with
  | nil => exact List.nodup_nil
  | cons name names ih =>
    rw [distinct, List.nodup_cons]
    exact ⟨by simp, ih.filter _⟩

theorem nodup_requiredColumns (sources : List Source) : (requiredColumns sources).Nodup := by
  unfold requiredColumns
  split
  · exact List.nodup_nil
  · exact nodup_distinct _

/-- If columns are asked for, then those of each part are, and no part is the
whole row. -/
theorem mem_requiredColumns {sources : List Source} (h : requiredColumns sources ≠ []) :
    Source.wholeRow ∉ sources ∧ ∀ name, .column name ∈ sources → name ∈ requiredColumns sources := by
  unfold requiredColumns at h ⊢
  split at h
  next => exact absurd rfl h
  next hrow =>
    rw [if_neg hrow]
    refine ⟨by simpa using hrow, fun name hname => ?_⟩
    exact mem_distinct.2 (List.mem_filterMap.2 ⟨_, hname, rfl⟩)

/-- The member is a map, and not the key. -/
def Schema.IsMapMember (s : Schema) (m : Member) : Prop :=
  ∃ f ∈ s.fields, m.path = [f.name] ∧ s.isKey f.name = false ∧ ∃ item, f.type = .map item

namespace Pipeline

variable {p : Pipeline} {plan : Plan} {catalog : Catalog}

theorem nodup_columns (h : p.plan = .ok plan) : plan.columns.Nodup := by
  obtain ⟨-, sources, -, hcolumns⟩ := plan_eq_ok.1 h
  rw [hcolumns]
  exact nodup_requiredColumns sources

/-- A part of a plan that asks for columns is a constant, or a member of which
the column is asked for. -/
theorem part_cases (hs : (p.schema.fields.map Field.name).Nodup) (h : p.plan = .ok plan)
    (hall : plan.selectsAll = false) {part : Expr} (hpart : part ∈ plan.selector.parts) :
    (∃ v, part = .value v) ∨ (∃ c, part = .captured c) ∨
      ∃ (m : Member) (i : Nat) (f : Field), part = .member m ∧ m.path = [f.name] ∧
        p.schema.fields[i]? = some f ∧ p.schema.field? f.name = some (i, f) ∧
        (p.schema.isKey f.name = false → f.name ∈ plan.columns) := by
  obtain ⟨-, sources, hsources, hcolumns⟩ := plan_eq_ok.1 h
  have hne : requiredColumns sources ≠ [] := by
    rw [← hcolumns]
    simpa [Plan.selectsAll] using hall
  obtain ⟨hrow, hmem⟩ := mem_requiredColumns hne
  obtain ⟨a, ha, hsub⟩ := Expr.sources_of_mem_parts hsources part hpart
  cases (isSelector_of_plan h).of_mem_parts part hpart with
  | row =>
    cases ha
    exact absurd (hsub _ List.mem_cons_self) hrow
  | value => exact .inl ⟨_, rfl⟩
  | captured => exact .inr (.inl ⟨_, rfl⟩)
  | @member m hmember =>
    obtain ⟨i, f, hf, hm⟩ := hmember.exists_place
    refine .inr (.inr ⟨m, i, f, rfl, hm, hf, Schema.field?_of_getElem? hs hf, fun hkey => ?_⟩)
    obtain ⟨column, hcolumn, ha⟩ := bind_eq_ok.1 ha
    cases ha
    obtain ⟨name, hname, -, rfl⟩ := Schema.column_eq_ok.1 hcolumn
    have heq : name = f.name := by
      rw [Member.name?, hm] at hname
      exact (Option.some.inj hname).symm
    rw [heq, hkey, if_neg Bool.false_ne_true] at hsub
    rw [hcolumns]
    exact hmem _ (hsub _ List.mem_cons_self)
  | record => exact absurd rfl (Expr.ne_record_of_mem_parts hpart _)

/-- **A part that is no map is read from the cut row.** -/
theorem project_part_cut (hs : (p.schema.fields.map Field.name).Nodup) (h : p.plan = .ok plan)
    (hall : plan.selectsAll = false) {part : Expr} (hpart : part ∈ plan.selector.parts)
    (hmap : ∀ m, part = .member m → ¬ p.schema.IsMapMember m) (row : Entity) :
    part.project catalog p.schema (row.keep plan.columns) = part.project catalog p.schema row := by
  rcases part_cases hs h hall hpart with ⟨v, rfl⟩ | ⟨c, rfl⟩ | ⟨m, i, f, rfl, hm, hf, hplace, hcolumn⟩
  · rfl
  · rfl
  · have hvalue : p.schema.memberValue catalog (row.keep plan.columns) m =
        p.schema.memberValue catalog row m := by
      cases hkey : p.schema.isKey f.name with
      | true =>
        rw [Schema.memberValue_of_isKey hplace hm hkey, Schema.memberValue_of_isKey hplace hm hkey]
        rfl
      | false =>
        have hnot : ∀ item, f.type ≠ .map item := fun item htype =>
          hmap m rfl ⟨f, List.mem_of_getElem? hf, hm, hkey, item, htype⟩
        rw [Schema.memberValue_of_not_map hplace hm hkey hnot,
          Schema.memberValue_of_not_map hplace hm hkey hnot, Entity.get?_keep (hcolumn hkey)]
    rw [Expr.project, Expr.project, hvalue]

end Pipeline

/-! ## Rows that tell the cut row apart -/

/-- A name that looks flattened and cannot be taken apart. -/
def undivided (n : Nat) : String := String.ofList (flattenStart.toList ++ List.replicate n 'x')

/-- Too few underscores are in it for a divider. -/
theorem splitFlattened?_undivided (n : Nat) : splitFlattened? (undivided n) = none := by
  have hnone : splitFirst? flattenDivider.toList (undivided n).toList = none := by
    rw [Option.eq_none_iff_forall_ne_some]
    rintro ⟨before, after⟩ hsplit
    have hcount := congrArg (List.count '_') (splitFirst?_sound hsplit)
    simp only [undivided, String.toList_ofList, List.count_append, List.count_replicate,
      toList_flattenStart, toList_flattenDivider] at hcount
    simp at hcount
    omega
  rw [splitFlattened?, hnone]

theorem target_undivided (s : Schema) (n : Nat) :
    s.target (undivided n) = Fault.raise (.malformedFlattenedKey (undivided n)) := by
  have hflat : isFlattened (undivided n) = true := by
    simp [isFlattened, undivided, startsWith]
  rw [Schema.target, hflat, splitFlattened?_undivided]
  rfl

theorem length_undivided (n : Nat) : (undivided n).length = 5 + n := by
  rw [undivided, String.length_ofList, List.length_append, List.length_replicate,
    toList_flattenStart]
  rfl

theorem exists_forall_length_le (names : List String) :
    ∃ bound, ∀ name ∈ names, name.length ≤ bound := by
  induction names with
  | nil => exact ⟨0, List.forall_mem_nil _⟩
  | cons name names ih =>
    obtain ⟨bound, hbound⟩ := ih
    refine ⟨max name.length bound, List.forall_mem_cons.2 ⟨Nat.le_max_left _ _, ?_⟩⟩
    exact fun other h => Nat.le_trans (hbound other h) (Nat.le_max_right _ _)

/-- A name of this kind that is not among others, since it is longer. -/
theorem undivided_not_mem {names : List String} {n : Nat} (h : ∀ name ∈ names, name.length ≤ n) :
    undivided n ∉ names := by
  intro hmem
  have hle := h (undivided n) hmem
  rw [length_undivided] at hle
  omega

theorem undivided_inj {n m : Nat} (h : undivided n = undivided m) : n = m := by
  have hlength := congrArg String.length h
  rw [length_undivided, length_undivided] at hlength
  omega

/-- A row with a key and a null in each column, and one property more. -/
def probe (s : Schema) (columns : List String) (name : String) : Entity where
  key := some ⟨s.name, ""⟩
  properties := (name, ⟨.null, true⟩) :: columns.map fun column => (column, ⟨.null, true⟩)

theorem keep_probe {s : Schema} {columns : List String} {name : String} (h : name ∉ columns) :
    (probe s columns name).keep columns =
      ⟨some ⟨s.name, ""⟩, columns.map fun column => (column, ⟨.null, true⟩)⟩ := by
  simp only [probe, Entity.keep, List.filter_cons, List.contains_eq_mem, h, decide_false,
    Bool.false_eq_true, if_false]
  rw [List.filter_eq_self.2]
  simp

theorem nodup_names_probe {s : Schema} {columns : List String} {name : String}
    (hcolumns : columns.Nodup) (h : name ∉ columns) :
    (probe s columns name).properties.names.Nodup := by
  have hnames : (probe s columns name).properties.names = name :: columns := by
    simp [probe, Entries.names, Function.comp_def]
  rw [hnames, List.nodup_cons]
  exact ⟨h, hcolumns⟩

theorem find?_columns {columns : List String} {name : String} (h : name ∈ columns) (q : Property) :
    Entries.find? name (columns.map fun column => (column, q)) = some q := by
  induction columns with
  | nil => cases h
  | cons column columns ih =>
    rw [List.map_cons, Entries.find?]
    split
    next => rfl
    next hne => exact ih (List.mem_of_ne_of_mem (Ne.symm hne) h)

section Probe

variable {p : Pipeline} {plan : Plan} {catalog : Catalog} {s : Schema} {row : Entity} {n : Nat}

mutual

/-- Each part of a selector that gives a value is read. -/
theorem Expr.Forms.exists_reads : ∀ {e : Expr} {v : Value}, e.Forms (Expr.Reads catalog s row) v →
    ∀ part ∈ e.parts, ∃ w, part.Reads catalog s row w
  | .record es, _, h => by
    cases h with
    | part h => cases h
    | record h => exact Expr.FormsEach.exists_reads h
  | .row, _, h | .member _, _, h | .value _, _, h | .captured _, _, h | .negation _, _, h
  | .comparison _ _ _, _, h | .conjunction _, _, h | .disjunction _, _, h | .call _ _ _, _, h => by
    cases h with
    | part h =>
      intro part hpart
      rw [List.mem_singleton.1 hpart]
      exact ⟨_, h⟩

theorem Expr.FormsEach.exists_reads : ∀ {es : List Expr} {vs : List Value},
    Expr.FormsEach (Expr.Reads catalog s row) es vs →
    ∀ part ∈ Expr.partsOfAll es, ∃ w, part.Reads catalog s row w
  | [], _, _ => nofun
  | e :: es, _, h => by
    cases h with
    | cons hv hvs =>
      intro part hpart
      rcases List.mem_append.1 hpart with hpart | hpart
      · exact Expr.Forms.exists_reads hv part hpart
      · exact Expr.FormsEach.exists_reads hvs part hpart

end

theorem decode_probe (columns : List String) :
    s.decode catalog (probe s columns (undivided n)) =
      .error (.of (.malformedFlattenedKey (undivided n))) := by
  rw [Schema.decode, probe, decodeBag, target_undivided]
  rfl

/-- A part that fails on the probe fails with the name in it. -/
theorem eq_of_fails_probe (hs : (p.schema.fields.map Field.name).Nodup) (h : p.plan = .ok plan)
    (hall : plan.selectsAll = false) {part : Expr} (hpart : part ∈ plan.selector.parts)
    {err : Error}
    (hfails : part.Fails catalog p.schema (probe p.schema plan.columns (undivided n)) err) :
    err = .of (.malformedFlattenedKey (undivided n)) := by
  have hsupported := (Pipeline.isSelector_of_plan h).of_mem_parts part hpart
  cases hfails with
  | unsupported hnot => exact absurd hsupported hnot
  | row hd =>
    rw [decode_probe] at hd
    cases hd
    rfl
  | @member m _ hm =>
    rcases Pipeline.part_cases hs h hall hpart with
      ⟨v, hv⟩ | ⟨c, hc⟩ | ⟨m', i, f, hm', hpath, hf, hplace, hcolumn⟩
    · cases hv
    · cases hc
    · cases hm'
      cases hkey : p.schema.isKey f.name with
      | true =>
        rw [Schema.memberValue_of_isKey hplace hpath hkey] at hm
        cases hm
      | false =>
        by_cases hmap : ∃ item, f.type = .map item
        · obtain ⟨item, htype⟩ := hmap
          rw [Schema.memberValue_of_map hplace hpath hkey htype, decode_probe] at hm
          cases hm
          rfl
        · -- Any other field has a null in its column.
          have hnull : (probe p.schema plan.columns (undivided n)).get? f.name =
              some ⟨.null, true⟩ := by
            rw [Entity.get?, probe, Entries.find?, find?_columns (hcolumn hkey), ite_self]
          rw [Schema.memberValue_of_not_map hplace hpath hkey (not_exists.1 hmap), hnull] at hm
          cases (Wire.toColumn_of_toValue rfl).symm.trans hm

/-- **A selector with a map in it fails on the probe** with the name in it. -/
theorem exists_project_probe (catalog : Catalog)
    (hs : (p.schema.fields.map Field.name).Nodup) (h : p.plan = .ok plan)
    (hall : plan.selectsAll = false) {m : Member} (hm : .member m ∈ plan.selector.parts)
    (hmap : p.schema.IsMapMember m) (n : Nat) :
    ∃ log, (plan.selector.project catalog p.schema
      (probe p.schema plan.columns (undivided n))).after [] =
        (.error (.of (.malformedFlattenedKey (undivided n))), log) := by
  rcases Expr.project_cases catalog p.schema (probe p.schema plan.columns (undivided n))
    plan.selector [] with ⟨v, log, -, hforms⟩ | ⟨err, log, herr, part, hpart, hfails⟩
  · -- The map cannot be read.
    obtain ⟨w, hw⟩ := hforms.exists_reads _ hm
    obtain ⟨f, hf, hpath, hkey, item, htype⟩ := hmap
    obtain ⟨i, hi⟩ := List.getElem?_of_mem hf
    cases hw with
    | member hvalue =>
      rw [Schema.memberValue_of_map (Schema.field?_of_getElem? hs hi) hpath hkey htype,
        decode_probe] at hvalue
      cases hvalue
  · rw [eq_of_fails_probe hs h hall hpart hfails] at herr
    exact ⟨log, herr⟩

/-- **A selector that does not show which rows are cut has no map in it.** Two
probes are cut to one row, and a map would give them two errors. -/
theorem not_isMapMember_of_keep (hs : (p.schema.fields.map Field.name).Nodup)
    (h : p.plan = .ok plan) (hall : plan.selectsAll = false)
    (hsame : ∀ row : Entity, row.properties.names.Nodup →
      plan.selector.project catalog p.schema (row.keep plan.columns) =
        plan.selector.project catalog p.schema row)
    {m : Member} (hm : .member m ∈ plan.selector.parts) : ¬ p.schema.IsMapMember m := by
  intro hmap
  obtain ⟨bound, hbound⟩ := exists_forall_length_le plan.columns
  have hprobe : ∀ n, bound ≤ n → plan.selector.project catalog p.schema
      ⟨some ⟨p.schema.name, ""⟩, plan.columns.map fun column => (column, ⟨.null, true⟩)⟩ =
        plan.selector.project catalog p.schema (probe p.schema plan.columns (undivided n)) := by
    intro n hn
    have hfree : undivided n ∉ plan.columns :=
      undivided_not_mem fun name hname => Nat.le_trans (hbound name hname) hn
    rw [← keep_probe hfree]
    exact hsame _ (nodup_names_probe (Pipeline.nodup_columns h) hfree)
  obtain ⟨log₁, h₁⟩ := exists_project_probe catalog hs h hall hm hmap bound
  obtain ⟨log₂, h₂⟩ := exists_project_probe catalog hs h hall hm hmap (bound + 1)
  rw [← hprobe bound le_rfl, hprobe (bound + 1) (Nat.le_succ bound), h₂] at h₁
  have hname : undivided (bound + 1) = undivided bound := by
    simpa [Error.of] using (Prod.mk.inj h₁).1
  have hsucc : bound + 1 = bound := undivided_inj hname
  omega

end Probe

namespace Pipeline

variable {p : Pipeline} {c : Compiled} {log log' : ReadLog}

/-- **For which plans the columns are enough.** A selector gives the same for
the row that the store returns as for the whole row, in values, in errors and
in what is read, exactly if the plan asks for every property or no part of
the selector is a map. -/
theorem columns_suffice_iff (hs : (p.schema.fields.map Field.name).Nodup)
    (h : p.compile.after log = (.ok c, log')) (catalog : Catalog) :
    (∀ row : Entity, row.properties.names.Nodup →
      c.plan.selector.project catalog p.schema (c.plan.cut row) =
        c.plan.selector.project catalog p.schema row) ↔
      c.plan.selectsAll = true ∨
        ∀ m, .member m ∈ c.plan.selector.parts → ¬ p.schema.IsMapMember m := by
  obtain ⟨-, plan, d, text, hplan, -, -, rfl⟩ := translate_eq_ok.1 h
  change (∀ row : Entity, _ → plan.selector.project catalog p.schema (plan.cut row) = _) ↔
    plan.selectsAll = true ∨ ∀ m, .member m ∈ plan.selector.parts → _
  cases hall : plan.selectsAll with
  | true =>
    refine iff_of_true (fun row _ => ?_) (.inl rfl)
    rw [Plan.cut, hall, if_pos rfl]
    rfl
  | false =>
    have hcut : ∀ row, plan.cut row = row.keep plan.columns := by
      intro row
      rw [Plan.cut, hall, if_neg Bool.false_ne_true]
    simp only [hcut, Bool.false_eq_true, false_or]
    constructor
    · exact fun hsame m hm => not_isMapMember_of_keep hs hplan hall hsame hm
    · intro hnot row _
      refine Expr.project_congr _ fun part hpart => ?_
      exact project_part_cut hs hplan hall hpart (fun m hm => hnot m (hm ▸ hpart)) row

end Pipeline

namespace Labelled

/-- A key, a number and counts under names. -/
def schema : Schema where
  name := "Labelled"
  fields := [⟨"Id", .text, .key⟩, ⟨"Age", .int32, .normal⟩, ⟨"Tags", .map .int64, .normal⟩]

/-- A row with a value for each field. -/
def row : Entity where
  key := some ⟨"Labelled", "one"⟩
  properties := [("Age", ⟨.integer 7, true⟩), ("g/kv_Tags_g/k_a", ⟨.integer 1, true⟩)]

/-- The key and the number are read from the two columns that are asked
for. -/
theorem columns_suffice_age :
    (schema.fields.map Field.name).Nodup ∧ row.properties.names.Nodup ∧
    ∃ c, (Pipeline.mk schema [.project (.record [.field "Id", .field "Age"])]).compile.after [] =
        (.ok c, []) ∧
      (c.plan.cut row).properties = [("Age", ⟨.integer 7, true⟩)] ∧
      c.plan.selector.project ⟨[]⟩ schema (c.plan.cut row) =
        c.plan.selector.project ⟨[]⟩ schema row := by
  have hs : (schema.fields.map Field.name).Nodup := by decide
  have hrow : row.properties.names.Nodup := by decide
  obtain ⟨c, hc, hcut, hparts⟩ : ∃ c,
      (Pipeline.mk schema [.project (.record [.field "Id", .field "Age"])]).compile.after [] =
        (.ok c, []) ∧
      (c.plan.cut row).properties = [("Age", ⟨.integer 7, true⟩)] ∧
      c.plan.selector.parts = [.field "Id", .field "Age"] := ⟨_, rfl, rfl, rfl⟩
  have hnot : ∀ m, .member m ∈ c.plan.selector.parts → ¬ schema.IsMapMember m := by
    rw [hparts]
    rintro m hm ⟨f, hf, hpath, hkey, item, htype⟩
    simp only [schema, List.mem_cons, List.not_mem_nil, or_false] at hf
    rcases hf with rfl | rfl | rfl
    · cases htype
    · cases htype
    · simp only [Expr.field, List.mem_cons, Expr.member.injEq, List.not_mem_nil, or_false] at hm
      rcases hm with rfl | rfl <;> exact absurd hpath (by decide)
  exact ⟨hs, hrow, c, hc, hcut, (Pipeline.columns_suffice_iff hs hc ⟨[]⟩).2 (.inr hnot) row hrow⟩

/-- **The map is lost.** The plan asks for a column that nothing is stored
under, and the cut row has an empty map. -/
theorem loses_tags :
    (schema.fields.map Field.name).Nodup ∧ row.properties.names.Nodup ∧
    ∃ c, (Pipeline.mk schema [.project (.field "Tags")]).compile.after [] = (.ok c, []) ∧
      c.plan.columns = ["Tags"] ∧
      (c.plan.selector.project ⟨[]⟩ schema row).after [] = (.ok (.map [("a", .int64 1)]), []) ∧
      (c.plan.selector.project ⟨[]⟩ schema (c.plan.cut row)).after [] = (.ok (.map []), []) :=
  ⟨by decide, by decide, _, rfl, rfl, rfl, rfl⟩

end Labelled

end KindQuery
