import KindQuery.Proofs.Index.Needed
import KindQuery.Proofs.Query.Grammar
import KindQuery.Proofs.Query.Matched
/-!
# The key is no property

Which field is the key is asked for in four places: where queries are
translated, where records are encoded, where entities are decoded and where
rows are projected. All four give one answer. The key is the key column of a
query and the key of an entity, and never a property (`Schema.KeyApart`). A
field that only has the name of a key is a property as any other
(`Schema.Ordinary`).
-/

namespace KindQuery

/-! ## Columns of a query -/

theorem Ledger.Run.readsFrom_of_order {s : Schema} {mode : Mode} {l l' : Ledger}
    {log log' : ReadLog} {stages : List Stage} (h : Run s mode l log stages l' log') :
    ∀ o ∈ l'.order, o ∈ l.order ∨ ∃ key, .orderBy key o.1 ∈ stages ∧ key.ReadsFrom s o.2 := by
  induction h with
  | nil => exact fun o ho => .inl ho
  | cons step _ ih =>
    intro o ho
    rcases ih o ho with ho | ⟨key, hmem, hreads⟩
    · cases step with
      | @orderBy m _ _ _ hc =>
        cases ho
        exact .inr ⟨.member m, List.mem_cons_self, m, List.mem_singleton_self m, hc⟩
      | _ => exact .inl ho
    · exact .inr ⟨key, List.mem_cons_of_mem _ hmem, hreads⟩

/-- **Where the columns of a query come from**: from members of the predicates,
the orderings and the projections of its stages. -/
structure Pipeline.Resolved (p : Pipeline) (q : Compiled) : Prop where
  conditions : ∀ column, .member column ∈ q.ast.fragments →
    ∃ st ∈ p.stages, ∃ e ∈ st.predicate?, e.ReadsFrom p.schema column
  ordering : ∀ column, .orderByField column ∈ q.ast.fragments →
    ∃ key dir, .orderBy key dir ∈ p.stages ∧ key.ReadsFrom p.schema column
  projection : ∀ column ∈ q.plan.columns,
    ∃ e, .project e ∈ p.stages ∧ e.ReadsFrom p.schema column

namespace Pipeline

variable {p : Pipeline} {mode : Mode} {log log' : ReadLog} {q : Compiled}

/-- Every column of a query is one that a member is read from. -/
theorem Resolved.exists_member (h : p.Resolved q) {column : String} (hc : column ∈ q.columns) :
    ∃ m, p.schema.column m = .ok column := by
  rcases List.mem_append.1 hc with hc | hc
  · obtain ⟨f, hf, hname⟩ := List.mem_filterMap.1 hc
    cases f with
    | member name =>
      cases hname
      obtain ⟨-, -, e, -, m, -, hm⟩ := h.conditions _ hf
      exact ⟨m, hm⟩
    | orderByField name =>
      cases hname
      obtain ⟨key, -, -, m, -, hm⟩ := h.ordering _ hf
      exact ⟨m, hm⟩
    | _ => cases hname
  · obtain ⟨e, -, m, -, hm⟩ := h.projection column hc
    exact ⟨m, hm⟩

/-- The selector of a plan with columns is that of a projection. -/
theorem project_mem_of_mem_columns {plan : Plan} (h : p.plan = .ok plan) {column : String}
    (hc : column ∈ plan.columns) : .project plan.selector ∈ p.stages := by
  obtain ⟨hselector, sources, hsources, hcolumns⟩ := plan_eq_ok.1 h
  cases hfind : p.stages.findSome? Stage.selector? with
  | none =>
    rw [hfind] at hselector
    rw [hselector] at hsources
    cases hsources
    rw [hcolumns] at hc
    cases hc
  | some e =>
    rw [hfind] at hselector
    obtain ⟨st, hst, he⟩ := List.exists_of_findSome?_eq_some hfind
    cases st with
    | project =>
      cases he
      rw [hselector]
      exact hst
    | _ => cases he

/-- **The columns of a query that is translated come from there.** -/
theorem resolved_of_translate (h : (p.translate mode).after log = (.ok q, log')) :
    p.Resolved q := by
  obtain ⟨plan, d, l, hbehind⟩ := exists_behind h
  obtain ⟨-, plan', d', text, hplan, -, -, hq⟩ := translate_eq_ok.1 h
  refine ⟨fun column hc => ?_, fun column hc => ?_, fun column hc => ?_⟩
  · have hplace : Fragment.member column ∈ l.inPlace := by
      rw [hbehind.ast] at hc
      rw [← hbehind.keeps.inPlace]
      exact List.mem_filter.2 ⟨hc, rfl⟩
    have hcolumn : column ∈ l.conditions.map Condition.column := by
      rw [← l.filterMap_memberName?_inPlace]
      exact List.mem_filterMap.2 ⟨_, hplace, rfl⟩
    obtain ⟨k, hk, rfl⟩ := List.mem_map.1 hcolumn
    obtain ⟨st, hst, e, he, hyields⟩ := hbehind.yields k hk
    exact ⟨st, hst, e, he, hyields.readsFrom⟩
  · have horder : Fragment.orderByField column ∈ l.ordering := by
      rw [hbehind.ast] at hc
      rw [← hbehind.keeps.ordering]
      exact List.mem_filter.2 ⟨hc, rfl⟩
    cases ho : l.order with
    | none => simp [Ledger.ordering, ho] at horder
    | some o =>
      obtain ⟨dir, name⟩ := o
      have hname : column = name := by simpa [Ledger.ordering, ho] using horder
      obtain ⟨key, hmem, hreads⟩ := (hbehind.run.readsFrom_of_order _ ho).resolve_left
        (Option.not_mem_none _)
      exact ⟨key, dir, hmem, hname ▸ hreads⟩
  · have hcolumns : column ∈ plan'.columns := by
      rw [hq] at hc
      exact hc
    exact ⟨plan'.selector, project_mem_of_mem_columns hplan hcolumns,
      readsFrom_of_mem_columns hplan column hcolumns⟩

end Pipeline

/-! ## The key and other fields -/

namespace Schema

variable {catalog : Catalog} {s : Schema} {i : Nat} {f : Field}

/-- **A field is a property as any other**, on each way between a record, a
query and the store. -/
structure Ordinary (catalog : Catalog) (s : Schema) (i : Nat) (f : Field) : Prop where
  /-- Queries know it by its own name. -/
  column : s.column ⟨[f.name]⟩ = .ok f.name
  /-- The key of a record does not depend on it. -/
  keyless : ∀ r v, s.recordKey? (r.set i v) = s.recordKey? r
  /-- If it is stored, its value is written: under its name, unless it holds
  maps. -/
  written : ∀ r e v, s.encode catalog r = .ok e → r[i]? = some v → f.isPersisted = true →
    ∃ pairs, encodeField catalog f v = .ok pairs ∧ (∀ x ∈ pairs, x.1 ∈ e.properties.names) ∧
      ((∀ item, f.type ≠ .map item) → ∀ x ∈ pairs, e.get? x.1 = some x.2)
  /-- There is something under its name then, unless the value is null or an empty
  list. -/
  present : ∀ r e v, s.encode catalog r = .ok e → r[i]? = some v → f.isPersisted = true →
    (∀ item, f.type ≠ .map item) → v ≠ .null → v ≠ .list [] →
    ∃ p, encodeField catalog f v = .ok [(f.name, p)] ∧ e.get? f.name = some p
  /-- Its place is filled from properties, whatever the key is. -/
  filled : ∀ row r, s.decode catalog row = .ok r →
    r[i]? = some ((s.fillsAt catalog i row.properties).foldl Fill.apply f.type.zero)
  /-- These are the property under its name, unless it holds maps. -/
  decoded : ∀ row r p, row.properties.names.Nodup → s.decode catalog row = .ok r →
    f.isPersisted = true → (∀ item, f.type ≠ .map item) → row.get? f.name = some p →
    ∃ v, p.value.toValue catalog f.type = .ok v ∧ r[i]? = some v
  /-- That is also what is projected. -/
  projected : ∀ row, (∀ item, f.type ≠ .map item) →
    s.memberValue catalog row ⟨[f.name]⟩ =
      match row.get? f.name with
      | none => Fault.raise (.invalidResult (.columnAbsent f.name))
      | some p => p.value.toColumn catalog f.type
  /-- A map is projected as it is decoded. -/
  gathered : ∀ row item, f.type = .map item →
    s.memberValue catalog row ⟨[f.name]⟩ =
      (s.decode catalog row).map fun r => (Record.take r i).1

/-- **Every field but the key is ordinary.** Only its name may not be taken for
that of an entry of a map. -/
theorem ordinary_of_ne_key (names : (s.fields.map Field.name).Nodup)
    (hf : s.fields[i]? = some f) (notKey : s.keyIndex? ≠ some i)
    (unflattened : isFlattened f.name = false) : s.Ordinary catalog i f := by
  have hplace : s.field? f.name = some (i, f) := field?_of_getElem? names hf
  have hkey : s.isKey f.name = false :=
    Bool.eq_false_iff.2 fun hkey => notKey ((isKey_iff names hf).1 hkey)
  constructor
  case column =>
    exact column_eq_ok.2 ⟨f.name, rfl, by rw [hplace]; rfl, by simp [hkey]⟩
  case keyless => exact recordKey?_set notKey
  case written =>
    exact fun r e v h hr persisted =>
      exists_encodeField_of_encode names hf persisted notKey h hr
  case present =>
    intro r e v h hr persisted unmapped some filled
    obtain ⟨pairs, hpairs, -, stored⟩ :=
      exists_encodeField_of_encode names hf persisted notKey h hr
    obtain ⟨p, rfl⟩ := encodeField_eq_singleton hpairs unmapped some filled
    exact ⟨p, hpairs, stored unmapped _ (List.mem_singleton_self _)⟩
  case filled => exact fun row r hd => getElem?_decode hd hf fun hover => notKey hover.2
  case decoded =>
    exact fun row r p hrow hd persisted hmap hp =>
      exists_toValue_of_decode names hrow hf hkey hmap persisted unflattened hp hd
  case projected => exact fun row hmap => memberValue_of_not_map hplace rfl hkey hmap
  case gathered => exact fun row item htype => memberValue_of_map hplace rfl hkey htype

/-- A name of two letters is not that of an entry. -/
theorem isFlattened_of_isIdName {name : String} (h : isIdName name = true) :
    isFlattened name = false := by
  have hlength : name.toList.length = 2 := by
    have hlower := congrArg List.length (eq_of_beq h)
    rwa [List.length_map] at hlower
  match hname : name.toList, hlength with
  | [x, y], _ => simp [isFlattened, hname, startsWith, toList_flattenStart, dropStart?]

/-- **The key is apart from the properties.** The field `k` at the place `i` is
the key column of queries and the key of entities. -/
structure KeyApart (catalog : Catalog) (s : Schema) (i : Nat) (k : Field) : Prop where
  /-- All columns of a query are resolved, and none is the name of the key
  field. -/
  queries : ∀ (p : Pipeline) mode log log' q, p.schema = s →
    (p.translate mode).after log = (.ok q, log') → p.Resolved q ∧ k.name ∉ q.columns
  /-- The key field is the key column. -/
  column : s.column ⟨[k.name]⟩ = .ok keyColumn
  /-- Every other member has its own name for a column. -/
  others : ∀ m column, m.path ≠ [k.name] → s.column m = .ok column →
    m.path = [column] ∧ column ≠ keyColumn
  /-- No property is written under its name, and a text that is not blank is
  the key of the entity. -/
  written : ∀ r e, s.encode catalog r = .ok e → k.name ∉ e.properties.names ∧
    (∀ name, r[i]? = some (.text name) → isBlank name = false → e.key = some ⟨s.name, name⟩) ∧
    ((∀ name, r[i]? = some (.text name) → isBlank name = true) → e.key = none)
  /-- An entity with a key is decoded to a record with its name, whatever its
  properties are. -/
  decoded : ∀ row r key, row.key = some key → s.decode catalog row = .ok r →
    r[i]? = some (.text key.name)
  /-- So is a row projected to it. -/
  projected : ∀ row key log, row.key = some key →
    ((Expr.field k.name).project catalog s row).after log = (.ok (.text key.name), log)
  /-- Another field that has the name of a key is ordinary. -/
  ordinary : ∀ j f, s.fields[j]? = some f → j ≠ i → isIdName f.name = true →
    s.Ordinary catalog j f

variable {k : Field}

theorem isKey_eq_true_iff (hkey : s.keyField? = some (i, k)) {name : String} :
    s.isKey name = true ↔ name = k.name := by
  rw [isKey, hkey]
  exact beq_iff_eq.trans eq_comm

/-- Nothing is stored under the name of the key field. -/
theorem name_not_mem_of_encode (names : (s.fields.map Field.name).Nodup)
    (hkey : s.keyField? = some (i, k)) {r : Record} {e : Entity} (h : s.encode catalog r = .ok e) :
    k.name ∉ e.properties.names := by
  have hk : s.fields[i]? = some k := getElem?_of_keyField? hkey
  obtain ⟨check, pairs, hpairs, rfl⟩ := encode_eq_ok h
  intro hmem
  obtain ⟨x, hx, hname⟩ := List.mem_map.1 (Entries.mem_names_ofPairs.1 hmem)
  obtain ⟨j, g, hg, hstored⟩ := encodeFields_isStoredAs hpairs x hx
  obtain ⟨hg, -, notKey⟩ := getElem?_storedFields_eq_some_iff.1 hg
  rw [hname] at hstored
  rcases hstored with own | ⟨item, entry, -, -, flat⟩
  · -- It would be the name of another field.
    have hfound := field?_of_getElem? names hg
    rw [← own, field?_of_getElem? names hk] at hfound
    cases hfound
    exact notKey (keyIndex?_of_keyField? hkey)
  · exact flattenedName_ne_of_check check (List.mem_of_getElem? hk) g.name entry flat.symm

/-- **The key is apart** in every schema with distinct names of which none is
that of the key column. -/
theorem keyApart (catalog : Catalog) (names : (s.fields.map Field.name).Nodup)
    (hkey : s.keyField? = some (i, k)) (free : ∀ f ∈ s.fields, f.name ≠ keyColumn) :
    s.KeyApart catalog i k := by
  have hk : s.fields[i]? = some k := getElem?_of_keyField? hkey
  have hplace : s.field? k.name = some (i, k) := field?_of_getElem? names hk
  have hindex : s.keyIndex? = some i := keyIndex?_of_keyField? hkey
  have hname : s.isKey k.name = true := (isKey_eq_true_iff hkey).2 rfl
  have column : s.column ⟨[k.name]⟩ = .ok keyColumn :=
    column_eq_ok.2 ⟨k.name, rfl, by rw [hplace]; rfl, by rw [if_pos hname]⟩
  have others : ∀ m column, m.path ≠ [k.name] → s.column m = .ok column →
      m.path = [column] ∧ column ≠ keyColumn := by
    intro m column hm hc
    obtain ⟨name, hsingle, hfield, rfl⟩ := column_eq_ok.1 hc
    have hpath : m.path = [name] := Member.path_of_name? hsingle
    obtain ⟨f, hf, rfl⟩ := isSome_field?.1 hfield
    have hother : s.isKey f.name = false :=
      Bool.eq_false_iff.2 fun h => hm (by rw [hpath, (isKey_eq_true_iff hkey).1 h])
    rw [hother]
    exact ⟨hpath, free f hf⟩
  constructor
  case column => exact column
  case others => exact others
  case queries =>
    rintro p mode log log' q rfl h
    have hresolved := Pipeline.resolved_of_translate h
    refine ⟨hresolved, fun hmem => ?_⟩
    obtain ⟨m, hm⟩ := hresolved.exists_member hmem
    by_cases hpath : m.path = [k.name]
    · obtain ⟨path⟩ := m
      cases hpath
      rw [column] at hm
      exact free k (List.mem_of_getElem? hk) (Except.ok.inj hm).symm
    · exact hpath (others m k.name hpath hm).1
  case written =>
    exact fun r e h => ⟨name_not_mem_of_encode names hkey h,
      fun name hr hblank => key_of_encode hindex h hr hblank,
      fun hblank => key_eq_none_of_encode hindex h hblank⟩
  case decoded => exact fun row r key hrow hd => getElem?_decode_key hd hk hindex hrow
  case projected =>
    intro row key log hrow
    rw [Expr.field, Expr.project, memberValue_of_isKey hplace rfl hname, hrow]
    rfl
  case ordinary =>
    intro j f hf hj hid
    refine ordinary_of_ne_key names hf (fun hindex' => hj ?_) (isFlattened_of_isIdName hid)
    exact Option.some.inj (hindex'.symm.trans hindex)

end Schema

namespace Badge

/-- A badge has a field that is the key, and another one with the name of a
key. -/
def schema : Schema where
  name := "Badge"
  fields := [⟨"Id", .text, .normal⟩, ⟨"Code", .text, .key⟩, ⟨"Rank", .int32, .normal⟩]

/-- The code is the key of a badge, and its identifier is a property. -/
theorem keyApart_code :
    schema.KeyApart ⟨[]⟩ 1 ⟨"Code", .text, .key⟩ ∧
      schema.Ordinary ⟨[]⟩ 0 ⟨"Id", .text, .normal⟩ := by
  have h : schema.KeyApart ⟨[]⟩ 1 ⟨"Code", .text, .key⟩ :=
    Schema.keyApart ⟨[]⟩ (by decide) rfl (by decide)
  exact ⟨h, h.ordinary 0 _ rfl (by decide) (by decide)⟩

end Badge

end KindQuery
