import KindQuery.Codec.Decode
import KindQuery.Proofs.Codec.Typed
/-!
# Names of properties

Where a property belongs is read off its name (`Schema.Leads`). For a
schema that keeps its fields apart, what a field is stored as comes back to
this field: a property under its own name, and one entry of its map under a
flattened name.
-/

namespace KindQuery

/-! ## Splitting -/

theorem splitFirst?_sound {divider text before after : List Char}
    (h : splitFirst? divider text = some (before, after)) : text = before ++ divider ++ after := by
  induction text generalizing before with
  | nil =>
    unfold splitFirst? at h
    split at h
    next hd =>
      cases h
      simp [hd]
    next => cases h
  | cons c text ih =>
    unfold splitFirst? at h
    split at h
    next rest hd =>
      cases h
      exact dropStart?_eq_some_iff.1 hd
    next =>
      obtain ⟨⟨b, a⟩, hs, he⟩ := Option.map_eq_some_iff.1 h
      cases he
      rw [ih hs]
      rfl

/-- What follows a text that ends in its first divider does not move that
divider. -/
theorem splitFirst?_append {divider text before rest : List Char}
    (h : splitFirst? divider text = some (before, [])) :
    splitFirst? divider (text ++ rest) = some (before, rest) := by
  induction text generalizing before with
  | nil =>
    unfold splitFirst? at h
    split at h
    next hd =>
      cases h
      subst hd
      cases rest <;> rfl
    next => cases h
  | cons c text ih =>
    rw [splitFirst?] at h
    rw [List.cons_append, splitFirst?]
    cases hd : dropStart? divider (c :: text) with
    | some after =>
      rw [hd] at h
      cases h
      have htext := dropStart?_eq_some_iff.1 hd
      rw [List.append_nil] at htext
      rw [← List.cons_append, htext, dropStart?_append]
    | none =>
      rw [hd] at h
      obtain ⟨⟨b, a⟩, hs, he⟩ := Option.map_eq_some_iff.1 h
      cases he
      have hnone : dropStart? divider (c :: (text ++ rest)) = none := by
        -- The divider is no longer than the text, of which it is the end.
        cases hx : dropStart? divider (c :: (text ++ rest)) with
        | none => rfl
        | some x =>
          have hlong : divider.length ≤ (c :: text).length := by
            have := congrArg List.length (splitFirst?_sound hs)
            simp only [List.append_nil, List.length_append] at this
            rw [List.length_cons]
            omega
          have hlonger : divider <+: c :: text ++ rest := ⟨x, (dropStart?_eq_some_iff.1 hx).symm⟩
          obtain ⟨y, hy⟩ : divider <+: c :: text :=
            List.prefix_of_prefix_length_le hlonger (List.prefix_append _ _) hlong
          rw [dropStart?_eq_some_iff.2 hy.symm] at hd
          cases hd
      rw [hnone]
      simp only [ih hs, Option.map_some]

/-- **A flattened name is taken apart** into the field and the entry that
it was made from. -/
theorem splitFlattened?_flattenedName {field entry : String} (hf : IsMapName field)
    (he : isBlank entry = false) :
    splitFlattened? (flattenedName field entry) = some (field, entry) := by
  have hsplit : splitFirst? flattenDivider.toList
      ((flattenStart ++ field ++ flattenDivider).toList ++ entry.toList) =
      some ((flattenStart ++ field).toList, entry.toList) := splitFirst?_append hf.split
  have htext : (flattenedName field entry).toList =
      (flattenStart ++ field ++ flattenDivider).toList ++ entry.toList := by
    rw [flattenedName, String.toList_append]
  rw [splitFlattened?, htext, hsplit]
  simp [hf.not_blank, he]

theorem isFlattened_flattenedName (field entry : String) :
    isFlattened (flattenedName field entry) = true := by
  simp [isFlattened, flattenedName, startsWith, List.append_assoc]

/-! ## Places of fields -/

/-- A field stands at the place of its name. -/
theorem Field.locate?_of_nodup {before after : List Field} {f : Field}
    (h : ((before ++ f :: after).map Field.name).Nodup) :
    Field.locate? (fun g => g.name == f.name) (before ++ f :: after) = some (before.length, f) := by
  induction before with
  | nil => simp [Field.locate?]
  | cons g before ih =>
    rw [List.cons_append, List.map_cons, List.nodup_cons] at h
    have hg : (g.name == f.name) = false := by
      refine beq_eq_false_iff_ne.2 fun he => h.1 ?_
      rw [he]
      simp
    rw [List.cons_append, Field.locate?, ih h.2, hg]
    rfl

theorem Schema.field?_of_nodup {s : Schema} {before after : List Field} {f : Field}
    (h : (s.fields.map Field.name).Nodup) (hs : s.fields = before ++ f :: after) :
    s.field? f.name = some (before.length, f) := by
  rw [hs] at h
  rw [Schema.field?, hs]
  exact Field.locate?_of_nodup h

theorem Field.of_locate? {q : Field → Bool} {fs : List Field} {i : Nat} {f : Field}
    (h : Field.locate? q fs = some (i, f)) : q f = true := by
  induction fs generalizing i with
  | nil => cases h
  | cons g fs ih =>
    rw [Field.locate?] at h
    split at h
    next hg =>
      cases h
      exact hg
    next =>
      obtain ⟨⟨j, f'⟩, hl, he⟩ := Option.map_eq_some_iff.1 h
      cases he
      exact ih hl

theorem Schema.field?_sound {s : Schema} {name : String} {i : Nat} {f : Field}
    (h : s.field? name = some (i, f)) : s.fields[i]? = some f ∧ f.name = name :=
  ⟨Field.getElem?_of_locate? h, eq_of_beq (Field.of_locate? h)⟩

/-- No field of a checked schema looks like a flattened entry. -/
theorem Schema.not_collides_of_check {s : Schema} (h : s.checkFieldNames = .ok ()) {f : Field}
    (hf : f ∈ s.fields) :
    isFlattened f.name = false ∧ occursIn flattenDivider.toList f.name.toList = false := by
  unfold Schema.checkFieldNames at h
  split at h
  next => cases h
  next hnone =>
    have hc : f.collides = false := by simpa using List.find?_eq_none.1 hnone f hf
    rwa [Field.collides, Bool.or_eq_false_iff] at hc

/-- The name of an entry is not that of a field. -/
theorem Schema.flattenedName_ne_of_check {s : Schema} (hcheck : s.checkFieldNames = .ok ())
    {f : Field} (hf : f ∈ s.fields) (field entry : String) : flattenedName field entry ≠ f.name := by
  intro heq
  have hflat : isFlattened f.name = false := (not_collides_of_check hcheck hf).1
  rw [← heq, isFlattened_flattenedName] at hflat
  cases hflat

/-! ## Targets -/

/-- Where a name leads in a schema: under the name of a field to its place if
it is stored, under the name of an entry to the map of the field, and to no
place if there is no such field. -/
inductive Schema.Leads (s : Schema) (name : String) : Target → Prop
  | unknown : isFlattened name = false → s.field? name = none → s.Leads name .nowhere
  | unstored {i : Nat} {f : Field} : isFlattened name = false → s.field? name = some (i, f) →
      f.isPersisted = false → s.Leads name .nowhere
  | stored {i : Nat} {f : Field} : isFlattened name = false → s.field? name = some (i, f) →
      f.isPersisted = true → s.Leads name (.slot i f.type)
  | unknownMap {field entry : String} : isFlattened name = true →
      splitFlattened? name = some (field, entry) → s.field? field = none → s.Leads name .nowhere
  | entry {field entry : String} {i : Nat} {f : Field} {item : FieldType} :
      isFlattened name = true → splitFlattened? name = some (field, entry) →
      s.field? field = some (i, f) → f.type = .map item → s.Leads name (.entry i item entry)

namespace Schema

variable {s : Schema} {name entry : String} {t : Target} {i : Nat} {type item : FieldType}

/-- **A property belongs where its name leads.** -/
theorem target_eq_ok_iff : s.target name = .ok t ↔ s.Leads name t := by
  unfold target
  constructor
  · intro h
    split at h
    next hname =>
      split at h
      next => cases h
      next field entry hsplit =>
        split at h
        next hf =>
          cases h
          exact .unknownMap hname hsplit hf
        next i f hf =>
          split at h
          next item htype =>
            cases h
            exact .entry hname hsplit hf htype
          next => cases h
    next hname =>
      rw [Bool.not_eq_true] at hname
      split at h
      next hf =>
        cases h
        exact .unknown hname hf
      next i f hf =>
        cases h
        cases hp : f.isPersisted with
        | true => exact .stored hname hf hp
        | false => exact .unstored hname hf hp
  · intro h
    cases h with
    | unknown hname hf => simp [hname, hf]
    | unstored hname hf hp | stored hname hf hp => simp [hname, hf, hp]
    | unknownMap hname hsplit hf => simp [hname, hsplit, hf]
    | entry hname hsplit hf htype => simp [hname, hsplit, hf, htype]

/-- A place is filled as a whole by the property under the name of its field,
if the field is stored. -/
theorem target_eq_slot_iff : s.target name = .ok (.slot i type) ↔
    isFlattened name = false ∧ ∃ f, s.field? name = some (i, f) ∧ f.isPersisted = true ∧
      f.type = type := by
  rw [target_eq_ok_iff]
  constructor
  · intro h
    cases h with
    | stored hname hf hp => exact ⟨hname, _, hf, hp, rfl⟩
  · rintro ⟨hname, f, hf, hp, rfl⟩
    exact .stored hname hf hp

/-- An entry is put into a place by a property under a flattened name of its
field, if the field holds maps. -/
theorem target_eq_entry_iff : s.target name = .ok (.entry i item entry) ↔
    isFlattened name = true ∧ ∃ f, splitFlattened? name = some (f.name, entry) ∧
      s.field? f.name = some (i, f) ∧ f.type = .map item := by
  rw [target_eq_ok_iff]
  constructor
  · intro h
    cases h with
    | entry hname hsplit hf htype =>
      obtain ⟨-, rfl⟩ := field?_sound hf
      exact ⟨hname, _, hsplit, hf, htype⟩
  · rintro ⟨hname, f, hsplit, hf, htype⟩
    exact .entry hname hsplit hf htype

end Schema

/-- A field that is stored, at its place in a schema that keeps its fields
apart at every level. -/
structure Schema.Stores (catalog : Catalog) (s : Schema) (before : List Field) (f : Field)
    (after : List Field) : Prop where
  sound : catalog.Sound s
  check : s.checkFieldNames = .ok ()
  fields : s.fields = before ++ f :: after
  persisted : f.isPersisted = true

namespace Schema.Stores

variable {catalog : Catalog} {s : Schema} {before after : List Field} {f : Field}

theorem mem (h : s.Stores catalog before f after) : f ∈ s.fields := by
  rw [h.fields]
  simp

theorem field?_eq (h : s.Stores catalog before f after) :
    s.field? f.name = some (before.length, f) :=
  field?_of_nodup (h.sound s .self).names h.fields

/-- A field is loaded from the property of its name. -/
theorem target_name (h : s.Stores catalog before f after) :
    s.target f.name = .ok (.slot before.length f.type) :=
  target_eq_slot_iff.2
    ⟨(not_collides_of_check h.check h.mem).1, f, h.field?_eq, h.persisted, rfl⟩

/-- An entry of a map is loaded into the map. -/
theorem target_flattenedName (h : s.Stores catalog before f after) {item : FieldType}
    (ht : f.type = .map item) {entry : String} (he : isBlank entry = false) :
    s.target (flattenedName f.name entry) = .ok (.entry before.length item entry) := by
  have hname : IsMapName f.name := (h.sound s .self).maps f h.mem item ht
  exact target_eq_entry_iff.2 ⟨isFlattened_flattenedName _ _, f,
    splitFlattened?_flattenedName hname he, h.field?_eq, ht⟩

end Schema.Stores

end KindQuery
