import KindQuery.Codec.Encode
import KindQuery.Proofs.Codec.Names
/-!
# Where flattened names divide

The name of a map entry is taken apart at its first divider. The divider
that was put behind the name of the field is the first one unless a divider
begins before it: inside the field, across the mark and the field, or
across the field and the divider. The check of a schema rules out the first
way only. `Schema.splits_iff_not_joinsDivider` says for which fields of a
checked schema entries come back, and that these never share a name.
-/

namespace KindQuery

/-! ## First dividers -/

/-- A text in which a divider occurs is split, and not behind it. -/
theorem exists_splitFirst? (divider before after : List Char) :
    ∃ b a, splitFirst? divider (before ++ divider ++ after) = some (b, a) ∧
      b.length ≤ before.length := by
  induction before with
  | nil =>
    rw [List.nil_append]
    cases htext : divider ++ after with
    | nil =>
      have hd : divider = [] := (List.append_eq_nil_iff.1 htext).1
      exact ⟨[], [], by rw [splitFirst?, if_pos hd], Nat.le_refl _⟩
    | cons c text =>
      have hdrop : dropStart? divider (c :: text) = some after :=
        dropStart?_eq_some_iff.2 htext.symm
      exact ⟨[], after, by rw [splitFirst?, hdrop], Nat.le_refl _⟩
  | cons c before ih =>
    rw [List.cons_append, List.cons_append, splitFirst?]
    cases hdrop : dropStart? divider (c :: (before ++ divider ++ after)) with
    | some rest => exact ⟨[], rest, rfl, Nat.zero_le _⟩
    | none =>
      obtain ⟨b, a, hsplit, hle⟩ := ih
      refine ⟨c :: b, a, by rw [hsplit]; rfl, ?_⟩
      rw [List.length_cons, List.length_cons]
      omega

/-- **A text is split where the divider occurs first.** -/
theorem splitFirst?_eq_some_iff {divider text before after : List Char} :
    splitFirst? divider text = some (before, after) ↔
      text = before ++ divider ++ after ∧
        ∀ b a, text = b ++ divider ++ a → before.length ≤ b.length := by
  constructor
  · intro h
    refine ⟨splitFirst?_sound h, fun b a htext => ?_⟩
    obtain ⟨b', a', hsplit, hle⟩ := exists_splitFirst? divider b a
    rw [← htext, h] at hsplit
    cases hsplit
    exact hle
  · rintro ⟨htext, hfirst⟩
    obtain ⟨b, a, hsplit, hle⟩ := exists_splitFirst? divider before after
    rw [← htext] at hsplit
    have hsound : text = b ++ divider ++ a := splitFirst?_sound hsplit
    -- Neither place is behind the other, so that they are one.
    have hlength : before.length = b.length := Nat.le_antisymm (hfirst b a hsound) hle
    rw [htext, List.append_assoc, List.append_assoc] at hsound
    obtain ⟨rfl, hrest⟩ := List.append_inj hsound hlength
    rw [hsplit, List.append_cancel_left hrest]

theorem occursIn_iff {part text : List Char} :
    occursIn part text = true ↔ ∃ b a, text = b ++ part ++ a := by
  constructor
  · intro h
    obtain ⟨⟨b, a⟩, hsplit⟩ := Option.isSome_iff_exists.1 h
    exact ⟨b, a, splitFirst?_sound hsplit⟩
  · rintro ⟨b, a, rfl⟩
    obtain ⟨b', a', hsplit, -⟩ := exists_splitFirst? part b a
    rw [occursIn, hsplit]
    rfl

/-! ## Dividers across a border -/

theorem toList_flattenStart : flattenStart.toList = ['g', '/', 'k', 'v', '_'] := by decide

theorem toList_flattenDivider : flattenDivider.toList = ['_', 'g', '/', 'k', '_'] := by decide

/-- A divider that begins before the last letter of `text ++ "_"` and goes
on behind it ends there: a divider has its two underscores at its ends. -/
theorem occurs_of_append {text after b a : List Char} (hb : b.length < text.length)
    (h : text ++ '_' :: after = b ++ ['_', 'g', '/', 'k', '_'] ++ a) :
    ∃ a', text ++ ['_'] = b ++ ['_', 'g', '/', 'k', '_'] ++ a' := by
  have hsplit : (text ++ ['_']) ++ after = (b ++ ['_', 'g', '/', 'k', '_']) ++ a := by
    rw [← h, List.append_assoc]
    rfl
  rcases List.append_eq_append_iff.1 hsplit with ⟨c, hc, -⟩ | ⟨c, hc, -⟩
  · -- Of the divider, `w` lies in `text`, and the underscore after `text` follows it.
    have hover : text ++ ('_' :: c) = b ++ ['_', 'g', '/', 'k', '_'] := by
      rw [hc, List.append_assoc]
      rfl
    rcases List.append_eq_append_iff.1 hover with ⟨w, hw, -⟩ | ⟨w, hw, hd⟩
    · have := congrArg List.length hw
      rw [List.length_append] at this
      omega
    · match w, hw, hd with
      | [], hw, _ =>
        have := congrArg List.length hw
        rw [List.append_nil] at this
        omega
      | [_], _, hd | [_, _], _, hd | [_, _, _], _, hd => simp at hd
      | [_, _, _, _], _, hd =>
        have hnil : c = [] := by simpa using congrArg List.length hd
        exact ⟨[], by rw [List.append_nil, ← hover, hnil]⟩
      | _ :: _ :: _ :: _ :: _ :: _, _, hd => simp at hd
  · exact ⟨c, hc⟩

/-- **The divider behind a name is the first one** unless there is one in
the name between two underscores, which is how it stands among the mark and
the divider. -/
theorem splitFirst?_flattened_iff (name rest : List Char) :
    splitFirst? flattenDivider.toList
        (flattenStart.toList ++ name ++ flattenDivider.toList ++ rest) =
      some (flattenStart.toList ++ name, rest) ↔
      occursIn flattenDivider.toList ('_' :: name ++ ['_']) = false := by
  rw [splitFirst?_eq_some_iff, ← Bool.not_eq_true, occursIn_iff, toList_flattenStart,
    toList_flattenDivider]
  -- The text around the name between underscores.
  have htext : ['g', '/', 'k', 'v', '_'] ++ name ++ ['_', 'g', '/', 'k', '_'] ++ rest =
      ['g', '/', 'k', 'v'] ++ (('_' :: name) ++ '_' :: (['g', '/', 'k', '_'] ++ rest)) := by
    simp
  constructor
  · rintro ⟨-, hfirst⟩ ⟨b, a, hmid⟩
    have hle := hfirst (['g', '/', 'k', 'v'] ++ b) (a ++ (['g', '/', 'k', '_'] ++ rest)) (by
      rw [htext]
      have := congrArg (· ++ (['g', '/', 'k', '_'] ++ rest)) hmid
      simp at this ⊢
      exact this)
    have hlength := congrArg List.length hmid
    simp only [List.length_append, List.length_cons, List.length_nil] at hle hlength
    omega
  · intro hnone
    refine ⟨rfl, fun b a h => ?_⟩
    by_contra hlt
    rw [htext] at h
    -- The letters of the mark before its underscore begin no divider.
    match b with
    | [] | [_] | [_, _] | [_, _, _] => simp at h
    | _ :: _ :: _ :: _ :: b =>
      have hmid : ('_' :: name) ++ '_' :: (['g', '/', 'k', '_'] ++ rest) =
          b ++ ['_', 'g', '/', 'k', '_'] ++ a := congrArg (List.drop 4) h
      have hb : b.length < ('_' :: name).length := by
        simp only [List.length_append, List.length_cons, List.length_nil] at hlt ⊢
        omega
      obtain ⟨a', ha⟩ := occurs_of_append hb hmid
      exact hnone ⟨b, a', ha⟩

/-! ## Names of fields -/

/-- A name that makes up a divider with what it is put between: with the
underscore before it, with the one after it, or with both. -/
def JoinsDivider (name : String) : Prop :=
  (∃ rest, name = "g/k_" ++ rest) ∨ (∃ rest, name = rest ++ "_g/k") ∨ name = "g/k"

/-- A divider between underscores that is not in the name is made up with
one of them. -/
theorem joinsDivider_iff {name : String}
    (h : occursIn flattenDivider.toList name.toList = false) :
    JoinsDivider name ↔
      occursIn flattenDivider.toList ('_' :: name.toList ++ ['_']) = true := by
  rw [← Bool.not_eq_true, occursIn_iff, toList_flattenDivider] at h
  rw [occursIn_iff, toList_flattenDivider]
  constructor
  · rintro (⟨rest, rfl⟩ | ⟨rest, rfl⟩ | rfl)
    · exact ⟨[], rest.toList ++ ['_'], by simp⟩
    · exact ⟨'_' :: rest.toList, [], by simp⟩
    · exact ⟨[], [], by simp⟩
  · rintro ⟨b, a, hmid⟩
    rcases b with _ | ⟨_, b⟩
    · -- The underscore before the name begins the divider.
      rcases List.eq_nil_or_concat a with rfl | ⟨a, c, rfl⟩
      · have hname : name.toList ++ ['_'] = ['g', '/', 'k'] ++ ['_'] := by simpa using hmid
        have hinit : name.toList = ['g', '/', 'k'] := (List.append_inj' hname rfl).1
        exact .inr (.inr (String.toList_inj.1 hinit))
      · have hname : name.toList ++ ['_'] = (['g', '/', 'k', '_'] ++ a) ++ [c] := by
          simpa using hmid
        have hinit : name.toList = ['g', '/', 'k', '_'] ++ a := (List.append_inj' hname rfl).1
        exact .inl ⟨String.ofList a, String.toList_inj.1 (by simpa using hinit)⟩
    · rcases List.eq_nil_or_concat a with rfl | ⟨a, c, rfl⟩
      · -- The one after the name ends it.
        have hname : name.toList ++ ['_'] = (b ++ ['_', 'g', '/', 'k']) ++ ['_'] := by
          simpa using (List.cons.inj hmid).2
        have hinit : name.toList = b ++ ['_', 'g', '/', 'k'] := (List.append_inj' hname rfl).1
        exact .inr (.inl ⟨String.ofList b, String.toList_inj.1 (by simpa using hinit)⟩)
      · have hname : name.toList ++ ['_'] = (b ++ ['_', 'g', '/', 'k', '_'] ++ a) ++ [c] := by
          simpa using (List.cons.inj hmid).2
        exact absurd ⟨b, a, (List.append_inj' hname rfl).1⟩ h

/-- Among the mark and the divider that a name is put between, this is the first
divider unless the name makes up one. -/
theorem splitFirst?_name_iff {name : String} :
    splitFirst? flattenDivider.toList (flattenStart ++ name ++ flattenDivider).toList =
      some ((flattenStart ++ name).toList, []) ↔
      occursIn flattenDivider.toList ('_' :: name.toList ++ ['_']) = false := by
  rw [← splitFirst?_flattened_iff name.toList [], String.toList_append, String.toList_append,
    List.append_nil]

/-- A name that can be found again is one that makes up no divider. -/
theorem isMapName_iff {name : String} :
    IsMapName name ↔ isBlank name = false ∧
      occursIn flattenDivider.toList ('_' :: name.toList ++ ['_']) = false := by
  rw [← splitFirst?_name_iff]
  exact ⟨fun h => ⟨h.not_blank, h.split⟩, fun h => ⟨h.1, h.2⟩⟩

/-- An entry that is taken from a name stands behind its first divider. -/
theorem exists_splitFirst?_of_splitFlattened? {name field entry : String}
    (h : splitFlattened? name = some (field, entry)) :
    ∃ head, splitFirst? flattenDivider.toList name.toList = some (head, entry.toList) := by
  unfold splitFlattened? at h
  split at h
  next => cases h
  next head rest hsplit =>
    dsimp only at h
    split at h
    next => cases h
    next =>
      have hentry : String.ofList rest = entry := (Prod.mk.inj (Option.some.inj h)).2
      exact ⟨head, by rw [hsplit, ← hentry, String.toList_ofList]⟩

theorem toList_flattenedName (field entry : String) :
    (flattenedName field entry).toList =
      flattenStart.toList ++ field.toList ++ flattenDivider.toList ++ entry.toList := by
  rw [flattenedName, String.toList_append, String.toList_append, String.toList_append]

/-- Entries of a field of a checked schema come back exactly when its name
joins no divider. -/
theorem Schema.forall_splitFlattened?_iff {s : Schema} (hs : s.checkFieldNames = .ok ()) {f : Field}
    (hf : f ∈ s.fields) (hb : isBlank f.name = false) :
    (∀ entry, isBlank entry = false →
      splitFlattened? (flattenedName f.name entry) = some (f.name, entry)) ↔
      ¬ JoinsDivider f.name := by
  have hname := (Schema.not_collides_of_check hs hf).2
  rw [joinsDivider_iff hname, Bool.not_eq_true]
  constructor
  · intro h
    obtain ⟨head, hsplit⟩ := exists_splitFirst?_of_splitFlattened? (h "x" (by decide))
    rw [toList_flattenedName] at hsplit
    -- The same entry is left behind the divider that follows the field.
    have hhead := List.append_cancel_right (List.append_cancel_right (splitFirst?_sound hsplit))
    rw [← hhead] at hsplit
    exact (splitFirst?_flattened_iff _ _).1 hsplit
  · intro h entry he
    exact splitFlattened?_flattenedName (isMapName_iff.2 ⟨hb, h⟩) he

/-- Entries of fields that join no divider share a name only if they are one. -/
theorem eq_of_flattenedName_eq {field field' entry entry' : String}
    (h : occursIn flattenDivider.toList ('_' :: field.toList ++ ['_']) = false)
    (h' : occursIn flattenDivider.toList ('_' :: field'.toList ++ ['_']) = false)
    (heq : flattenedName field entry = flattenedName field' entry') :
    field = field' ∧ entry = entry' := by
  have htext := congrArg String.toList heq
  rw [toList_flattenedName, toList_flattenedName] at htext
  have hsplit := (splitFirst?_flattened_iff field.toList entry.toList).2 h
  have hsplit' := (splitFirst?_flattened_iff field'.toList entry'.toList).2 h'
  rw [htext, hsplit'] at hsplit
  obtain ⟨hfield, hentry⟩ := Prod.mk.inj (Option.some.inj hsplit)
  exact ⟨String.toList_inj.1 (List.append_cancel_left hfield).symm, String.toList_inj.1 hentry.symm⟩

/-- The entry of a map whose name joins no divider is loaded into the map. -/
theorem Schema.target_of_not_joinsDivider {s : Schema} (hs : s.checkFieldNames = .ok ()) {f : Field}
    (hf : f ∈ s.fields) (hb : isBlank f.name = false) (hj : ¬ JoinsDivider f.name) {i : Nat}
    {item : FieldType} (hi : s.field? f.name = some (i, f)) (ht : f.type = .map item)
    {entry : String} (he : isBlank entry = false) :
    s.target (flattenedName f.name entry) = .ok (.entry i item entry) := by
  have hsplit : splitFlattened? (flattenedName f.name entry) = some (f.name, entry) :=
    (Schema.forall_splitFlattened?_iff hs hf hb).2 hj entry he
  exact target_eq_entry_iff.2 ⟨isFlattened_flattenedName _ _, f, hsplit, hi, ht⟩

/-- And no other field's entry is stored under its name. -/
theorem Schema.name_eq_of_flattenedName_eq {s : Schema} (hs : s.checkFieldNames = .ok ())
    {f g : Field} (hf : f ∈ s.fields) (hg : g ∈ s.fields) (hjf : ¬ JoinsDivider f.name)
    (hjg : ¬ JoinsDivider g.name) {a b : String}
    (heq : flattenedName f.name a = flattenedName g.name b) : f.name = g.name ∧ a = b := by
  rw [joinsDivider_iff (not_collides_of_check hs hf).2, Bool.not_eq_true] at hjf
  rw [joinsDivider_iff (not_collides_of_check hs hg).2, Bool.not_eq_true] at hjg
  exact eq_of_flattenedName_eq hjf hjg heq

/-- **For which fields of a checked schema flattened names divide where they
were put together**: those whose names join no divider. Entries of such
fields never share a name, and each is loaded into the map of its field. -/
theorem Schema.splits_iff_not_joinsDivider {s : Schema} (hs : s.checkFieldNames = .ok ()) :
    (∀ f ∈ s.fields, isBlank f.name = false →
      ((∀ entry, isBlank entry = false →
        splitFlattened? (flattenedName f.name entry) = some (f.name, entry)) ↔
        ¬ JoinsDivider f.name)) ∧
      (∀ f ∈ s.fields, ∀ g ∈ s.fields, ¬ JoinsDivider f.name → ¬ JoinsDivider g.name →
        ∀ a b, flattenedName f.name a = flattenedName g.name b → f.name = g.name ∧ a = b) ∧
      ∀ f ∈ s.fields, isBlank f.name = false → ¬ JoinsDivider f.name →
        ∀ i item, s.field? f.name = some (i, f) → f.type = .map item →
        ∀ entry, isBlank entry = false →
          s.target (flattenedName f.name entry) = .ok (.entry i item entry) := by
  refine ⟨fun f hf hb => Schema.forall_splitFlattened?_iff hs hf hb, ?_, ?_⟩
  · intro f hf g hg hjf hjg a b heq
    exact Schema.name_eq_of_flattenedName_eq hs hf hg hjf hjg heq
  · intro f hf hb hj i item hi ht entry he
    exact Schema.target_of_not_joinsDivider hs hf hb hj hi ht he

namespace Crowded

/-- Two maps, of which the second one's name runs into the divider. -/
def schema : Schema where
  name := "Crowded"
  fields := [⟨"A", .map .int64, .normal⟩, ⟨"A_g/k", .map .int64, .normal⟩]

theorem not_joinsDivider_a : ¬ JoinsDivider "A" := by
  have hname : occursIn flattenDivider.toList "A".toList = false := by decide
  rw [joinsDivider_iff hname]
  decide

/-- Entries of the first map come back, dividers and all, and those of the
second one do not. -/
theorem splits_a_not_b : schema.checkFieldNames = .ok () ∧
    splitFlattened? (flattenedName "A" "a_g/k_b") = some ("A", "a_g/k_b") ∧
    ¬ ∀ entry, isBlank entry = false →
      splitFlattened? (flattenedName "A_g/k" entry) = some ("A_g/k", entry) := by
  have hcheck : schema.checkFieldNames = .ok () := by decide
  have hsplits := (Schema.splits_iff_not_joinsDivider hcheck).1
  refine ⟨hcheck, ?_, ?_⟩
  · have ha := hsplits ⟨"A", .map .int64, .normal⟩ (by simp [schema]) (by decide)
    exact ha.2 not_joinsDivider_a "a_g/k_b" (by decide)
  · have hb := hsplits ⟨"A_g/k", .map .int64, .normal⟩ (by simp [schema]) (by decide)
    intro h
    exact hb.1 h (.inr (.inl ⟨"A", by decide⟩))

/-- **A checked schema may mix up its maps.** Entries of the two fields share
a name, and what is stored for the second one is loaded into the first. -/
theorem mixes_up_entries : schema.checkFieldNames = .ok () ∧
    isBlank "A" = false ∧ isBlank "A_g/k" = false ∧ isBlank "g/k_x" = false ∧
    isBlank "x" = false ∧
    flattenedName "A" "g/k_x" = flattenedName "A_g/k" "x" ∧
    splitFlattened? (flattenedName "A_g/k" "x") = some ("A", "g/k_x") ∧
    ∃ e, schema.encode ⟨[schema]⟩ [.map [], .map [("x", .int64 1)]] = .ok e ∧
      schema.decode ⟨[schema]⟩ e = .ok [.map [("g/k_x", .int64 1)], .map []] :=
  ⟨by decide, by decide, by decide, by decide, by decide, by decide, by decide, _, rfl, rfl⟩

end Crowded

end KindQuery
