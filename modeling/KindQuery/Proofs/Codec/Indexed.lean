import KindQuery.Proofs.Codec.Data
/-!
# What is indexed

A property has a flag of its own, and so has each item of a list. The flag of a
field goes to all its properties, and if the field is one of lists to the items
there. A list in a list or in an entry of a map is no longer looked at as part
of the field: it travels as a value does, with all items indexed. So what is not
to be indexed is not, just if it has no lists in such a place
(`Schema.encode_flags`).
-/

namespace KindQuery

variable {catalog : Catalog}

/-! ## Flags -/

mutual

/-- The flags of the items of a list, however deep in lists they are. What a
nested record is stored as has the flags of its own fields. -/
def Wire.flags : Wire → List Bool
  | .list items => Wire.itemFlags items
  | _ => []

/-- The flags of items and of what they hold. -/
def Wire.itemFlags : List Property → List Bool
  | [] => []
  | ⟨v, indexed⟩ :: rest => indexed :: (v.flags ++ itemFlags rest)

end

namespace Property

/-- The flag of a property and those in its value. -/
def flags (p : Property) : List Bool := p.indexed :: p.value.flags

/-- All flags of the property are the same. -/
def Carries (p : Property) (indexed : Bool) : Prop := ∀ b ∈ p.flags, b = indexed

end Property

theorem Wire.mem_itemFlags {items : List Property} {b : Bool} :
    b ∈ itemFlags items ↔ ∃ p ∈ items, b ∈ p.flags := by
  induction items with
  | nil => simp [itemFlags]
  | cons p items ih =>
    obtain ⟨v, indexed⟩ := p
    simp [itemFlags, Property.flags, ih, or_assoc]

/-- Is the value a list with items? -/
def Value.hasItems : Value → Bool
  | .list (_ :: _) => true
  | _ => false

namespace Value

mutual

/-- **What travels as a value is indexed**, with all that is in it. -/
theorem eq_true_of_mem_flags : ∀ {v : Value} {w : Wire}, v.toWire = .ok w →
    ∀ b ∈ w.flags, b = true
  | .list items, w, h => by
    obtain ⟨ps, hps, hw⟩ := bind_eq_ok.1 h
    rw [← Except.ok.inj hw, Wire.flags]
    exact eq_true_of_mem_itemFlags hps
  | .map _, _, h | .record _, _, h => by cases h
  | .null, _, h | .bool _, _, h | .int16 _, _, h | .int32 _, _, h | .int64 _, _, h
  | .double _, _, h | .decimal _, _, h | .text _, _, h | .instant _, _, h | .bytes _, _, h
  | .variant _, _, h | .key _, _, h => by
    cases h
    simp [Wire.flags]

theorem eq_true_of_mem_itemFlags : ∀ {vs : List Value} {ps : List Property},
    toWireEach vs = .ok ps → ∀ b ∈ Wire.itemFlags ps, b = true
  | [], _, h => by
    cases h
    simp [Wire.itemFlags]
  | v :: vs, _, h => by
    obtain ⟨w, hw, h⟩ := bind_eq_ok.1 h
    obtain ⟨ps, hps, h⟩ := bind_eq_ok.1 h
    rw [← Except.ok.inj h, Wire.itemFlags, List.forall_mem_cons, List.forall_mem_append]
    exact ⟨rfl, eq_true_of_mem_flags hw, eq_true_of_mem_itemFlags hps⟩

end

/-- A list that travels as a value has a flag just if it has an item. -/
theorem flags_eq_nil_iff {v : Value} {w : Wire} (h : v.toWire = .ok w) :
    w.flags = [] ↔ v.hasItems = false := by
  cases v with
  | list items =>
    obtain ⟨ps, hps, hw⟩ := bind_eq_ok.1 h
    rw [← Except.ok.inj hw, Wire.flags]
    cases items with
    | nil =>
      cases hps
      simp [Wire.itemFlags, hasItems]
    | cons v vs =>
      obtain ⟨w, -, hps⟩ := bind_eq_ok.1 hps
      obtain ⟨ps, -, hps⟩ := bind_eq_ok.1 hps
      rw [← Except.ok.inj hps]
      simp [Wire.itemFlags, hasItems]
  | map | record => cases h
  | _ =>
    cases h
    simp [Wire.flags, hasItems]

end Value

/-! ## Properties -/

/-- **A value as a property**: the property has the flag that it is given, and
what is in it is indexed. -/
structure Property.Holds (p : Property) (indexed : Bool) (v : Value) : Prop where
  indexed : p.indexed = indexed
  inner : ∀ b ∈ p.value.flags, b = true
  items : p.value.flags = [] ↔ v.hasItems = false

namespace Property

variable {p : Property} {indexed : Bool} {v : Value}

/-- It carries the flag all through unless it has items that should not be
indexed. -/
theorem Holds.carries_iff (h : p.Holds indexed v) :
    p.Carries indexed ↔ indexed = true ∨ v.hasItems = false := by
  rw [Carries, flags, List.forall_mem_cons, ← h.items, h.indexed]
  cases indexed with
  | true => simpa using h.inner
  | false =>
    simp only [true_and, Bool.false_eq_true, false_or]
    refine ⟨fun unset => List.eq_nil_iff_forall_not_mem.2 fun b hb => ?_, fun none => by simp [none]⟩
    cases (h.inner b hb).symm.trans (unset b hb)

/-- A value without items is no list with some. -/
theorem Holds.eq_nil_of_list (h : p.Holds indexed v) (none : v.hasItems = false)
    {ps : List Property} (list : p.value = .list ps) : ps = [] := by
  have unset : p.value.flags = [] := h.items.2 none
  rw [list, Wire.flags] at unset
  cases ps with
  | nil => rfl
  | cons q ps =>
    obtain ⟨w, flag⟩ := q
    cases unset

/-- A list carries a flag all through if it does and its items do. -/
theorem carries_list_iff {ps : List Property} :
    (⟨.list ps, indexed⟩ : Property).Carries indexed ↔ ∀ q ∈ ps, q.Carries indexed := by
  constructor
  · intro h q hq b hb
    exact h b (List.mem_cons_of_mem _ (Wire.mem_itemFlags.2 ⟨q, hq, hb⟩))
  · intro h
    refine List.forall_mem_cons.2 ⟨rfl, fun b hb => ?_⟩
    obtain ⟨q, hq, hb⟩ := Wire.mem_itemFlags.1 hb
    exact h q hq b hb

section Forall

variable {α β : Type} {value : α → Value} {property : β → Property} {xs : List α} {ys : List β}

theorem forall_indexed_eq
    (h : List.Forall₂ (fun x y => (property y).Holds indexed (value x)) xs ys) :
    ∀ y ∈ ys, (property y).indexed = indexed := by
  induction h with
  | nil => simp
  | cons hxy _ ih => exact List.forall_mem_cons.2 ⟨hxy.indexed, ih⟩

/-- Properties carry a flag all through unless a value has items that should not
be indexed. -/
theorem forall_carries_iff
    (h : List.Forall₂ (fun x y => (property y).Holds indexed (value x)) xs ys) :
    (∀ y ∈ ys, (property y).Carries indexed) ↔
      indexed = true ∨ xs.any (fun x => (value x).hasItems) = false := by
  induction h with
  | nil => simp
  | cons hxy _ ih =>
    rw [List.forall_mem_cons, ih, hxy.carries_iff, List.any_cons, Bool.or_eq_false_iff, or_and_left]

end Forall

/-- A nested record has fields of its own. -/
theorem holds_entity {bag : List (String × Property)} {fields : List Value} :
    (⟨.entity bag, indexed⟩ : Property).Holds indexed (.record fields) :=
  ⟨rfl, by simp [Wire.flags], by simp [Wire.flags, Value.hasItems]⟩

end Property

theorem encodeWhole_holds {type : FieldType} {indexed : Bool} {v : Value} {p : Property}
    (h : encodeWhole type indexed v = .ok p) : p.Holds indexed v := by
  unfold encodeWhole at h
  split at h
  · cases h
  · cases h
  · obtain ⟨w, hw, h⟩ := bind_eq_ok.1 h
    rw [← Except.ok.inj h]
    exact ⟨rfl, Value.eq_true_of_mem_flags hw, Value.flags_eq_nil_iff hw⟩

theorem encodeElement_holds {type : FieldType} {indexed : Bool} {v : Value} {p : Property}
    (h : encodeElement catalog type indexed v = .ok p) : p.Holds indexed v := by
  cases v with
  | record fields =>
    unfold encodeElement at h
    split at h
    · obtain ⟨_, -, h⟩ := bind_eq_ok.1 h
      obtain ⟨pairs, -, h⟩ := bind_eq_ok.1 h
      rw [← Except.ok.inj h]
      exact Property.holds_entity
    · exact encodeWhole_holds h
  | _ => exact encodeWhole_holds h

theorem encodeItems_holds {item : FieldType} {indexed : Bool} {vs : List Value} {ps : List Property}
    (h : encodeItems catalog item indexed vs = .ok ps) :
    List.Forall₂ (fun v p => p.Holds indexed v) vs ps := by
  induction vs generalizing ps with
  | nil =>
    cases h
    exact .nil
  | cons v vs ih =>
    obtain ⟨p, hp, h⟩ := bind_eq_ok.1 h
    obtain ⟨ps, hps, h⟩ := bind_eq_ok.1 h
    rw [← Except.ok.inj h]
    exact .cons (encodeElement_holds hp) (ih hps)

theorem encodeEntries_holds {field : String} {item : FieldType} {indexed : Bool}
    {entries : List (String × Value)} {pairs : List (String × Property)}
    (h : encodeEntries catalog field item indexed entries = .ok pairs) :
    List.Forall₂ (fun e p => p.2.Holds indexed e.2) entries pairs := by
  induction entries generalizing pairs with
  | nil =>
    cases h
    exact .nil
  | cons e entries ih =>
    obtain ⟨-, p, ps, hp, hps, rfl⟩ := encodeEntries_cons_eq_ok.1 h
    exact .cons (encodeElement_holds hp) (ih hps)

/-! ## Fields -/

namespace Field

variable {f : Field} {v : Value}

/-- Has the value of a field a list with items where it is no longer looked at
as part of the field? -/
def nestsItems (f : Field) (v : Value) : Bool :=
  match f.type, v with
  | .list _, .list items => items.any Value.hasItems
  | .map _, .map entries => entries.any fun e => e.2.hasItems
  | _, v => v.hasItems

/-- **The flags of what a field is stored as.** -/
structure Flags (f : Field) (v : Value) (pairs : List (String × Property)) : Prop where
  own : ∀ p ∈ pairs, p.2.indexed = f.isIndexed
  items : ∀ item, f.type = .list item → ∀ p ∈ pairs, ∀ ps, p.2.value = .list ps →
    ∀ q ∈ ps, q.indexed = f.isIndexed
  carries_iff : (∀ p ∈ pairs, p.2.Carries f.isIndexed) ↔
    f.isIndexed = true ∨ f.nestsItems v = false

theorem Flags.nil (none : f.nestsItems v = false) : f.Flags v [] :=
  ⟨by simp, by simp, by simp [none]⟩

/-- One property of a value that is not taken apart. -/
theorem Flags.single {p : Property} (h : p.Holds f.isIndexed v)
    (nests : f.nestsItems v = v.hasItems)
    (list : ∀ item, f.type = .list item → v.hasItems = false) : f.Flags v [(f.name, p)] where
  own := by simpa using h.indexed
  items item htype := by
    simp only [List.forall_mem_singleton]
    intro ps hps
    rw [h.eq_nil_of_list (list item htype) hps]
    simp
  carries_iff := by
    rw [List.forall_mem_singleton, h.carries_iff, nests]

theorem flags_encodeField {pairs : List (String × Property)}
    (h : encodeField catalog f v = .ok pairs) : f.Flags v pairs := by
  cases encodeField_encodes h with
  | null => exact .nil (by simp [nestsItems, Value.hasItems])
  | noItems htype => exact .nil (by simp [nestsItems, htype])
  | items htype hps =>
    have holds := encodeItems_holds hps
    refine ⟨by simp, fun _ _ => ?_, ?_⟩
    · simp only [List.forall_mem_singleton, Wire.list.injEq]
      rintro _ rfl
      exact Property.forall_indexed_eq holds
    · rw [List.forall_mem_singleton, Property.carries_list_iff, Property.forall_carries_iff holds]
      simp [nestsItems, htype]
  | entries htype hentries =>
    have holds := encodeEntries_holds hentries
    refine ⟨Property.forall_indexed_eq holds, fun item hitem => ?_, ?_⟩
    · cases htype.symm.trans hitem
    · rw [Property.forall_carries_iff holds]
      simp [nestsItems, htype]
  | record htype =>
    exact .single Property.holds_entity (by simp [nestsItems]) fun _ _ => rfl
  | whole some list hp =>
    refine .single (encodeWhole_holds hp) ?_ fun item htype => ?_
    · unfold nestsItems
      split
      · next htype => cases list _ _ htype rfl
      · next htype =>
        rw [htype] at hp
        cases hp
      · rfl
    · cases v with
      | list items => cases list item items htype rfl
      | _ => rfl

/-- Of the fields that are stored, those are indexed that are not marked
otherwise. -/
theorem isIndexed_iff (h : f.isPersisted = true) : f.isIndexed = true ↔ f.role ≠ .notIndexed := by
  unfold isPersisted at h
  unfold isIndexed
  cases hr : f.role <;> simp [hr] at h ⊢

end Field

/-! ## Records -/

/-- In a nested record it is the same as in one of its own: each slot is stored
with the flags of its field. -/
theorem Record.flags_encodeFields {fs : List (Option Field)} {r : Record}
    {pairs : List (String × Property)} (h : encodeFields catalog fs r = .ok pairs) :
    ∃ parts, pairs = parts.flatten ∧
      List.Forall₂ (fun slot part => encodeField catalog slot.1 slot.2 = .ok part ∧
        slot.1.Flags slot.2 part) (slots fs r) parts := by
  obtain ⟨parts, hparts, hpairs⟩ := encodeFields_eq_ok_iff.1 h
  exact ⟨parts, hpairs, hparts.imp fun _ _ hpart => ⟨hpart, Field.flags_encodeField hpart⟩⟩

/-- **How far the mark of a field goes.** The properties of an entity are what
its slots are stored as, and there is a slot for every field that is persisted
and not the key. All properties of a field have its flag, as have the items of
its list. What they hold in turn has it too if the field is indexed, or if no
list with items is nested in it; otherwise some item is indexed in spite of the
mark. -/
theorem Schema.encode_flags {s : Schema} {r : Record} {e : Entity}
    (h : s.encode catalog r = .ok e) :
    (∀ i f, s.fields[i]? = some f → f.isPersisted = true → s.keyIndex? ≠ some i →
      (f, (r[i]?).getD .null) ∈ Record.slots (s.storedFields s.keyIndex?) r ∧
        (f.isIndexed = true ↔ f.role ≠ .notIndexed)) ∧
    ∃ parts, e.properties = Entries.ofPairs parts.flatten ∧
      List.Forall₂ (fun slot part => encodeField catalog slot.1 slot.2 = .ok part ∧
        slot.1.Flags slot.2 part) (Record.slots (s.storedFields s.keyIndex?) r) parts := by
  obtain ⟨-, pairs, hpairs, rfl⟩ := encode_eq_ok h
  obtain ⟨parts, rfl, hparts⟩ := Record.flags_encodeFields hpairs
  refine ⟨fun i f hf hp hkey => ⟨?_, Field.isIndexed_iff hp⟩, parts, rfl, hparts⟩
  exact Record.mem_slots_iff.2 ⟨i, getElem?_storedFields_eq_some_iff.2 ⟨hf, hp, hkey⟩, rfl⟩

namespace Grid

/-- Rows of cells that are not to be indexed. -/
def schema : Schema where
  name := "Grid"
  fields := [⟨"Id", .text, .normal⟩, ⟨"Cells", .list (.list .int64), .notIndexed⟩]

/-- Two rows without cells have the mark all through. -/
theorem encode_flags_empty_rows : ∃ e, schema.encode ⟨[schema]⟩
      [.text "a", .list [.list [], .list []]] = .ok e ∧
    ∀ p ∈ e.properties, p.2.Carries false := by
  obtain ⟨e, h⟩ : ∃ e, schema.encode ⟨[schema]⟩ [.text "a", .list [.list [], .list []]] = .ok e :=
    ⟨_, rfl⟩
  obtain ⟨-, parts, hbag, hparts⟩ := Schema.encode_flags h
  refine ⟨e, h, fun p hp => ?_⟩
  obtain ⟨part, rest, ⟨-, flags⟩, hrest, rfl⟩ := List.forall₂_cons_left_iff.1 hparts
  obtain rfl := List.forall₂_nil_left_iff.1 hrest
  rw [hbag] at hp
  have mem : p ∈ part := by simpa using Entries.mem_ofPairs hp
  exact flags.carries_iff.2 (.inr (by decide)) p mem

/-- **A cell is indexed** although its field is marked as one that is not. -/
theorem indexes_cell : ∃ e p, schema.encode ⟨[schema]⟩
      [.text "a", .list [.list [.int64 1]]] = .ok e ∧ e.properties = [("Cells", p)] ∧
    p.flags = [false, false, true] ∧ ¬ p.Carries false :=
  ⟨_, _, rfl, rfl, rfl, by simp [Property.Carries, Property.flags, Wire.flags, Wire.itemFlags]⟩

end Grid

end KindQuery
