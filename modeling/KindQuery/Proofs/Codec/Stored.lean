import KindQuery.Codec.Encode
import KindQuery.Proofs.Codec.Names
/-!
# Stored fields

What a field of a record is stored as, and under which names. A record is
stored slot by slot, which are the fields that may be stored beside their
values.
-/

namespace KindQuery

variable {catalog : Catalog} {nullable : FieldType → Prop}

/-! ## One field -/

theorem encodeWhole_eq_ok {type : FieldType} {indexed : Bool} {v : Value} {p : Property}
    (h : encodeWhole type indexed v = .ok p) : v.toWire = .ok p.value := by
  unfold encodeWhole at h
  split at h
  · simp at h
  · simp at h
  · obtain ⟨w, hw, hp⟩ := bind_eq_ok.1 h
    cases hp
    exact hw

/-- **What a value of a field is stored as.** Null is not stored, nor is an empty
list in a field of lists. Lists, maps and records are taken apart in fields of
their types. Any other value is stored as it travels. -/
inductive Field.Encodes (catalog : Catalog) (f : Field) : Value → List (String × Property) → Prop
  | null : Encodes catalog f .null []
  | noItems {item : FieldType} : f.type = .list item → Encodes catalog f (.list []) []
  | items {item : FieldType} {v : Value} {vs : List Value} {ps : List Property} :
      f.type = .list item → encodeItems catalog item f.isIndexed (v :: vs) = .ok ps →
      Encodes catalog f (.list (v :: vs)) [(f.name, ⟨.list ps, f.isIndexed⟩)]
  | entries {item : FieldType} {entries : List (String × Value)}
      {pairs : List (String × Property)} :
      f.type = .map item → encodeEntries catalog f.name item f.isIndexed entries = .ok pairs →
      Encodes catalog f (.map entries) pairs
  | record {ref : Nat} {fields : List Value} {pairs : List (String × Property)} :
      f.type = .record ref → (catalog.schema ref).checkFieldNames = .ok () →
      encodeFields catalog ((catalog.schema ref).storedFields none) fields = .ok pairs →
      Encodes catalog f (.record fields)
        [(f.name, ⟨.entity (Entries.ofPairs pairs), f.isIndexed⟩)]
  | whole {v : Value} {p : Property} : v.isNull = false →
      (∀ item items, f.type = .list item → v ≠ .list items) →
      encodeWhole f.type f.isIndexed v = .ok p → Encodes catalog f v [(f.name, p)]

theorem encodeField_encodes {f : Field} {v : Value} {pairs : List (String × Property)}
    (h : encodeField catalog f v = .ok pairs) : f.Encodes catalog v pairs := by
  have whole : ∀ {v : Value}, v.isNull = false →
      (∀ item items, f.type = .list item → v ≠ .list items) →
      (do .ok [(f.name, ← encodeWhole f.type f.isIndexed v)]) = Except.ok (ε := Error) pairs →
      f.Encodes catalog v pairs := by
    intro v some list h
    obtain ⟨p, hp, h⟩ := bind_eq_ok.1 h
    rw [← Except.ok.inj h]
    exact .whole some list hp
  cases v with
  | null =>
    cases h
    exact .null
  | list items =>
    rw [encodeField] at h
    split at h
    next item htype =>
      cases items with
      | nil =>
        cases h
        exact .noItems htype
      | cons v vs =>
        obtain ⟨ps, hps, h⟩ := bind_eq_ok.1 h
        rw [← Except.ok.inj h]
        exact .items htype hps
    next htype => exact whole rfl (fun item _ hitem => absurd hitem (htype item)) h
  | map entries =>
    rw [encodeField] at h
    split at h
    next item htype => exact .entries htype h
    next => exact whole rfl (fun _ _ _ => nofun) h
  | record fields =>
    rw [encodeField] at h
    split at h
    next ref htype =>
      obtain ⟨_, hcheck, h⟩ := bind_eq_ok.1 h
      obtain ⟨ps, hps, h⟩ := bind_eq_ok.1 h
      rw [← Except.ok.inj h]
      exact .record htype hcheck hps
    next => exact whole rfl (fun _ _ _ => nofun) h
  | _ => exact whole rfl (fun _ _ _ => nofun) h

/-- This is nothing, one property under the field's name, or the entries of a
map. -/
theorem encodeField_cases {f : Field} {v : Value} {pairs : List (String × Property)}
    (h : encodeField catalog f v = .ok pairs) :
    pairs = [] ∨ (∃ p, pairs = [(f.name, p)]) ∨
      ∃ item entries, f.type = .map item ∧ v = .map entries ∧
        encodeEntries catalog f.name item f.isIndexed entries = .ok pairs := by
  cases encodeField_encodes h with
  | null | noItems => exact .inl rfl
  | entries htype hentries => exact .inr (.inr ⟨_, _, htype, rfl, hentries⟩)
  | items | record | whole => exact .inr (.inl ⟨_, rfl⟩)

/-- Nulls and empty lists apart, a value that is no map is one property. -/
theorem encodeField_eq_singleton {f : Field} {v : Value} {pairs : List (String × Property)}
    (h : encodeField catalog f v = .ok pairs) (unmapped : ∀ item, f.type ≠ .map item)
    (some : v ≠ .null) (filled : v ≠ .list []) : ∃ p, pairs = [(f.name, p)] := by
  cases encodeField_encodes h with
  | null => exact absurd rfl some
  | noItems => exact absurd rfl filled
  | entries htype => exact absurd htype (unmapped _)
  | items | record | whole => exact ⟨_, rfl⟩

theorem encodeEntries_cons_eq_ok {field entry : String} {item : FieldType} {indexed : Bool}
    {v : Value} {entries : List (String × Value)} {pairs : List (String × Property)} :
    encodeEntries catalog field item indexed ((entry, v) :: entries) = .ok pairs ↔
      isBlank entry = false ∧ ∃ p ps, encodeElement catalog item indexed v = .ok p ∧
        encodeEntries catalog field item indexed entries = .ok ps ∧
        pairs = (flattenedName field entry, p) :: ps := by
  rw [encodeEntries]
  cases isBlank entry with
  | true => simp [bind_eq_ok]
  | false =>
    simp only [Bool.false_eq_true, if_false, bind_eq_ok, Except.ok.injEq, true_and]
    constructor
    · rintro ⟨p, hp, ps, hps, rfl⟩
      exact ⟨p, ps, hp, hps, rfl⟩
    · rintro ⟨p, ps, hp, hps, rfl⟩
      exact ⟨p, hp, ps, hps, rfl⟩

/-- The entries of a map keep their order, and none has a blank name. -/
theorem encodeEntries_names {field : String} {item : FieldType} {indexed : Bool}
    {entries : List (String × Value)} {pairs : List (String × Property)}
    (h : encodeEntries catalog field item indexed entries = .ok pairs) :
    pairs.map Prod.fst = (entries.map Prod.fst).map (flattenedName field) ∧
      ∀ name ∈ entries.map Prod.fst, isBlank name = false := by
  induction entries generalizing pairs with
  | nil =>
    cases h
    simp
  | cons e entries ih =>
    obtain ⟨hb, p, ps, -, hps, rfl⟩ := encodeEntries_cons_eq_ok.1 h
    obtain ⟨hnames, hblank⟩ := ih hps
    refine ⟨?_, List.forall_mem_cons.2 ⟨hb, hblank⟩⟩
    rw [List.map_cons, hnames]
    rfl

/-! ## Slots -/

/-- The fields that may be stored, each with its value. A value that is missing
is null. -/
def Record.slots : List (Option Field) → Record → List (Field × Value)
  | [], _ => []
  | none :: fs, r => slots fs r.tail
  | some f :: fs, r => (f, r.headD .null) :: slots fs r.tail

namespace Record

variable {fs : List (Option Field)} {r : Record} {f : Field} {v : Value}
  {pairs : List (String × Property)}

/-- Each slot is a field with the value at its place. -/
theorem mem_slots_iff : (f, v) ∈ slots fs r ↔
    ∃ i : Nat, fs[i]? = some (some f) ∧ (r[i]?).getD .null = v := by
  induction fs generalizing r with
  | nil => simp [slots]
  | cons g fs ih =>
    have head : r.headD .null = (r[0]?).getD .null := by cases r <;> rfl
    have tail : ∀ i : Nat, r.tail[i]? = r[i + 1]? := fun i => by cases r <;> rfl
    -- The field is the first one or a later one.
    rw [← Nat.or_exists_add_one]
    cases g with
    | none => simp [slots, ih, tail]
    | some g => simp [slots, ih, tail, head, eq_comm, -List.headD_eq_head?_getD]

/-- **Fields are stored one after the other**, each as what its value is stored
as. -/
theorem encodeFields_eq_ok_iff :
    encodeFields catalog fs r = .ok pairs ↔
      ∃ parts, List.Forall₂ (fun slot part => encodeField catalog slot.1 slot.2 = .ok part)
        (slots fs r) parts ∧ pairs = parts.flatten := by
  induction fs generalizing r pairs with
  | nil =>
    have nothing : encodeFields catalog [] r = .ok [] := by cases r <;> rfl
    simp [nothing, slots, eq_comm]
  | cons g fs ih =>
    cases g with
    | none =>
      have skip : encodeFields catalog (none :: fs) r = encodeFields catalog fs r.tail := by
        cases r <;> simp [encodeFields]
      rw [skip]
      exact ih
    | some g =>
      -- A value that is missing adds nothing, as null does.
      have step : encodeFields catalog (some g :: fs) r = (do
          let here ← encodeField catalog g (r.headD .null)
          let rest ← encodeFields catalog fs r.tail
          .ok (here ++ rest)) := by
        cases r with
        | nil => rw [List.headD_nil, encodeField, List.tail_nil, encodeFields, encodeFields]; rfl
        | cons v r => rw [encodeFields]; rfl
      rw [step]
      simp only [slots, List.forall₂_cons_left_iff, bind_eq_ok, ih]
      constructor
      · rintro ⟨here, hhere, _, ⟨parts, hparts, rfl⟩, h⟩
        exact ⟨here :: parts, ⟨here, parts, hhere, hparts, rfl⟩, (Except.ok.inj h).symm⟩
      · rintro ⟨_, ⟨here, parts, hhere, hparts, rfl⟩, rfl⟩
        exact ⟨here, hhere, _, ⟨parts, hparts, rfl⟩, rfl⟩

/-- A slot is stored as a part of what the record is. -/
theorem exists_part_of_mem_slots (h : encodeFields catalog fs r = .ok pairs)
    (hslot : (f, v) ∈ slots fs r) : ∃ part, encodeField catalog f v = .ok part ∧ part ⊆ pairs := by
  obtain ⟨parts, hparts, rfl⟩ := encodeFields_eq_ok_iff.1 h
  clear h
  generalize slots fs r = slots at hparts hslot
  induction hparts with
  | nil => cases hslot
  | cons hpart _ ih =>
    rcases List.mem_cons.1 hslot with rfl | hslot
    · exact ⟨_, hpart, List.subset_append_left _ _⟩
    · obtain ⟨part, hpart, sub⟩ := ih hslot
      exact ⟨part, hpart, List.Subset.trans sub (List.subset_append_right _ _)⟩

/-- And nothing is stored that is part of no slot. -/
theorem exists_slot_of_mem (h : encodeFields catalog fs r = .ok pairs) {p : String × Property}
    (hp : p ∈ pairs) :
    ∃ slot ∈ slots fs r, ∃ part, encodeField catalog slot.1 slot.2 = .ok part ∧ p ∈ part := by
  obtain ⟨parts, hparts, rfl⟩ := encodeFields_eq_ok_iff.1 h
  clear h
  generalize slots fs r = slots at hparts
  induction hparts with
  | nil => cases hp
  | cons hpart _ ih =>
    rcases List.mem_append.1 hp with hp | hp
    · exact ⟨_, List.mem_cons_self, _, hpart, hp⟩
    · obtain ⟨slot, hslot, found⟩ := ih hp
      exact ⟨slot, List.mem_cons_of_mem _ hslot, found⟩

end Record

/-! ## All fields -/

/-- What the field with its mark is stored as. -/
def storedField? (m : Field × Bool) : Option Field := if m.2 then some m.1 else none

/-- Marked fields that stand at the end of a schema, beside their
values. -/
structure Schema.Ends (catalog : Catalog) (nullable : FieldType → Prop) (s : Schema)
    (before : List Field) (marks : List (Field × Bool)) (vs : List Value) : Prop where
  sound : catalog.Sound s
  check : s.checkFieldNames = .ok ()
  fields : s.fields = before ++ marks.map Prod.fst
  persisted : ∀ m ∈ marks, m.2 = true → m.1.isPersisted = true
  length : vs.length = marks.length
  values : ∀ p ∈ (marks.map Prod.fst).zip vs, p.2.Conforms catalog nullable p.1.type

namespace Schema.Ends

variable {s : Schema} {before : List Field} {m : Field × Bool} {marks : List (Field × Bool)}
  {v : Value} {vs : List Value}

theorem stores (h : s.Ends catalog nullable before (m :: marks) (v :: vs)) (hm : m.2 = true) :
    s.Stores catalog before m.1 (marks.map Prod.fst) :=
  ⟨h.sound, h.check, h.fields, h.persisted m List.mem_cons_self hm⟩

theorem head (h : s.Ends catalog nullable before (m :: marks) (v :: vs)) :
    v.Conforms catalog nullable m.1.type :=
  h.values (m.1, v) List.mem_cons_self

theorem tail (h : s.Ends catalog nullable before (m :: marks) (v :: vs)) :
    s.Ends catalog nullable (before ++ [m.1]) marks vs where
  sound := h.sound
  check := h.check
  fields := by rw [h.fields]; simp
  persisted x hx := h.persisted x (List.mem_cons_of_mem _ hx)
  length := Nat.succ.inj h.length
  values p hp := h.values p (List.mem_cons_of_mem _ hp)

end Schema.Ends

/-! ## The fields of a schema -/

namespace Schema

variable {s : Schema} {r : Record} {keyIndex : Option Nat} {i : Nat} {f : Field}

theorem storedFields_eq (s : Schema) (keyIndex : Option Nat) :
    s.storedFields keyIndex = (s.marked keyIndex).map storedField? := by
  simp [storedFields, marked, storedField?, Function.comp_def]

theorem getElem?_storedFields (s : Schema) (keyIndex : Option Nat) (i : Nat) :
    (s.storedFields keyIndex)[i]? =
      (s.fields[i]?).map fun f => if f.isPersisted && some i != keyIndex then some f else none := by
  simp [storedFields, List.getElem?_zipIdx, Function.comp_def]

/-- A field is stored at its place if it is persisted and not the key. -/
theorem getElem?_storedFields_eq_some_iff :
    (s.storedFields keyIndex)[i]? = some (some f) ↔
      s.fields[i]? = some f ∧ f.isPersisted = true ∧ keyIndex ≠ some i := by
  rw [getElem?_storedFields, Option.map_eq_some_iff]
  constructor
  · rintro ⟨g, hg, hstored⟩
    split at hstored
    next hmark =>
      cases hstored
      obtain ⟨hpersisted, hkey⟩ := Bool.and_eq_true_iff.1 hmark
      exact ⟨hg, hpersisted, (bne_iff_ne.1 hkey).symm⟩
    next => cases hstored
  · rintro ⟨hf, hpersisted, hkey⟩
    exact ⟨f, hf, if_pos (Bool.and_eq_true_iff.2 ⟨hpersisted, bne_iff_ne.2 hkey.symm⟩)⟩

theorem zeros_eq (s : Schema) (keyIndex : Option Nat) :
    s.zeros = (s.marked keyIndex).map fun m => m.1.type.zero := by
  rw [zeros, ← s.map_fst_marked keyIndex, List.map_map]
  rfl

/-- All fields of a schema stand at its end. -/
theorem ends_marked (hs : catalog.Sound s) (hc : s.checkFieldNames = .ok ())
    (hl : r.length = s.fields.length)
    (hv : ∀ p ∈ s.fields.zip r, p.2.Conforms catalog nullable p.1.type) (keyIndex : Option Nat) :
    s.Ends catalog nullable [] (s.marked keyIndex) r where
  sound := hs
  check := hc
  fields := by rw [map_fst_marked, List.nil_append]
  persisted m hm h := by
    obtain ⟨⟨f, i⟩, -, rfl⟩ := List.mem_map.1 hm
    exact (Bool.and_eq_true_iff.1 h).1
  length := by rw [hl, ← s.map_fst_marked keyIndex, List.length_map]
  values := by
    rw [map_fst_marked]
    exact hv

/-- An entity has the key of its record, and the properties that the fields
are stored as. -/
theorem encode_eq_ok {e : Entity} (h : s.encode catalog r = .ok e) :
    s.checkFieldNames = .ok () ∧ ∃ pairs, encodeFields catalog (s.storedFields s.keyIndex?) r =
      .ok pairs ∧ e = ⟨s.recordKey? r, Entries.ofPairs pairs⟩ := by
  obtain ⟨_, hcheck, h⟩ := bind_eq_ok.1 h
  obtain ⟨pairs, hpairs, h⟩ := bind_eq_ok.1 h
  exact ⟨hcheck, pairs, hpairs, (Except.ok.inj h).symm⟩

variable {e : Entity}

/-- The key of a record is the one its key field names. -/
theorem key_of_encode {name : String} (hindex : s.keyIndex? = some i)
    (h : s.encode catalog r = .ok e) (hr : r[i]? = some (.text name))
    (hname : isBlank name = false) : e.key = some ⟨s.name, name⟩ := by
  obtain ⟨-, pairs, -, rfl⟩ := encode_eq_ok h
  simp [recordKey?, hindex, Record.get?, hr, hname]

/-- A record without a text for its key, or with a blank one, has none. -/
theorem key_eq_none_of_encode (hindex : s.keyIndex? = some i) (h : s.encode catalog r = .ok e)
    (hblank : ∀ name, r[i]? = some (.text name) → isBlank name = true) : e.key = none := by
  obtain ⟨-, pairs, -, rfl⟩ := encode_eq_ok h
  simp only [recordKey?, hindex, Option.bind_some, Record.get?]
  split
  next name hname => rw [if_pos (hblank name hname)]
  next => rfl

end Schema

end KindQuery
