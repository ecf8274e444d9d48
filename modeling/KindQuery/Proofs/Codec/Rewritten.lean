import KindQuery.Proofs.Codec.Data
import KindQuery.Proofs.Codec.Decoded
import KindQuery.Proofs.Query.Parameters
/-!
# Writing back what was read

Whatever is decoded can be encoded again up to what lists and maps hold. A field
of maps is stored entry by entry, and one without a record is not stored; an item
of a list and an entry of a map have to become one property, which a map never
does. `Value.Holds` lists what is stored in this way at every depth, and a decoded
record can be written back just if all of it fits
(`Schema.exists_encode_iff_of_decode`). Nothing else can go wrong: the entries of
decoded maps have names, and a value that is decoded is one of its type.
-/

namespace KindQuery

variable {catalog : Catalog} {nullable : FieldType → Prop}

/-! ## Items -/

/-- **What fits into a list or a map** whose items are of a type: no map, a record
that is there, and of the other types what can travel. -/
def Value.FitsItem (v : Value) : FieldType → Prop
  | .map _ => False
  | .record _ => v ≠ .null
  | _ => v.travels = true

/-- **What lists and maps hold**: the items of a value of a type, and what is held
in the stored fields of records. -/
inductive Value.Holds (catalog : Catalog) : FieldType → Value → FieldType → Value → Prop
  | item {type : FieldType} {items : List Value} {w : Value} :
      w ∈ items → Holds catalog (.list type) (.list items) type w
  | entry {type : FieldType} {entries : List (String × Value)} {e : String × Value} :
      e ∈ entries → Holds catalog (.map type) (.map entries) type e.2
  | inItem {ref : Nat} {items fields : List Value} {type : FieldType} {w : Value} :
      .record fields ∈ items → Holds catalog (.record ref) (.record fields) type w →
      Holds catalog (.list (.record ref)) (.list items) type w
  | inEntry {ref : Nat} {entries : List (String × Value)} {name : String} {fields : List Value}
      {type : FieldType} {w : Value} :
      (name, .record fields) ∈ entries → Holds catalog (.record ref) (.record fields) type w →
      Holds catalog (.map (.record ref)) (.map entries) type w
  | field {ref : Nat} {fields : List Value} {slot : Field × Value} {type : FieldType} {w : Value} :
      slot ∈ Record.slots ((catalog.schema ref).storedFields none) fields →
      Holds catalog slot.1.type slot.2 type w →
      Holds catalog (.record ref) (.record fields) type w

/-- What lists and maps hold in the stored fields of a record. -/
def Schema.Holds (catalog : Catalog) (s : Schema) (r : Record) (type : FieldType) (w : Value) :
    Prop :=
  ∃ slot ∈ Record.slots (s.storedFields s.keyIndex?) r,
    Value.Holds catalog slot.1.type slot.2 type w

namespace Value

variable {type item : FieldType} {v : Value}

/-- All that lists and maps hold fits. -/
def AllFit (catalog : Catalog) (type : FieldType) (v : Value) : Prop :=
  ∀ t w, Holds catalog type v t w → w.FitsItem t

/-- A value fits, and so does what it holds if it is a record. -/
def IsItem (catalog : Catalog) (type : FieldType) (v : Value) : Prop :=
  v.FitsItem type ∧ ∀ fields, v = .record fields → v.AllFit catalog type

theorem allFit_list_iff {items : List Value} :
    AllFit catalog (.list item) (.list items) ↔ ∀ w ∈ items, w.IsItem catalog item := by
  constructor
  · intro fit w hw
    refine ⟨fit item w (.item hw), ?_⟩
    rintro fields rfl t w' held
    cases held with
    | field hslot held => exact fit t w' (.inItem hw (.field hslot held))
  · intro items t w held
    cases held with
    | item hw => exact (items w hw).1
    | inItem hw held => exact (items _ hw).2 _ rfl t w held

theorem allFit_map_iff {entries : List (String × Value)} :
    AllFit catalog (.map item) (.map entries) ↔ ∀ e ∈ entries, e.2.IsItem catalog item := by
  constructor
  · intro fit e he
    refine ⟨fit item e.2 (.entry he), ?_⟩
    obtain ⟨name, w⟩ := e
    rintro fields ⟨⟩ t w' held
    cases held with
    | field hslot held => exact fit t w' (.inEntry he (.field hslot held))
  · intro items t w held
    cases held with
    | entry he => exact (items _ he).1
    | inEntry he held => exact (items _ he).2 _ rfl t w held

theorem allFit_record_iff {ref : Nat} {fields : List Value} :
    AllFit catalog (.record ref) (.record fields) ↔
      ∀ slot ∈ Record.slots ((catalog.schema ref).storedFields none) fields,
        slot.2.AllFit catalog slot.1.type := by
  constructor
  · intro fit slot hslot t w held
    exact fit t w (.field hslot held)
  · intro fit t w held
    cases held with
    | field hslot held => exact fit _ hslot t w held

end Value

/-! ## What can be encoded -/

section Encode

variable {type item : FieldType} {indexed : Bool} {v : Value}

theorem exists_encodeItems_iff {items : List Value} :
    (∃ ps, encodeItems catalog item indexed items = .ok ps) ↔
      ∀ v ∈ items, ∃ p, encodeElement catalog item indexed v = .ok p := by
  induction items with
  | nil => simp [encodeItems]
  | cons v items ih =>
    rw [List.forall_mem_cons, ← ih]
    simp only [encodeItems, bind_eq_ok, Except.ok.injEq]
    constructor
    · rintro ⟨_, p, hp, ps, hps, -⟩
      exact ⟨⟨p, hp⟩, ps, hps⟩
    · rintro ⟨⟨p, hp⟩, ps, hps⟩
      exact ⟨_, p, hp, ps, hps, rfl⟩

theorem exists_encodeEntries_iff {field : String} {entries : List (String × Value)}
    (named : ∀ e ∈ entries, isBlank e.1 = false) :
    (∃ ps, encodeEntries catalog field item indexed entries = .ok ps) ↔
      ∀ e ∈ entries, ∃ p, encodeElement catalog item indexed e.2 = .ok p := by
  induction entries with
  | nil => simp [encodeEntries]
  | cons e entries ih =>
    obtain ⟨entry, v⟩ := e
    rw [List.forall_mem_cons] at named
    rw [List.forall_mem_cons, ← ih named.2]
    constructor
    · rintro ⟨_, h⟩
      obtain ⟨-, p, ps, hp, hps, -⟩ := encodeEntries_cons_eq_ok.1 h
      exact ⟨⟨p, hp⟩, ps, hps⟩
    · rintro ⟨⟨p, hp⟩, ps, hps⟩
      exact ⟨_, encodeEntries_cons_eq_ok.2 ⟨named.1, p, ps, hp, hps, rfl⟩⟩

theorem exists_encodeFields_iff {fs : List (Option Field)} {r : Record} :
    (∃ pairs, encodeFields catalog fs r = .ok pairs) ↔
      ∀ slot ∈ Record.slots fs r, ∃ part, encodeField catalog slot.1 slot.2 = .ok part := by
  constructor
  · rintro ⟨pairs, h⟩ slot hslot
    obtain ⟨part, hpart, -⟩ := Record.exists_part_of_mem_slots h hslot
    exact ⟨part, hpart⟩
  · intro each
    have parts : List.Forall₂ (fun slot part => encodeField catalog slot.1 slot.2 = .ok part)
        (Record.slots fs r) ((Record.slots fs r).map fun slot =>
          (encodeField catalog slot.1 slot.2).toOption.getD []) := by
      rw [List.forall₂_map_right_iff, List.forall₂_same]
      intro slot hslot
      obtain ⟨part, hpart⟩ := each slot hslot
      rw [hpart]
      rfl
    exact ⟨_, Record.encodeFields_eq_ok_iff.2 ⟨_, parts, rfl⟩⟩

end Encode

/-! ## Checked schemas and named entries -/

/-- The schemas at every nesting level have passed the check of their names. -/
def Catalog.Checked (catalog : Catalog) (s : Schema) : Prop :=
  ∀ s', catalog.Nested s s' → s'.checkFieldNames = .ok ()

theorem Catalog.Checked.field {s : Schema} {f : Field} (h : catalog.Checked s) (hf : f ∈ s.fields) :
    ∀ ref ∈ f.type.refs, catalog.Checked (catalog.schema ref) :=
  fun _ href s' hs' => h s' ((Nested.field .self hf href).trans hs')

/-- Has the value parts that may be maps? -/
def Value.isWhole : Value → Bool
  | .list _ | .map _ | .record _ => false
  | _ => true

/-- **No entry of a map has a blank name**, at any depth. -/
inductive Value.Named : Value → Prop
  | whole {v : Value} : v.isWhole = true → Named v
  | list {items : List Value} : (∀ v ∈ items, Named v) → Named (.list items)
  | map {entries : List (String × Value)} : (∀ e ∈ entries, KindQuery.isBlank e.1 = false) →
      (∀ e ∈ entries, Named e.2) → Named (.map entries)
  | record {fields : List Value} : (∀ v ∈ fields, Named v) → Named (.record fields)

theorem FieldType.zero_named (type : FieldType) : type.zero.Named := by
  cases type with
  | list => exact .list (List.forall_mem_nil _)
  | map => exact .map (List.forall_mem_nil _) (List.forall_mem_nil _)
  | enum variants =>
    rw [zero]
    split <;> exact .whole rfl
  | _ => exact .whole rfl

/-- A value of a type without parts has none. -/
theorem Value.Conforms.named {type : FieldType} {v : Value}
    (h : v.Conforms catalog nullable type) (scalar : type.isScalar = true) : v.Named := by
  cases h with
  | list | map | record => cases scalar
  | _ => exact .whole rfl

theorem insertEntry_named {old : Option Value} {name : String} {v : Value}
    (hold : ∀ w, old = some w → w.Named) (hname : isBlank name = false) (hv : v.Named) :
    (insertEntry name v old).Named := by
  unfold insertEntry
  split
  next entries =>
    cases hold _ rfl with
    | whole h => cases h
    | map names values =>
      refine .map (fun e he => ?_) fun e he => ?_
      · rcases Entries.mem_insert he with he | rfl
        · exact names e he
        · exact hname
      · rcases Entries.mem_insert he with he | rfl
        · exact values e he
        · exact hv
  next => exact .map (by simpa using hname) (by simpa using hv)

/-- An entry that a property is put under has a name. -/
theorem Schema.isBlank_of_target {s : Schema} {name entry : String} {i : Nat} {item : FieldType}
    (h : s.target name = .ok (.entry i item entry)) : isBlank entry = false := by
  obtain ⟨-, f, hsplit, -, -⟩ := target_eq_entry_iff.1 h
  unfold splitFlattened? at hsplit
  split at hsplit
  · cases hsplit
  · dsimp only at hsplit
    split at hsplit
    next => cases hsplit
    next named =>
      rw [Bool.or_eq_true, not_or, Bool.not_eq_true, Bool.not_eq_true] at named
      rw [← (Prod.mk.inj (Option.some.inj hsplit)).2]
      exact named.2

theorem Schema.zeros_named (s : Schema) : ∀ v ∈ s.zeros, v.Named := by
  intro v hv
  obtain ⟨f, -, rfl⟩ := List.mem_map.1 hv
  exact f.type.zero_named

mutual

/-- **A wire value is loaded with names** for all entries of maps. -/
theorem toValue_named : ∀ (w : Wire) {type : FieldType} {v : Value},
    Wire.toValue catalog type w = .ok v → v.Named
  | .null, type, _, h => by
    cases h
    exact type.zero_named
  | .boolean _, type, _, h => by
    cases type <;> cases h
    exact .whole rfl
  | .timestamp _, type, _, h => by
    cases type <;> cases h
    exact .whole rfl
  | .key _, type, _, h => by
    cases type <;> cases h
    exact .whole rfl
  | .integer n, type, v, h => by
    have conforms : v.Conforms catalog (fun _ => False) type := decodeInteger_conforms h
    exact conforms.named (by cases type <;> first | rfl | cases h)
  | .double x, type, v, h => by
    have conforms : v.Conforms catalog (fun _ => False) type := decodeDouble_conforms h
    exact conforms.named (by cases type <;> first | rfl | cases h)
  | .text s, type, v, h => by
    have conforms : v.Conforms catalog (fun _ => False) type := decodeText_conforms h
    exact conforms.named (by cases type <;> first | rfl | cases h)
  | .blob s, type, v, h => by
    have conforms : v.Conforms catalog (fun _ => False) type := decodeBlob_conforms h
    exact conforms.named (by cases type <;> first | rfl | cases h)
  | .entity bag, type, _, h => by
    cases type with
    | record ref =>
      obtain ⟨r, hr, hv⟩ := bind_eq_ok.1 h
      cases hv
      exact .record (decodeBag_named bag (Schema.zeros_named _) hr)
    | _ => cases h
  | .list items, type, _, h => by
    cases type with
    | list item =>
      obtain ⟨vs, hvs, hv⟩ := bind_eq_ok.1 h
      cases hv
      exact .list (decodeItems_named items hvs)
    | _ => cases h

theorem decodeItems_named : ∀ (ps : List Property) {item : FieldType} {vs : List Value},
    decodeItems catalog item ps = .ok vs → ∀ v ∈ vs, v.Named
  | [], _, _, h => by
    cases h
    exact nofun
  | ⟨w, _⟩ :: ps, item, vs, h => by
    obtain ⟨a, ha, h⟩ := bind_eq_ok.1 h
    obtain ⟨as, has, h⟩ := bind_eq_ok.1 h
    cases h
    exact List.forall_mem_cons.2 ⟨toValue_named w ha, decodeItems_named ps has⟩

theorem decodeBag_named : ∀ (bag : List (String × Property)) {s : Schema} {r r' : Record},
    (∀ v ∈ r, v.Named) → decodeBag catalog s r bag = .ok r' → ∀ v ∈ r', v.Named
  | [], _, _, _, hr, h => by
    cases h
    exact hr
  | (_, ⟨w, _⟩) :: bag, s, r, r', hr, h => by
    have filled : ∀ {i : Nat} {a : Value}, a.Named → ∀ v ∈ r.set i a, v.Named := by
      intro i a ha v hv
      rcases List.mem_or_eq_of_mem_set hv with hv | rfl
      · exact hr v hv
      · exact ha
    rcases decodeBag_cons_eq_ok h with ⟨-, h⟩ | ⟨i, f, a, -, -, ha, h⟩ |
      ⟨i, f, item, entry, a, -, -, ht, ha, h⟩
    · exact decodeBag_named bag hr h
    · exact decodeBag_named bag (filled (toValue_named w ha)) h
    · refine decodeBag_named bag (filled ?_) h
      exact insertEntry_named (fun v hv => hr v (List.mem_of_getElem? hv))
        (Schema.isBlank_of_target ht) (toValue_named w ha)

end

/-! ## Decoded values -/

section Decoded

variable {type item : FieldType} {v : Value}

/-- What stands in a slot belongs to a field that is stored. -/
theorem Record.Conforms.slot {s : Schema} {r : Record} {keyIndex : Option Nat}
    (h : Record.Conforms catalog nullable s r) {slot : Field × Value}
    (hslot : slot ∈ slots (s.storedFields keyIndex) r) :
    slot.1 ∈ s.fields ∧ slot.1.isPersisted = true ∧ slot.2 ∈ r ∧ slot ∈ s.fields.zip r := by
  obtain ⟨i, stored, hv⟩ := mem_slots_iff.1 hslot
  obtain ⟨hf, persisted, -⟩ := Schema.getElem?_storedFields_eq_some_iff.1 stored
  have hi : i < r.length := by
    rw [h.length]
    exact (List.getElem?_eq_some_iff.1 hf).1
  have value : r[i]? = some slot.2 := by
    rw [List.getElem?_eq_getElem hi] at hv ⊢
    exact congrArg some hv
  exact ⟨List.mem_of_getElem? hf, persisted, List.mem_of_getElem? value,
    List.mem_of_getElem? (List.getElem?_zip_eq_some.2 ⟨hf, value⟩)⟩

/-- **When a value can be written**: as a field just if all that it holds fits, and
as an item just if it fits itself as well. -/
structure Value.IsWritten (catalog : Catalog) (type : FieldType) (v : Value) : Prop where
  field : ∀ f : Field, f.type = type →
    ((∃ pairs, encodeField catalog f v = .ok pairs) ↔ v.AllFit catalog type)
  item : ∀ indexed, (∃ p, encodeElement catalog type indexed v = .ok p) ↔ v.IsItem catalog type

namespace Value

/-- A record is stored if its slots are, in a field or as an item. -/
theorem isWritten_record {ref : Nat} {fields : List Value}
    (check : (catalog.schema ref).checkFieldNames = .ok ())
    (slots : ∀ slot ∈ Record.slots ((catalog.schema ref).storedFields none) fields,
      slot.2.IsWritten catalog slot.1.type) :
    IsWritten catalog (.record ref) (.record fields) := by
  have each : (∃ pairs, encodeFields catalog ((catalog.schema ref).storedFields none) fields =
      .ok pairs) ↔ AllFit catalog (.record ref) (.record fields) := by
    rw [exists_encodeFields_iff, allFit_record_iff]
    exact forall₂_congr fun slot hslot => (slots slot hslot).field slot.1 rfl
  constructor
  · intro f hf
    rw [← each]
    simp [encodeField, hf, check, bind_eq_ok]
  · intro indexed
    have fits : IsItem catalog (.record ref) (.record fields) ↔
        AllFit catalog (.record ref) (.record fields) := by
      constructor
      · intro whole
        exact whole.2 fields rfl
      · intro fit
        refine ⟨fun missing => ?_, fun _ _ => fit⟩
        cases missing
    rw [fits, ← each]
    simp [encodeElement, check, bind_eq_ok]

/-- Under a type that is neither of maps nor of records a value is stored as it
travels. -/
theorem exists_encodeWhole_iff (map : ∀ item, type ≠ .map item)
    (record : ∀ ref, type ≠ .record ref) (indexed : Bool) :
    (∃ p, encodeWhole type indexed v = .ok p) ↔ v.travels = true := by
  rw [← exists_toWire_eq_ok]
  cases type with
  | map item => exact absurd rfl (map item)
  | record ref => exact absurd rfl (record ref)
  | _ => simp [encodeWhole, bind_eq_ok]

theorem exists_encodeElement_iff (map : ∀ item, type ≠ .map item)
    (record : ∀ ref, type ≠ .record ref) (noRecord : ∀ fields, v ≠ .record fields)
    (indexed : Bool) :
    (∃ p, encodeElement catalog type indexed v = .ok p) ↔ v.IsItem catalog type := by
  have fits : v.FitsItem type ↔ v.travels = true := by
    cases type with
    | map item => exact absurd rfl (map item)
    | record ref => exact absurd rfl (record ref)
    | _ => exact Iff.rfl
  have whole : encodeElement catalog type indexed v = encodeWhole type indexed v := by
    cases v with
    | record fields => exact absurd rfl (noRecord fields)
    | _ => rw [encodeElement]; exact nofun
  rw [IsItem, and_iff_left fun fields hv => absurd hv (noRecord fields), fits, whole,
    exists_encodeWhole_iff map record]

/-- A value without parts is stored in a field of its type, and as an item. -/
theorem isWritten_scalar (scalar : type.isScalar = true) (whole : v.isWhole = true) :
    v.IsWritten catalog type := by
  have map : ∀ item, type ≠ .map item := by
    rintro item rfl
    cases scalar
  have record : ∀ ref, type ≠ .record ref := by
    rintro ref rfl
    cases scalar
  have noRecord : ∀ fields, v ≠ .record fields := by
    rintro fields rfl
    cases whole
  refine ⟨fun f hf => ?_, exists_encodeElement_iff map record noRecord⟩
  have fit : v.AllFit catalog type := by
    intro t w held
    cases held <;> cases scalar
  have travels : v.travels = true := by cases v <;> first | rfl | cases whole
  obtain ⟨p, hp⟩ : ∃ p, encodeWhole f.type f.isIndexed v = .ok p := by
    rw [hf]
    exact (exists_encodeWhole_iff map record f.isIndexed).2 travels
  refine iff_of_true ?_ fit
  cases v with
  | null => exact ⟨[], rfl⟩
  | list | map | record => cases whole
  | _ => exact ⟨_, bind_eq_ok.2 ⟨p, hp, rfl⟩⟩

theorem isWritten_list {items : List Value} (each : ∀ v ∈ items, v.IsWritten catalog item) :
    IsWritten catalog (.list item) (.list items) := by
  constructor
  · intro f hf
    have stored : (∃ pairs, encodeField catalog f (.list items) = .ok pairs) ↔
        ∃ ps, encodeItems catalog item f.isIndexed items = .ok ps := by
      cases items with
      | nil => simp [encodeField, encodeItems, hf]
      | cons v items => simp [encodeField, hf, bind_eq_ok]
    rw [stored, exists_encodeItems_iff, allFit_list_iff]
    exact forall₂_congr fun v hv => (each v hv).item f.isIndexed
  · apply exists_encodeElement_iff <;> simp

/-- A map is stored in a field of maps only. -/
theorem isWritten_map {entries : List (String × Value)}
    (named : ∀ e ∈ entries, KindQuery.isBlank e.1 = false)
    (each : ∀ e ∈ entries, e.2.IsWritten catalog item) :
    IsWritten catalog (.map item) (.map entries) := by
  constructor
  · intro f hf
    have stored : encodeField catalog f (.map entries) =
        encodeEntries catalog f.name item f.isIndexed entries := by simp [encodeField, hf]
    rw [stored, exists_encodeEntries_iff named, allFit_map_iff]
    exact forall₂_congr fun e he => (each e he).item f.isIndexed
  · intro indexed
    exact ⟨fun ⟨_, h⟩ => (nomatch h), fun h => h.1.elim⟩

/-- Where there is no record, a field has nothing to store, and an item is missing. -/
theorem isWritten_noRecord {ref : Nat} : IsWritten catalog (.record ref) .null where
  field _ _ := ⟨fun _ _ _ held => (nomatch held), fun _ => ⟨[], rfl⟩⟩
  item _ := ⟨fun ⟨_, h⟩ => (nomatch h), fun h => (h.1 rfl).elim⟩

/-- **A decoded value is written** just if what it holds fits. -/
theorem Conforms.isWritten (h : v.Conforms catalog FieldType.IsNullable type) (named : v.Named)
    (checked : ∀ ref ∈ type.refs, catalog.Checked (catalog.schema ref)) :
    v.IsWritten catalog type := by
  induction h with
  | list _ ih =>
    cases named with
    | whole h => cases h
    | list named => exact isWritten_list fun v hv => ih v hv (named v hv) checked
  | map _ _ ih =>
    cases named with
    | whole h => cases h
    | map names named =>
      exact isWritten_map names fun e he => ih e he (named e he) checked
  | @record ref fields length values ih =>
    cases named with
    | whole h => cases h
    | record named =>
      have sound := checked ref List.mem_cons_self
      refine isWritten_record (sound _ .self) fun slot hslot => ?_
      obtain ⟨hf, -, hv, member⟩ := Record.Conforms.slot ⟨length, values⟩ hslot
      exact ih slot member (named slot.2 hv) (sound.field hf)
  | @null type nullable =>
    cases type with
    | record ref => exact isWritten_noRecord
    | _ => exact isWritten_scalar (by first | rfl | cases nullable) rfl
  | _ => exact isWritten_scalar rfl rfl

end Value

end Decoded

/-! ## Schemas without maps and records in lists -/

namespace FieldType

/-- Have all values of the type a form in which they travel? -/
def travels : FieldType → Bool
  | .list item => item.travels
  | .map _ | .record _ => false
  | _ => true

/-- Lists and maps of the type hold what travels. -/
def IsPlain : FieldType → Prop
  | .list item | .map item => item.travels = true
  | _ => True

end FieldType

/-- At every nesting level the lists and maps that are stored hold what travels. -/
def Catalog.IsPlain (catalog : Catalog) (s : Schema) : Prop :=
  ∀ s', catalog.Nested s s' → ∀ f ∈ s'.fields, f.isPersisted = true → f.type.IsPlain

theorem Catalog.IsPlain.field {s : Schema} {f : Field} (h : catalog.IsPlain s) (hf : f ∈ s.fields) :
    ∀ ref ∈ f.type.refs, catalog.IsPlain (catalog.schema ref) :=
  fun _ href s' hs' => h s' ((Nested.field .self hf href).trans hs')

namespace Value

variable {type t : FieldType} {v w : Value}

theorem travelsEach_iff {vs : List Value} : travelsEach vs = true ↔ ∀ v ∈ vs, v.travels = true := by
  induction vs with
  | nil => simp [travelsEach]
  | cons v vs ih => rw [travelsEach, Bool.and_eq_true, ih, List.forall_mem_cons]

theorem Conforms.travels (h : v.Conforms catalog nullable type) (travels : type.travels = true) :
    v.travels = true := by
  induction h with
  | list _ ih => exact travelsEach_iff.2 fun v hv => ih v hv travels
  | map | record => cases travels
  | _ => rfl

/-- What is held in values of a plain type is of a type of which all values
travel. -/
theorem Holds.travels (h : Holds catalog type v t w) (conforms : v.Conforms catalog nullable type)
    (plain : type.IsPlain) (nested : ∀ ref ∈ type.refs, catalog.IsPlain (catalog.schema ref)) :
    t.travels = true ∧ w.travels = true := by
  induction h with
  | item hw =>
    cases conforms with
    | list items => exact ⟨plain, (items _ hw).travels plain⟩
  | entry he =>
    cases conforms with
    | map _ entries => exact ⟨plain, (entries _ he).travels plain⟩
  | inItem | inEntry => cases plain
  | @field ref fields slot _ _ hslot _ ih =>
    cases conforms with
    | record length values =>
      obtain ⟨hf, persisted, -, member⟩ := Record.Conforms.slot ⟨length, values⟩ hslot
      have inner := nested ref List.mem_cons_self
      exact ih (values slot member) (inner _ .self slot.1 hf persisted) (inner.field hf)

theorem fitsItem_of_travels (type : t.travels = true) (value : w.travels = true) :
    w.FitsItem t := by
  cases t with
  | map | record => cases type
  | _ => exact value

end Value

/-! ## Records -/

namespace Schema

variable {s : Schema} {e : Entity} {r : Record}

/-- A decoded record has in its slots what comes of the properties, since the key is
in none of them. -/
theorem exists_slots_of_decode (h : s.decode catalog e = .ok r) :
    ∃ r₀, decodeBag catalog s s.zeros e.properties = .ok r₀ ∧
      ∀ slot ∈ Record.slots (s.storedFields s.keyIndex?) r,
        slot ∈ Record.slots (s.storedFields s.keyIndex?) r₀ := by
  obtain ⟨r₀, hr₀, rfl | ⟨i, f, k, hkey, rfl⟩⟩ := decode_eq_ok h
  · exact ⟨r, hr₀, fun _ hslot => hslot⟩
  · refine ⟨r₀, hr₀, fun slot hslot => ?_⟩
    obtain ⟨j, stored, hv⟩ := Record.mem_slots_iff.1 hslot
    obtain ⟨-, -, notKey⟩ := getElem?_storedFields_eq_some_iff.1 stored
    have apart : i ≠ j := by
      rintro rfl
      exact notKey (keyIndex?_of_keyField? hkey)
    rw [List.getElem?_set_ne apart] at hv
    exact Record.mem_slots_iff.2 ⟨j, stored, hv⟩

/-- What is in the slots of a decoded record: values of their types, with names for
all entries of maps. -/
theorem slot_of_decode (h : s.decode catalog e = .ok r) {slot : Field × Value}
    (hslot : slot ∈ Record.slots (s.storedFields s.keyIndex?) r) :
    slot.1 ∈ s.fields ∧ slot.1.isPersisted = true ∧
      slot.2.Conforms catalog FieldType.IsNullable slot.1.type ∧ slot.2.Named := by
  obtain ⟨r₀, hr₀, sub⟩ := exists_slots_of_decode h
  have conforms := decodeBag_conforms e.properties s.zeros_conforms hr₀
  have named := decodeBag_named e.properties s.zeros_named hr₀
  obtain ⟨hf, persisted, hv, member⟩ := conforms.slot (sub slot hslot)
  exact ⟨hf, persisted, conforms.values slot member, named _ hv⟩

/-- **What is decoded can be encoded** just if all that its lists and maps hold
fits. -/
theorem exists_encode_iff_of_decode (checked : catalog.Checked s) (h : s.decode catalog e = .ok r) :
    (∃ e', s.encode catalog r = .ok e') ↔ ∀ t w, s.Holds catalog r t w → w.FitsItem t := by
  have fields : (∃ e', s.encode catalog r = .ok e') ↔
      ∃ pairs, encodeFields catalog (s.storedFields s.keyIndex?) r = .ok pairs := by
    simp [encode, checked s .self, bind_eq_ok]
  have each : ∀ slot ∈ Record.slots (s.storedFields s.keyIndex?) r,
      (∃ part, encodeField catalog slot.1 slot.2 = .ok part) ↔
        slot.2.AllFit catalog slot.1.type := by
    intro slot hslot
    obtain ⟨hf, -, conforms, named⟩ := slot_of_decode h hslot
    exact (conforms.isWritten named (checked.field hf)).field slot.1 rfl
  rw [fields, exists_encodeFields_iff, forall₂_congr each]
  constructor
  · rintro fit t w ⟨slot, hslot, held⟩
    exact fit slot hslot t w held
  · intro fit slot hslot t w held
    exact fit t w ⟨slot, hslot, held⟩

/-- **What was read can be written back** unless it holds what does not fit into a
list or a map. Maps never do; where no stored list or map may hold maps or records,
at any depth, nothing stands in the way. -/
theorem encode_decoded (checked : catalog.Checked s) (h : s.decode catalog e = .ok r) :
    ((∀ t w, s.Holds catalog r t w → w.FitsItem t) → ∃ e', s.encode catalog r = .ok e') ∧
    (∀ item w, s.Holds catalog r (.map item) w → ∀ e', s.encode catalog r ≠ .ok e') ∧
    (catalog.IsPlain s → ∃ e', s.encode catalog r = .ok e') := by
  have encodes := exists_encode_iff_of_decode checked h
  refine ⟨encodes.2, fun item w held e' he' => ?_, fun plain => encodes.2 ?_⟩
  · exact encodes.1 ⟨e', he'⟩ _ w held
  · rintro t w ⟨slot, hslot, held⟩
    obtain ⟨hf, persisted, conforms, -⟩ := slot_of_decode h hslot
    obtain ⟨type, value⟩ := held.travels conforms (plain s .self slot.1 hf persisted)
      (plain.field hf)
    exact Value.fitsItem_of_travels type value

end Schema

/-- A folder is written back, with the folder it lies in. -/
theorem Folder.encode_decoded_entity : ∃ r e', schema.decode schemas entity = .ok r ∧
    schema.encode schemas r = .ok e' := by
  obtain ⟨r, hr⟩ : ∃ r, schema.decode schemas entity = .ok r := ⟨_, rfl⟩
  have checked : schemas.Checked schema := by
    intro s hs
    rw [nested_eq hs]
    rfl
  have plain : schemas.IsPlain schema := by
    intro s hs
    rw [nested_eq hs]
    simp [schema, FieldType.IsPlain, FieldType.travels]
  obtain ⟨-, -, always⟩ := Schema.encode_decoded checked hr
  obtain ⟨e', he'⟩ := always plain
  exact ⟨r, e', hr, he'⟩

/-! ## Lists that cannot be written back -/

namespace Shelf

/-- A schema with a list. -/
def schema (item : FieldType) : Schema := ⟨"Shelf", [⟨"Items", .list item, .normal⟩]⟩

/-- The schema of what may lie on it. -/
def schemas : Catalog := ⟨[⟨"Box", [⟨"Size", .int64, .normal⟩]⟩]⟩

/-- What a store may hold of a shelf with one item. -/
def entity (item : Wire) : Entity := ⟨none, [("Items", ⟨.list [⟨item, true⟩], true⟩)]⟩

theorem checked {item : FieldType} (boxes : ∀ ref ∈ item.refs, ref = 0) :
    schemas.Checked (schema item) := by
  intro s hs
  have either : s = schema item ∨ s = schemas.schema 0 := by
    induction hs with
    | self => exact .inl rfl
    | field _ hf href ih =>
      rcases ih with rfl | rfl
      · cases List.mem_singleton.1 hf
        exact .inr (congrArg schemas.schema (boxes _ href))
      · cases List.mem_singleton.1 hf
        cases href
  rcases either with rfl | rfl
  · have apart : Field.collides ⟨"Items", .list item, .normal⟩ = false := by
      change (isFlattened "Items" || occursIn flattenDivider.toList "Items".toList) = false
      decide
    simp [Schema.checkFieldNames, schema, apart]
  · rfl

/-- A shelf with that item is read, and what has been read is not written. -/
def IsStuck (item : FieldType) (w : Wire) : Prop :=
  schemas.Checked (schema item) ∧ ∃ r, (schema item).decode schemas (entity w) = .ok r ∧
    ∀ e', (schema item).encode schemas r ≠ .ok e'

/-- **Not all that is decoded can be encoded.** A map, a box that is missing and a
list with a box in it are read as items, and no shelf with one of them is written. -/
theorem decoded_not_encoded : IsStuck (.map .int64) .null ∧ IsStuck (.record 0) .null ∧
    IsStuck (.list (.record 0)) (.list [⟨.entity [], true⟩]) := by
  refine ⟨⟨checked ?_, [.list [.map []]], rfl, ?_⟩, ⟨checked ?_, [.list [.null]], rfl, ?_⟩,
    checked ?_, [.list [.list [.record [.int64 0]]]], rfl, ?_⟩
  case refine_1 | refine_3 | refine_5 => simp [FieldType.refs]
  all_goals
    intro e' written
    cases written

end Shelf

end KindQuery
