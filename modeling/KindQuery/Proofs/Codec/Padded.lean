import KindQuery.Proofs.Codec.Names
/-!
# Unknown properties

An entity may carry more than a schema asks for: properties of fields that
are gone or that another program stores. Nothing of them is looked at, so
that they may hold what the schema could not even read. `decode_padded` says
that with such properties anywhere in an entity, and in any bag of it that is
read as a nested record, the same record comes out or the same error.

A bag in the place of something else than a record is refused as a whole. What
is added to it decides nothing either, but the refusal shows it.
-/

namespace KindQuery

/-! ## Unknown names -/

/-- **A name that a schema does not know**: one of no field that does not look
like a flattened entry, or the name of an entry of a field that is not there. -/
inductive Schema.Unknown (s : Schema) (name : String) : Prop
  | plain : isFlattened name = false → (∀ f ∈ s.fields, f.name ≠ name) → Unknown s name
  | entry {field entry : String} :
      isFlattened name = true → splitFlattened? name = some (field, entry) →
      (∀ f ∈ s.fields, f.name ≠ field) → Unknown s name

namespace Schema

variable {s : Schema} {name : String}

theorem field?_eq_none (h : ∀ f ∈ s.fields, f.name ≠ name) : s.field? name = none := by
  rw [← Option.not_isSome_iff_eq_none, isSome_field?]
  rintro ⟨f, hf, named⟩
  exact h f hf named

/-- A property of an unknown name belongs nowhere. -/
theorem Unknown.target_eq (h : s.Unknown name) : s.target name = .ok .nowhere := by
  rw [target_eq_ok_iff]
  cases h with
  | plain whole absent => exact .unknown whole (field?_eq_none absent)
  | entry flat split absent => exact .unknownMap flat split (field?_eq_none absent)

/-- The type as which a property of the name is read. -/
def ReadsAs (s : Schema) (name : String) (type : FieldType) : Prop :=
  (∃ i, s.target name = .ok (.slot i type)) ∨ ∃ i entry, s.target name = .ok (.entry i type entry)

end Schema

/-! ## Padding -/

mutual

/-- **A wire value with unknown properties added**, where it is read as a type.
If it is `loose`, also in what is refused as a value of the type. -/
inductive Wire.Pads (catalog : Catalog) (loose : Bool) : FieldType → Wire → Wire → Prop
  | same {type : FieldType} {v : Wire} : Wire.Pads catalog loose type v v
  | list {item : FieldType} {ps qs : List Property} :
      ItemsPad catalog loose item ps qs → Wire.Pads catalog loose (.list item) (.list ps) (.list qs)
  | record {ref : Nat} {ps qs : List (String × Property)} :
      BagPads catalog loose (catalog.schema ref) ps qs →
      Wire.Pads catalog loose (.record ref) (.entity ps) (.entity qs)
  | noList {type : FieldType} {ps qs : List Property} :
      loose = true → (∀ item, type ≠ .list item) →
      Wire.Pads catalog loose type (.list ps) (.list qs)
  | noRecord {type : FieldType} {ps qs : List (String × Property)} :
      loose = true → (∀ ref, type ≠ .record ref) →
      Wire.Pads catalog loose type (.entity ps) (.entity qs)

/-- Items of a list with unknown properties added in them. -/
inductive ItemsPad (catalog : Catalog) (loose : Bool) :
    FieldType → List Property → List Property → Prop
  | nil {item : FieldType} : ItemsPad catalog loose item [] []
  | cons {item : FieldType} {v w : Wire} {i j : Bool} {ps qs : List Property} :
      Wire.Pads catalog loose item v w → ItemsPad catalog loose item ps qs →
      ItemsPad catalog loose item (⟨v, i⟩ :: ps) (⟨w, j⟩ :: qs)

/-- **The properties of a bag with unknown ones added**: between those that it
has, and in the values that are read. -/
inductive BagPads (catalog : Catalog) (loose : Bool) :
    Schema → List (String × Property) → List (String × Property) → Prop
  | nil {s : Schema} : BagPads catalog loose s [] []
  | keep {s : Schema} {name : String} {v w : Wire} {i j : Bool}
      {ps qs : List (String × Property)} :
      (∀ type, s.ReadsAs name type → Wire.Pads catalog loose type v w) →
      BagPads catalog loose s ps qs →
      BagPads catalog loose s ((name, ⟨v, i⟩) :: ps) ((name, ⟨w, j⟩) :: qs)
  | unknown {s : Schema} {name : String} {p : Property} {ps qs : List (String × Property)} :
      s.Unknown name → BagPads catalog loose s ps qs →
      BagPads catalog loose s ps ((name, p) :: qs)

end

namespace BagPads

variable {catalog : Catalog} {loose : Bool} {s : Schema} {ps qs : List (String × Property)}

theorem cons (x : String × Property) (h : BagPads catalog loose s ps qs) :
    BagPads catalog loose s (x :: ps) (x :: qs) := by
  obtain ⟨name, v, i⟩ := x
  exact .keep (fun _ _ => .same) h

theorem refl (ps : List (String × Property)) : BagPads catalog loose s ps ps := by
  induction ps with
  | nil => exact .nil
  | cons x _ ih => exact .cons x ih

theorem append_left (before : List (String × Property)) (h : BagPads catalog loose s ps qs) :
    BagPads catalog loose s (before ++ ps) (before ++ qs) := by
  induction before with
  | nil => exact h
  | cons x _ ih => exact .cons x ih

end BagPads

/-! ## Results that agree -/

/-- **Results that are the same.** If they may differ in what is shown, two
refusals are that are made for the same type. -/
def Agree {α : Type} (loose : Bool) (x y : Except Error α) : Prop :=
  x = y ∨ loose = true ∧ ∃ shown shown' type,
    x = Fault.raise (.conversion shown type) ∧ y = Fault.raise (.conversion shown' type)

namespace Agree

variable {α β : Type} {loose : Bool} {x y : Except Error α}

theorem refl (x : Except Error α) : Agree loose x x := .inl rfl

theorem eq (h : Agree false x y) : x = y := h.resolve_right fun differ => nomatch differ.1

theorem refuse (h : loose = true) (v w : Wire) (type : FieldType) :
    Agree loose (v.refuse type) (w.refuse type) :=
  .inr ⟨h, _, _, _, rfl, rfl⟩

/-- Chains agree whose steps do. -/
theorem bind {f g : α → Except Error β} (h : Agree loose x y) (hf : ∀ a, Agree loose (f a) (g a)) :
    Agree loose (x >>= f) (y >>= g) := by
  rcases h with rfl | ⟨differ, shown, shown', type, rfl, rfl⟩
  · cases x with
    | error => exact .refl _
    | ok a => exact hf a
  · exact .inr ⟨differ, shown, shown', type, rfl, rfl⟩

end Agree

/-! ## Decoding -/

section Padded

variable {catalog : Catalog} {loose : Bool}

theorem toValue_list_refused {type : FieldType} (h : ∀ item, type ≠ .list item)
    (ps : List Property) : (Wire.list ps).toValue catalog type = (Wire.list ps).refuse type := by
  cases type with
  | list item => exact absurd rfl (h item)
  | _ => rfl

theorem toValue_entity_refused {type : FieldType} (h : ∀ ref, type ≠ .record ref)
    (ps : List (String × Property)) :
    (Wire.entity ps).toValue catalog type = (Wire.entity ps).refuse type := by
  cases type with
  | record ref => exact absurd rfl (h ref)
  | _ => rfl

mutual

/-- **A padded value is read as the value is.** -/
theorem toValue_padded : ∀ (w : Wire) {type : FieldType} {v : Wire}, v.Pads catalog loose type w →
    Agree loose (w.toValue catalog type) (v.toValue catalog type)
  | .list qs, _, _, h => by
    cases h with
    | same => exact .refl _
    | list items =>
      rw [Wire.toValue, Wire.toValue]
      exact (decodeItems_padded qs items).bind fun _ => .refl _
    | noList allowed other =>
      rw [toValue_list_refused other, toValue_list_refused other]
      exact .refuse allowed _ _ _
  | .entity qs, _, _, h => by
    cases h with
    | same => exact .refl _
    | record bag =>
      rw [Wire.toValue, Wire.toValue]
      exact (decodeBag_padded qs bag).bind fun _ => .refl _
    | noRecord allowed other =>
      rw [toValue_entity_refused other, toValue_entity_refused other]
      exact .refuse allowed _ _ _
  | .null, _, _, h | .boolean _, _, _, h | .integer _, _, _, h | .double _, _, _, h
  | .text _, _, _, h | .timestamp _, _, _, h | .blob _, _, _, h | .key _, _, _, h => by
    cases h
    exact .refl _

theorem decodeItems_padded : ∀ (qs : List Property) {item : FieldType} {ps : List Property},
    ItemsPad catalog loose item ps qs →
    Agree loose (decodeItems catalog item qs) (decodeItems catalog item ps)
  | [], _, _, h => by
    cases h
    exact .refl _
  | ⟨w, _⟩ :: qs, _, _, h => by
    cases h with
    | cons first rest =>
      rw [decodeItems, decodeItems]
      exact (toValue_padded w first).bind fun _ =>
        (decodeItems_padded qs rest).bind fun _ => .refl _

/-- **A padded bag is put into a record as the bag is.** -/
theorem decodeBag_padded : ∀ (qs : List (String × Property)) {s : Schema}
    {ps : List (String × Property)} {r : Record}, BagPads catalog loose s ps qs →
    Agree loose (decodeBag catalog s r qs) (decodeBag catalog s r ps)
  | [], _, _, _, h => by
    cases h
    exact .refl _
  | (name, ⟨w, _⟩) :: qs, s, _, r, h => by
    cases h with
    | unknown unknown rest =>
      rw [decodeBag, unknown.target_eq]
      exact decodeBag_padded qs rest
    | keep first rest =>
      rw [decodeBag, decodeBag]
      cases target : s.target name with
      | error => exact .refl _
      | ok t =>
        cases t with
        | nowhere => exact decodeBag_padded qs rest
        | slot i type =>
          exact (toValue_padded w (first type (.inl ⟨i, target⟩))).bind fun _ =>
            decodeBag_padded qs rest
        | entry i item entry =>
          exact (toValue_padded w (first item (.inr ⟨i, entry, target⟩))).bind fun _ =>
            decodeBag_padded qs rest

end

/-- **Unknown properties make no difference.** An entity with a property of an
unknown name at any position gives the same record as without it, or the same
error, whatever the property holds. So does one with any number of them, also in
the bags that are read as nested records, whose schemas then are the ones not to
know them. With more in what is refused, the same is refused for the same type. -/
theorem Schema.decode_padded (catalog : Catalog) (s : Schema) (key : Option Key) :
    (∀ before after name p, s.Unknown name →
      s.decode catalog ⟨key, before ++ (name, p) :: after⟩ =
        s.decode catalog ⟨key, before ++ after⟩) ∧
    ∀ ps qs,
      (BagPads catalog false s ps qs →
        s.decode catalog ⟨key, qs⟩ = s.decode catalog ⟨key, ps⟩) ∧
      (BagPads catalog true s ps qs →
        Agree true (s.decode catalog ⟨key, qs⟩) (s.decode catalog ⟨key, ps⟩)) := by
  have agree : ∀ {loose ps qs}, BagPads catalog loose s ps qs →
      Agree loose (s.decode catalog ⟨key, qs⟩) (s.decode catalog ⟨key, ps⟩) :=
    fun pads => (decodeBag_padded _ pads).bind fun _ => .refl _
  refine ⟨fun before after name p unknown => ?_, fun ps qs => ⟨fun pads => (agree pads).eq, agree⟩⟩
  exact (agree (.append_left before (.unknown unknown (.refl after)))).eq

end Padded

/-! ## Lodgers -/

namespace Lodger

/-- Lodgers with the addresses of their homes. -/
def schema : Schema where
  name := "Lodger"
  fields := [⟨"Id", .text, .key⟩, ⟨"Homes", .list (.record 0), .normal⟩]

def address : Schema := ⟨"Address", [⟨"City", .text, .normal⟩]⟩

def schemas : Catalog := ⟨[address]⟩

def key : Key := ⟨"Lodger", "ada"⟩

/-- The properties of a lodger with one home. -/
def bag : List (String × Property) :=
  [("Homes", ⟨.list [⟨.entity [("City", ⟨.text "York", true⟩)], true⟩], true⟩)]

/-- The same with an entry of a map that is gone, and with a number in the
address. -/
def paddedBag : List (String × Property) :=
  [("Homes", ⟨.list [⟨.entity [("Zip", ⟨.integer 7, true⟩), ("City", ⟨.text "York", true⟩)],
      true⟩], true⟩),
    ("g/kv_Rooms_g/k_a", ⟨.list [], false⟩)]

/-- The properties of a lodger whose one home is not in a list. -/
def misfitBag (home : List (String × Property)) : List (String × Property) :=
  [("Homes", ⟨.entity home, true⟩)]

theorem unknown_note : schema.Unknown "Note" := .plain (by decide) (by decide)

theorem decode_paddedBag :
    schema.decode schemas ⟨some key, ("Note", ⟨.blob "?", true⟩) :: bag⟩ =
        schema.decode schemas ⟨some key, bag⟩ ∧
      schema.decode schemas ⟨some key, paddedBag⟩ =
        .ok [.text "ada", .list [.record [.text "York"]]] ∧
      Agree true (schema.decode schemas ⟨some key, misfitBag [("Note", ⟨.null, true⟩)]⟩)
        (schema.decode schemas ⟨some key, misfitBag []⟩) := by
  have rooms : schema.Unknown "g/kv_Rooms_g/k_a" := by
    have split : splitFlattened? "g/kv_Rooms_g/k_a" = some ("Rooms", "a") := by decide
    exact .entry (by decide) split (by decide)
  have zip : (schemas.schema 0).Unknown "Zip" := .plain (by decide) (by decide)
  have homes : ∀ type, schema.ReadsAs "Homes" type → type = .list (.record 0) := by
    have target : schema.target "Homes" = .ok (.slot 1 (.list (.record 0))) := rfl
    rintro type (⟨i, reads⟩ | ⟨i, entry, reads⟩) <;> cases target.symm.trans reads
    rfl
  have pads : BagPads schemas false schema bag paddedBag := by
    refine .keep (fun type reads => ?_) (.unknown rooms .nil)
    rw [homes type reads]
    exact .list (.cons (.record (.unknown zip (.refl _))) .nil)
  have misfits :
      BagPads schemas true schema (misfitBag []) (misfitBag [("Note", ⟨.null, true⟩)]) := by
    refine .keep (fun type reads => ?_) .nil
    rw [homes type reads]
    exact .noRecord rfl nofun
  obtain ⟨single, every⟩ := schema.decode_padded schemas (some key)
  exact ⟨single [] bag "Note" _ unknown_note, (every bag paddedBag).1 pads, (every _ _).2 misfits⟩

/-- **What is refused is shown with all that is added to it**, even if no schema
knows it. -/
theorem shows_padded :
    (∀ s ∈ [schema, address], s.Unknown "Note") ∧
      schema.decode schemas ⟨some key, misfitBag [("Note", ⟨.null, true⟩)]⟩ ≠
        schema.decode schemas ⟨some key, misfitBag []⟩ := by
  refine ⟨?_, ?_⟩
  · rw [List.forall_mem_cons, List.forall_mem_singleton]
    exact ⟨unknown_note, .plain (by decide) (by decide)⟩
  · have refused : ∀ home, schema.decode schemas ⟨some key, misfitBag home⟩ =
        Fault.raise (.conversion (Wire.entity home).described "List") := fun _ => rfl
    rw [refused, refused]
    intro same
    have shown :
        (Wire.entity [("Note", ⟨.null, true⟩)]).described = (Wire.entity []).described := by
      injection same with same
      injection same with same
      injection same
    exact absurd shown (by decide)

end Lodger

end KindQuery
