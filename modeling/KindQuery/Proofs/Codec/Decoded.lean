import KindQuery.Model.Sample
import KindQuery.Proofs.Codec.RoundTrip
/-!
# Decoded records

Whatever an entity holds, a record that is decoded from it is one of the
schema (`Schema.decode_sound`). Each wire value is loaded under the type of
the place its property goes to, so that filling a place keeps a record
typed. Null is left only where a type has no other value for what is
absent. A model then finds in a decoded record what it loads.
-/

namespace KindQuery

variable {catalog : Catalog} {nullable : FieldType → Prop}

/-! ## Values for what is absent -/

/-- The types of which null is the value for what is absent: nested
records, and enumerations without variants. -/
def FieldType.IsNullable : FieldType → Prop
  | .record _ | .enum [] => True
  | _ => False

theorem FieldType.zero_conforms (type : FieldType) :
    type.zero.Conforms catalog IsNullable type := by
  cases type with
  | bool => exact .bool
  | int16 => exact .int16
  | int32 => exact .int32
  | int64 => exact .int64
  | double => exact .double
  | decimal => exact .decimal
  | text => exact .text
  | instant => exact .instant
  | bytes => exact .bytes
  | enum variants =>
    rw [zero]
    split
    next v hv =>
      refine .variant ?_
      rcases Option.or_eq_some_iff.1 hv with hnumber | ⟨-, hhead⟩
      · exact List.mem_of_find?_eq_some hnumber
      · exact List.mem_of_head? hhead
    next hnone =>
      have hnil : variants = [] := List.head?_eq_none_iff.1 (Option.or_eq_none_iff.1 hnone).2
      exact .null (by rw [hnil]; trivial)
  | list item => exact .list (List.forall_mem_nil _)
  | map item => exact .map List.nodup_nil (List.forall_mem_nil _)
  | record ref => exact .null trivial

theorem FieldType.zero_eq_null_iff {type : FieldType} : type.zero = .null ↔ type.IsNullable := by
  cases type with
  | enum variants =>
    cases variants with
    | nil => exact ⟨fun _ => trivial, fun _ => rfl⟩
    | cons v variants =>
      rw [zero]
      cases Variant.byNumber? (v :: variants) 0 <;> simp [IsNullable]
  | _ => simp [zero, IsNullable]

/-! ## Wire values without parts -/

section Scalars

variable {type : FieldType} {v : Value}

theorem decodeInteger_conforms {n : Int64} (h : decodeInteger n type = .ok v) :
    v.Conforms catalog nullable type := by
  cases type with
  | int16 =>
    rw [decodeInteger] at h
    split at h
    · cases h
      exact .int16
    · cases h
  | int32 =>
    rw [decodeInteger] at h
    split at h
    · cases h
      exact .int32
    · cases h
  | int64 =>
    cases h
    exact .int64
  | double =>
    cases h
    exact .double
  | decimal =>
    cases h
    exact .decimal
  | enum variants =>
    rw [decodeInteger] at h
    split at h
    next w hw =>
      cases h
      exact .variant (List.mem_of_find?_eq_some hw)
    next => cases h
  | _ => cases h

theorem decodeText_conforms {s : String} (h : decodeText s type = .ok v) :
    v.Conforms catalog nullable type := by
  cases type with
  | text =>
    cases h
    exact .text
  | decimal =>
    rw [decodeText] at h
    split at h
    next =>
      cases h
      exact .decimal
    next => cases h
  | enum variants =>
    rw [decodeText] at h
    split at h
    next w hw =>
      cases h
      exact .variant (List.mem_of_find?_eq_some hw)
    next => cases h
  | _ => cases h

theorem decodeDouble_conforms {x : Double} (h : decodeDouble x type = .ok v) :
    v.Conforms catalog nullable type := by
  cases type with
  | double =>
    cases h
    exact .double
  | decimal =>
    rw [decodeDouble] at h
    split at h
    next =>
      cases h
      exact .decimal
    next => cases h
  | _ => cases h

theorem decodeBlob_conforms {s : String} (h : decodeBlob s type = .ok v) :
    v.Conforms catalog nullable type := by
  cases type with
  | bytes =>
    rw [decodeBlob] at h
    split at h
    next =>
      cases h
      exact .bytes
    next => cases h
  | _ => cases h

end Scalars

/-! ## Places of a record -/

namespace Record

variable {s : Schema} {r : Record} {i : Nat} {f : Field} {v : Value}

theorem conforms_iff : Conforms catalog nullable s r ↔ r.length = s.fields.length ∧
    ∀ (i : Nat) f (v : Value), s.fields[i]? = some f → r[i]? = some v →
      v.Conforms catalog nullable f.type := by
  constructor
  · intro h
    refine ⟨h.length, fun i f v hf hv => h.values (f, v) ?_⟩
    exact List.mem_of_getElem? (List.getElem?_zip_eq_some.2 ⟨hf, hv⟩)
  · rintro ⟨hlength, hvalues⟩
    refine ⟨hlength, fun p hp => ?_⟩
    obtain ⟨i, hi⟩ := List.mem_iff_getElem?.1 hp
    obtain ⟨hf, hv⟩ := List.getElem?_zip_eq_some.1 hi
    exact hvalues i p.1 p.2 hf hv

/-- What is in the place of a field is a value of its type. -/
theorem Conforms.value (h : Conforms catalog nullable s r) (hf : s.fields[i]? = some f)
    (hv : r[i]? = some v) : v.Conforms catalog nullable f.type :=
  (conforms_iff.1 h).2 i f v hf hv

/-- What is found after a place is filled has been put there or is in
another place. -/
theorem of_getElem?_set {r : Record} {i j : Nat} {v w : Value} (h : (r.set i v)[j]? = some w) :
    (i = j ∧ v = w) ∨ (i ≠ j ∧ r[j]? = some w) := by
  rw [List.getElem?_set] at h
  split at h
  next hij =>
    split at h
    next => exact .inl ⟨hij, Option.some.inj h⟩
    next => cases h
  next hij => exact .inr ⟨hij, h⟩

/-- **A place may be filled** with a value of the type of its field. -/
theorem Conforms.set (h : Conforms catalog nullable s r) (hf : s.fields[i]? = some f)
    (hv : v.Conforms catalog nullable f.type) : Conforms catalog nullable s (r.set i v) := by
  refine conforms_iff.2 ⟨by rw [List.length_set, h.length], fun j g w hg hw => ?_⟩
  rcases of_getElem?_set hw with ⟨rfl, rfl⟩ | ⟨-, hw⟩
  · have hfg : f = g := Option.some.inj (hf.symm.trans hg)
    rw [← hfg]
    exact hv
  · exact h.value hg hw

/-- What is taken from the place of a field is a value of its type. -/
theorem Conforms.take (h : Conforms catalog nullable s r) (hf : s.fields[i]? = some f) :
    (r.take i).1.Conforms catalog nullable f.type := by
  have hi : i < r.length := by
    rw [h.length]
    exact (List.getElem?_eq_some_iff.1 hf).1
  have hv : r[i]? = some r[i] := List.getElem?_eq_getElem hi
  rw [Record.take, hv]
  exact h.value hf hv

end Record

/-- A schema has a record for which nothing is stored. -/
theorem Schema.zeros_conforms (s : Schema) :
    Record.Conforms catalog FieldType.IsNullable s s.zeros := by
  refine Record.conforms_iff.2 ⟨List.length_map _, fun i f v hf hv => ?_⟩
  rw [zeros, List.getElem?_map, hf] at hv
  cases hv
  exact f.type.zero_conforms

theorem insertEntry_conforms {item : FieldType} {old : Option Value} {name : String} {v : Value}
    (hold : ∀ w, old = some w → w.Conforms catalog nullable (.map item))
    (hv : v.Conforms catalog nullable item) :
    (insertEntry name v old).Conforms catalog nullable (.map item) := by
  unfold insertEntry
  split
  next entries =>
    cases hold _ rfl with
    | map hnodup hentries =>
      refine .map (Entries.nodup_names_insert hnodup) fun e he => ?_
      rcases Entries.mem_insert he with he | rfl
      · exact hentries e he
      · exact hv
  next => exact .map (List.nodup_singleton name) (by simpa using hv)

/-! ## Loading -/

/-- **Where a property belongs**: to no field, to the place of one under its
type, or to the place of a map under the type of its items. -/
theorem Schema.target_eq_ok {s : Schema} {name : String} {t : Target} (h : s.target name = .ok t) :
    t = .nowhere ∨ (∃ i f, s.fields[i]? = some f ∧ t = .slot i f.type) ∨
      ∃ i f item entry, s.fields[i]? = some f ∧ f.type = .map item ∧ t = .entry i item entry := by
  cases target_eq_ok_iff.1 h with
  | unknown | unstored | unknownMap => exact .inl rfl
  | stored _ hf _ => exact .inr (.inl ⟨_, _, (field?_sound hf).1, rfl⟩)
  | entry _ _ hf htype => exact .inr (.inr ⟨_, _, _, _, (field?_sound hf).1, htype, rfl⟩)

/-- **What one property does** to a record: nothing, or it fills the place of
a field, or it adds an entry to a map. -/
theorem decodeBag_cons_eq_ok {s : Schema} {r r' : Record} {name : String} {w : Wire}
    {indexed : Bool} {bag : List (String × Property)}
    (h : decodeBag catalog s r ((name, ⟨w, indexed⟩) :: bag) = .ok r') :
    (s.target name = .ok .nowhere ∧ decodeBag catalog s r bag = .ok r') ∨
      (∃ i f a, s.fields[i]? = some f ∧ s.target name = .ok (.slot i f.type) ∧
        Wire.toValue catalog f.type w = .ok a ∧ decodeBag catalog s (r.set i a) bag = .ok r') ∨
      ∃ i f item entry a, s.fields[i]? = some f ∧ f.type = .map item ∧
        s.target name = .ok (.entry i item entry) ∧ Wire.toValue catalog item w = .ok a ∧
        decodeBag catalog s (r.set i (insertEntry entry a r[i]?)) bag = .ok r' := by
  rw [decodeBag] at h
  obtain ⟨t, ht, h⟩ := bind_eq_ok.1 h
  rcases Schema.target_eq_ok ht with rfl | ⟨i, f, hf, rfl⟩ | ⟨i, f, item, entry, hf, hmap, rfl⟩
  · exact .inl ⟨ht, h⟩
  · obtain ⟨a, ha, h⟩ := bind_eq_ok.1 h
    exact .inr (.inl ⟨i, f, a, hf, ht, ha, h⟩)
  · obtain ⟨a, ha, h⟩ := bind_eq_ok.1 h
    exact .inr (.inr ⟨i, f, item, entry, a, hf, hmap, ht, ha, h⟩)

mutual

/-- **A wire value is loaded as a value of the type.** -/
theorem toValue_conforms : ∀ (w : Wire) {type : FieldType} {v : Value},
    Wire.toValue catalog type w = .ok v → v.Conforms catalog FieldType.IsNullable type
  | .null, type, _, h => by
    cases h
    exact type.zero_conforms
  | .boolean _, type, _, h => by
    cases type <;> cases h
    exact .bool
  | .timestamp _, type, _, h => by
    cases type <;> cases h
    exact .instant
  | .key _, type, _, h => by
    cases type <;> cases h
    exact .text
  | .integer _, _, _, h => decodeInteger_conforms h
  | .double _, _, _, h => decodeDouble_conforms h
  | .text _, _, _, h => decodeText_conforms h
  | .blob _, _, _, h => decodeBlob_conforms h
  | .entity bag, type, _, h => by
    cases type with
    | record ref =>
      obtain ⟨r, hr, hv⟩ := bind_eq_ok.1 h
      cases hv
      have hfields := decodeBag_conforms bag (Schema.zeros_conforms (catalog.schema ref)) hr
      exact .record hfields.length hfields.values
    | _ => cases h
  | .list items, type, _, h => by
    cases type with
    | list item =>
      obtain ⟨vs, hvs, hv⟩ := bind_eq_ok.1 h
      cases hv
      exact .list (decodeItems_conforms items hvs)
    | _ => cases h

theorem decodeItems_conforms : ∀ (ps : List Property) {item : FieldType} {vs : List Value},
    decodeItems catalog item ps = .ok vs →
    ∀ v ∈ vs, v.Conforms catalog FieldType.IsNullable item
  | [], _, _, h => by
    cases h
    exact nofun
  | ⟨w, _⟩ :: ps, item, vs, h => by
    obtain ⟨a, ha, h⟩ := bind_eq_ok.1 h
    obtain ⟨as, has, h⟩ := bind_eq_ok.1 h
    cases h
    exact List.forall_mem_cons.2 ⟨toValue_conforms w ha, decodeItems_conforms ps has⟩

/-- **The properties of a bag keep a record typed.** -/
theorem decodeBag_conforms : ∀ (bag : List (String × Property)) {s : Schema} {r r' : Record},
    Record.Conforms catalog FieldType.IsNullable s r → decodeBag catalog s r bag = .ok r' →
    Record.Conforms catalog FieldType.IsNullable s r'
  | [], _, _, _, hr, h => by
    cases h
    exact hr
  | (_, ⟨w, _⟩) :: bag, s, r, r', hr, h => by
    rcases decodeBag_cons_eq_ok h with ⟨-, h⟩ | ⟨i, f, a, hf, -, ha, h⟩ |
      ⟨i, f, item, entry, a, hf, hmap, -, ha, h⟩
    · exact decodeBag_conforms bag hr h
    · exact decodeBag_conforms bag (hr.set hf (toValue_conforms w ha)) h
    · -- What is in the place is a map, to which one more entry is added.
      have hentry : (insertEntry entry a r[i]?).Conforms catalog FieldType.IsNullable f.type := by
        rw [hmap]
        refine insertEntry_conforms (fun v hv => ?_) (toValue_conforms w ha)
        rw [← hmap]
        exact hr.value hf hv
      exact decodeBag_conforms bag (hr.set hf hentry) h

end

/-! ## Nulls -/

/-- What is left null was null, in a type that has no other value for what
is absent. -/
theorem toValue_eq_null_iff {type : FieldType} {w : Wire} :
    Wire.toValue catalog type w = .ok .null ↔ w = .null ∧ type.IsNullable := by
  -- A value under types of which none may be null is not null.
  have hne : ¬ Value.Conforms catalog (fun _ => False) type .null := by
    intro h
    cases h
    contradiction
  cases w with
  | null =>
    rw [← FieldType.zero_eq_null_iff]
    simp [Wire.toValue]
  | integer n => exact ⟨fun h => (hne (decodeInteger_conforms h)).elim, nofun⟩
  | double x => exact ⟨fun h => (hne (decodeDouble_conforms h)).elim, nofun⟩
  | text s => exact ⟨fun h => (hne (decodeText_conforms h)).elim, nofun⟩
  | blob s => exact ⟨fun h => (hne (decodeBlob_conforms h)).elim, nofun⟩
  | boolean b =>
    refine ⟨fun h => ?_, nofun⟩
    cases type <;> cases h
  | timestamp t =>
    refine ⟨fun h => ?_, nofun⟩
    cases type <;> cases h
  | key k =>
    refine ⟨fun h => ?_, nofun⟩
    cases type <;> cases h
  | entity bag =>
    refine ⟨fun h => ?_, nofun⟩
    cases type with
    | record ref =>
      obtain ⟨r, -, hv⟩ := bind_eq_ok.1 h
      cases hv
    | _ => cases h
  | list items =>
    refine ⟨fun h => ?_, nofun⟩
    cases type with
    | list item =>
      obtain ⟨vs, -, hv⟩ := bind_eq_ok.1 h
      cases hv
    | _ => cases h

/-- A bag leaves null in the place of a field: null is there and the place
is not filled, or it is filled with null. -/
def Schema.LeavesNull (s : Schema) (r : Record) (bag : List (String × Property)) (i : Nat)
    (type : FieldType) : Prop :=
  (r[i]? = some .null ∧ ∀ p ∈ bag, s.target p.1 ≠ .ok (.slot i type)) ∨
    ∃ p ∈ bag, s.target p.1 = .ok (.slot i type) ∧ p.2.value = .null

/-- Null that is left after one property was there before it, or the
property is null. -/
theorem Schema.LeavesNull.cons {s : Schema} {r r' : Record} {bag : List (String × Property)}
    {i : Nat} {type : FieldType} {p : String × Property} (h : s.LeavesNull r' bag i type)
    (hp : r'[i]? = some .null → (r[i]? = some .null ∧ s.target p.1 ≠ .ok (.slot i type)) ∨
      (s.target p.1 = .ok (.slot i type) ∧ p.2.value = .null)) :
    s.LeavesNull r (p :: bag) i type := by
  rcases h with ⟨hr', hbag⟩ | ⟨q, hq, hfilled⟩
  · rcases hp hr' with ⟨hr, hne⟩ | hfilled
    · exact .inl ⟨hr, List.forall_mem_cons.2 ⟨hne, hbag⟩⟩
    · exact .inr ⟨p, List.mem_cons_self, hfilled⟩
  · exact .inr ⟨q, List.mem_cons_of_mem _ hq, hfilled⟩

theorem insertEntry_ne_null {name : String} {v : Value} {old : Option Value} :
    insertEntry name v old ≠ .null := by
  unfold insertEntry
  split <;> nofun

/-- **Null comes from nowhere else**: what is null in the end has been left so
by the bag. -/
theorem decodeBag_leavesNull {s : Schema} {r r' : Record} {bag : List (String × Property)} {i : Nat}
    {f : Field} (h : decodeBag catalog s r bag = .ok r') (hf : s.fields[i]? = some f)
    (hnull : r'[i]? = some .null) : s.LeavesNull r bag i f.type := by
  induction bag generalizing r with
  | nil =>
    cases h
    exact .inl ⟨hnull, nofun⟩
  | cons p bag ih =>
    obtain ⟨name, w, indexed⟩ := p
    rcases decodeBag_cons_eq_ok h with ⟨ht, h⟩ | ⟨j, g, a, hg, ht, ha, h⟩ |
      ⟨j, g, item, entry, a, -, -, ht, -, h⟩
    · refine (ih h).cons fun hr => .inl ⟨hr, ?_⟩
      rw [ht]
      nofun
    · refine (ih h).cons fun hr => ?_
      rcases Record.of_getElem?_set hr with ⟨rfl, rfl⟩ | ⟨hne, hr⟩
      · have hfg : f = g := Option.some.inj (hf.symm.trans hg)
        rw [hfg]
        exact .inr ⟨ht, (toValue_eq_null_iff.1 ha).1⟩
      · refine .inl ⟨hr, fun heq => hne ?_⟩
        exact (Target.slot.inj (Except.ok.inj (ht.symm.trans heq))).1
    · refine (ih h).cons fun hr => ?_
      rcases Record.of_getElem?_set hr with ⟨-, hentry⟩ | ⟨-, hr⟩
      · exact (insertEntry_ne_null hentry).elim
      · refine .inl ⟨hr, ?_⟩
        rw [ht]
        nofun

/-! ## Records of a schema -/

section Decode

variable {s : Schema} {e : Entity} {r : Record}

/-- The name of the key is put into its place at the end. -/
theorem Schema.decode_eq_ok (h : s.decode catalog e = .ok r) :
    ∃ r₀, decodeBag catalog s s.zeros e.properties = .ok r₀ ∧
      (r = r₀ ∨ ∃ i f k, s.keyField? = some (i, f) ∧ r = r₀.set i (.text k)) := by
  obtain ⟨r₀, hr₀, hr⟩ := bind_eq_ok.1 h
  refine ⟨r₀, hr₀, ?_⟩
  have hfill : r = s.fillKey e.key r₀ := (Except.ok.inj hr).symm
  unfold fillKey at hfill
  split at hfill
  next i k hi hk =>
    obtain ⟨⟨j, f⟩, hj, rfl⟩ := Option.map_eq_some_iff.1 hi
    exact .inr ⟨j, f, k.name, hj, hfill⟩
  next => exact .inl hfill

theorem Schema.decode_conforms (hkey : ∀ i f, s.keyField? = some (i, f) → f.type = .text)
    (h : s.decode catalog e = .ok r) : Record.Conforms catalog FieldType.IsNullable s r := by
  obtain ⟨r₀, hr₀, rfl | ⟨i, f, k, hi, rfl⟩⟩ := Schema.decode_eq_ok h
  · exact decodeBag_conforms e.properties s.zeros_conforms hr₀
  · have hconforms := decodeBag_conforms e.properties s.zeros_conforms hr₀
    refine hconforms.set (getElem?_of_keyField? hi) ?_
    rw [hkey i f hi]
    exact .text

theorem Schema.decode_leavesNull (h : s.decode catalog e = .ok r) {i : Nat} {f : Field}
    (hf : s.fields[i]? = some f) (hnull : r[i]? = some .null) :
    s.LeavesNull s.zeros e.properties i f.type := by
  obtain ⟨r₀, hr₀, rfl | ⟨j, g, k, -, rfl⟩⟩ := Schema.decode_eq_ok h
  · exact decodeBag_leavesNull hr₀ hf hnull
  · rcases Record.of_getElem?_set hnull with ⟨-, htext⟩ | ⟨-, hnull⟩
    · cases htext
    · exact decodeBag_leavesNull hr₀ hf hnull

end Decode

/-! ## Models -/

theorem Value.toVariant_of_mem {variants : List Variant} {v : Variant} (hv : v ∈ variants) :
    ∃ w, (Value.variant v).toVariant variants = .ok w := by
  have hfound : (Variant.byNumber? variants v.number).isSome :=
    List.find?_isSome.2 ⟨v, hv, beq_self_eq_true _⟩
  obtain ⟨w, hw⟩ := Option.isSome_iff_exists.1 hfound
  exact ⟨w, by simp only [toVariant, hw]⟩

/-- **A value of a type is loaded under it.** Only an enumeration without
variants has no value that can be loaded. -/
theorem Value.Conforms.exists_load {type : FieldType} {v : Value}
    (h : v.Conforms catalog FieldType.IsNullable type) (hne : type ≠ .enum []) :
    ∃ w, type.load v = .ok w := by
  cases h with
  | null hnull =>
    match type, hnull with
    | .record _, _ => exact ⟨_, rfl⟩
    | .enum [], _ => exact absurd rfl hne
  | variant hv =>
    obtain ⟨w, hw⟩ := Value.toVariant_of_mem hv
    exact ⟨.variant w, by rw [FieldType.load, hw]; rfl⟩
  | _ => exact ⟨_, rfl⟩

theorem exists_of_map_eq_ok {α β : Type} {x : Except Error α} {f : α → β}
    (h : ∃ b, x.map f = .ok b) : ∃ a, x = .ok a := by
  obtain ⟨b, hb⟩ := h
  cases x with
  | error e => cases hb
  | ok a => exact ⟨a, rfl⟩

namespace Sample

theorem exists_loadCounters {entries : List (String × Value)}
    (h : ∀ e ∈ entries, e.2.Conforms catalog FieldType.IsNullable .int64) :
    ∀ counters, ∃ counters', loadCounters counters entries = .ok counters' := by
  induction entries with
  | nil => exact fun counters => ⟨counters, rfl⟩
  | cons e entries ih =>
    intro counters
    rw [List.forall_mem_cons] at h
    obtain ⟨n, hn⟩ : ∃ n : Int64, Primitive.load e.2 = .ok n :=
      exists_of_map_eq_ok (h.1.exists_load nofun)
    obtain ⟨counters', hc⟩ := ih h.2 (insertCounter e.1 n counters)
    exact ⟨counters', bind_eq_ok.2 ⟨n, hn, hc⟩⟩

theorem exists_load_counters {v : Value}
    (h : v.Conforms catalog FieldType.IsNullable (.map .int64)) :
    ∃ entries counters, v.toMap = .ok entries ∧ loadCounters [] entries = .ok counters := by
  cases h with
  | null hnull => exact hnull.elim
  | map _ hentries =>
    obtain ⟨counters, hcounters⟩ := exists_loadCounters hentries []
    exact ⟨_, counters, rfl, hcounters⟩

/-- **A record of the schema is one of an element.** -/
theorem exists_load {r : Record} (h : Record.Conforms catalog FieldType.IsNullable schema r) :
    ∃ x, load r = .ok x := by
  have hvalue : ∀ (i : Nat) (type : FieldType), (schema.fields[i]?).map Field.type = some type →
      (r.take i).1.Conforms catalog FieldType.IsNullable type := by
    intro i type htype
    obtain ⟨f, hf, rfl⟩ := Option.map_eq_some_iff.1 htype
    exact h.take hf
  have hload : ∀ (i : Nat) (type : FieldType), (schema.fields[i]?).map Field.type = some type →
      type ≠ .enum [] → ∃ w, type.load (r.take i).1 = .ok w :=
    fun i type htype hne => (hvalue i type htype).exists_load hne
  obtain ⟨id, hid⟩ : ∃ a : String, Primitive.load (r.take 0).1 = .ok a :=
    exists_of_map_eq_ok (hload 0 .text rfl nofun)
  obtain ⟨flag, hflag⟩ : ∃ a : Bool, Primitive.load (r.take 1).1 = .ok a :=
    exists_of_map_eq_ok (hload 1 .bool rfl nofun)
  obtain ⟨short, hshort⟩ : ∃ a : Int16, Primitive.load (r.take 2).1 = .ok a :=
    exists_of_map_eq_ok (hload 2 .int16 rfl nofun)
  obtain ⟨int, hint⟩ : ∃ a : Int32, Primitive.load (r.take 3).1 = .ok a :=
    exists_of_map_eq_ok (hload 3 .int32 rfl nofun)
  obtain ⟨long, hlong⟩ : ∃ a : Int64, Primitive.load (r.take 4).1 = .ok a :=
    exists_of_map_eq_ok (hload 4 .int64 rfl nofun)
  obtain ⟨double, hdouble⟩ : ∃ a : Double, Primitive.load (r.take 5).1 = .ok a :=
    exists_of_map_eq_ok (hload 5 .double rfl nofun)
  obtain ⟨decimal, hdecimal⟩ : ∃ a : Decimal, Primitive.load (r.take 6).1 = .ok a :=
    exists_of_map_eq_ok (hload 6 .decimal rfl nofun)
  obtain ⟨text, htext⟩ : ∃ a : String, Primitive.load (r.take 7).1 = .ok a :=
    exists_of_map_eq_ok (hload 7 .text rfl nofun)
  obtain ⟨instant, hinstant⟩ : ∃ a : Instant, Primitive.load (r.take 8).1 = .ok a :=
    exists_of_map_eq_ok (hload 8 .instant rfl nofun)
  obtain ⟨variant, hvariant⟩ : ∃ v, (r.take 9).1.toVariant Color.variants = .ok v :=
    exists_of_map_eq_ok (hload 9 (.enum Color.variants) rfl nofun)
  have hcolor : Primitive.load (r.take 9).1 = .ok (Color.ofVariant variant) := by
    rw [Primitive.load, instPrimitiveColor]
    simp only [hvariant]
    rfl
  obtain ⟨entries, counters, hentries, hcounters⟩ := exists_load_counters (hvalue 10 _ rfl)
  obtain ⟨cached, hcached⟩ : ∃ a : String, Primitive.load (r.take 11).1 = .ok a :=
    exists_of_map_eq_ok (hload 11 .text rfl nofun)
  refine ⟨⟨id, flag, short, int, long, double, decimal, text, instant, Color.ofVariant variant,
    counters, cached⟩, ?_⟩
  simp only [load, hid, hflag, hshort, hint, hlong, hdouble, hdecimal, htext, hinstant, hcolor,
    hentries, hcounters, hcached, bind, Except.bind]

/-- **An element is decoded whenever a record is.** -/
theorem exists_decode_iff {e : Entity} : (∃ x, model.decode e = .ok x) ↔
    ∃ r, schema.decode model.catalog e = .ok r := by
  constructor
  · rintro ⟨x, hx⟩
    obtain ⟨r, hr, -⟩ := bind_eq_ok.1 hx
    exact ⟨r, hr⟩
  · rintro ⟨r, hr⟩
    have hkey : ∀ i f, schema.keyField? = some (i, f) → f.type = .text := by
      rintro i f ⟨⟩
      rfl
    obtain ⟨x, hx⟩ := exists_load (Schema.decode_conforms hkey hr)
    exact ⟨x, bind_eq_ok.2 ⟨r, hr, hx⟩⟩

end Sample

/-! ## Soundness -/

/-- **Decoding is sound.** A record that is decoded under a schema whose key
is a text, from any entity, has one value of its type for each field, at
every depth. Null is only where a nested record or a variant of none is
absent or null; that is so in the record, in the records nested in it, and
in what lists and maps hold. So the sample is loaded from every record that
is decoded for it. -/
theorem Schema.decode_sound {s : Schema}
    (hkey : ∀ i f, s.keyField? = some (i, f) → f.type = .text) :
    (∀ e r, s.decode catalog e = .ok r → Record.Conforms catalog FieldType.IsNullable s r ∧
      ∀ i f, s.fields[i]? = some f → r[i]? = some .null →
        f.type.IsNullable ∧ s.LeavesNull s.zeros e.properties i f.type) ∧
    (∀ ref bag r, Wire.toValue catalog (.record ref) (.entity bag) = .ok (.record r) →
      ∀ i f, (catalog.schema ref).fields[i]? = some f → r[i]? = some .null →
        f.type.IsNullable ∧
          (catalog.schema ref).LeavesNull (catalog.schema ref).zeros bag i f.type) ∧
    (∀ type w, Wire.toValue catalog type w = .ok .null ↔ w = .null ∧ type.IsNullable) ∧
    ∀ e, (∃ x, Sample.model.decode e = .ok x) ↔
      ∃ r, Sample.schema.decode Sample.model.catalog e = .ok r := by
  -- Null conforms only under the types that may be null.
  have hnullable : ∀ {type : FieldType}, Value.Conforms catalog FieldType.IsNullable type .null →
      type.IsNullable := by
    intro type h
    cases h
    assumption
  refine ⟨fun e r h => ?_, fun ref bag r h i f hf hnull => ?_, fun type w => toValue_eq_null_iff,
    fun e => Sample.exists_decode_iff⟩
  · have hconforms := Schema.decode_conforms hkey h
    refine ⟨hconforms, fun i f hf hnull => ⟨hnullable (hconforms.value hf hnull), ?_⟩⟩
    exact Schema.decode_leavesNull h hf hnull
  · obtain ⟨r', hr', hr⟩ := bind_eq_ok.1 h
    cases hr
    have hconforms := decodeBag_conforms bag (Schema.zeros_conforms (catalog.schema ref)) hr'
    exact ⟨hnullable (hconforms.value hf hnull), decodeBag_leavesNull hr' hf hnull⟩

namespace Folder

/-- What a store may hold of a folder: a count, a property that belongs to
no field, and a folder it lies in of which only the colour is there. -/
def entity : Entity where
  key := some ⟨"Folder", "new"⟩
  properties :=
    [("g/kv_Counts_g/k_a", ⟨.integer 3, true⟩), ("Owner", ⟨.text "me", true⟩),
      ("Parent", ⟨.entity [("Color", ⟨.text "Green", false⟩), ("Tags", ⟨.null, true⟩)], true⟩)]

/-- A record comes of it in which no folder is known around the outer
one. -/
theorem decode_entity_sound : ∃ r, schema.decode schemas entity = .ok r ∧
    Record.Conforms schemas FieldType.IsNullable schema r ∧
    r[5]? = some (.record
      [.text "", .decimal .zero, .variant ⟨"Green", 2⟩, .list [], .map [], .null, .bytes []]) := by
  have hkey : ∀ i f, schema.keyField? = some (i, f) → f.type = .text := by
    rintro i f ⟨⟩
    rfl
  obtain ⟨r, hr⟩ : ∃ r, schema.decode schemas entity = .ok r := ⟨_, rfl⟩
  refine ⟨r, hr, ((Schema.decode_sound hkey).1 entity r hr).1, ?_⟩
  cases hr
  rfl

end Folder

end KindQuery
