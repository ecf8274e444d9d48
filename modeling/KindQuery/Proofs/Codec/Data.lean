import KindQuery.Proofs.Codec.Dividers
import KindQuery.Proofs.Codec.Stored
/-!
# One property for each datum

What a record is stored as is read off its slots, which are the fields that may
be stored, with their values: nothing for a slot without data, a property for
each entry of a map, and one under the name of the field for any other value.
Where maps can be told apart by their names, no two data have the same name.
Then no property takes the place of another one, and there are as many of them
as there are data (`Schema.encode_storesEach`).
-/

namespace KindQuery

variable {catalog : Catalog} {s : Schema} {f g : Field} {v : Value}

/-! ## Data -/

/-- Something that is stored as a property of its own. -/
inductive Datum where
  /-- The value of a field as a whole. -/
  | whole (f : Field)
  /-- An entry of the map in a field. -/
  | entry (f : Field) (name : String)

namespace Datum

/-- The field that it belongs to. -/
def field : Datum → Field
  | whole f | entry f _ => f

/-- The name of its property. -/
def name : Datum → String
  | whole f => f.name
  | entry f name => flattenedName f.name name

/-- Is it an entry of a map? -/
def isEntry : Datum → Bool
  | whole _ => false
  | entry _ _ => true

end Datum

/-- **The data of a value.** Null has none, nor has an empty list in a field of
lists. A map in a field of maps has its entries. -/
def Field.data (f : Field) (v : Value) : List Datum :=
  match f.type, v with
  | _, .null | .list _, .list [] => []
  | .map _, .map entries => entries.map fun e => .entry f e.1
  | _, _ => [.whole f]

/-- The data of a record, without those of the key and of fields that are never
stored. -/
def Schema.data (s : Schema) (keyIndex : Option Nat) (r : Record) : List Datum :=
  (Record.slots (s.storedFields keyIndex) r).flatMap fun slot => slot.1.data slot.2

namespace Field

theorem field_of_mem_data {d : Datum} (h : d ∈ f.data v) : d.field = f := by
  unfold data at h
  split at h
  · cases h
  · cases h
  · obtain ⟨e, -, rfl⟩ := List.mem_map.1 h
    rfl
  · rw [List.mem_singleton.1 h]
    rfl

/-- Only a field of maps has entries. -/
theorem exists_map_of_mem_data {name : String} (h : .entry g name ∈ f.data v) :
    ∃ item, f.type = .map item := by
  unfold data at h
  split at h
  · cases h
  · cases h
  · next htype => exact ⟨_, htype⟩
  · cases List.mem_singleton.1 h

theorem nodup_data (distinct : ∀ entries, v = .map entries → (entries.map Prod.fst).Nodup) :
    (f.data v).Nodup := by
  unfold data
  split
  · exact List.nodup_nil
  · exact List.nodup_nil
  · next item entries htype =>
    have entry : Function.Injective (Datum.entry f) := fun _ _ h => (Datum.entry.inj h).2
    have names := (distinct entries rfl).map entry
    rwa [List.map_map] at names
  · exact List.nodup_singleton _

/-- **A field is stored as its data**, one property for each. -/
theorem map_name_data {pairs : List (String × Property)} (h : encodeField catalog f v = .ok pairs) :
    pairs.map Prod.fst = (f.data v).map Datum.name := by
  cases encodeField_encodes h with
  | null => simp [data]
  | noItems htype => simp [data, htype]
  | items => simp [data, Datum.name]
  | entries htype hentries =>
    rw [(encodeEntries_names hentries).1]
    simp [data, htype, Function.comp_def, Datum.name]
  | record => simp [data, Datum.name]
  | whole some list hp =>
    unfold data
    split
    · cases some
    · next htype => cases list _ _ htype rfl
    · next htype =>
      rw [htype] at hp
      cases hp
    · rfl

end Field

/-! ## Slots -/

namespace Record

variable {fs : List (Option Field)} {r : Record}

/-- The fields of slots are those that may be stored. -/
theorem map_fst_slots : (slots fs r).map Prod.fst = fs.reduceOption := by
  induction fs generalizing r with
  | nil => rfl
  | cons g fs ih =>
    cases g with
    | none => exact ih
    | some g => rw [slots, List.map_cons, ih]; rfl

/-- Parts have the names of their data. -/
theorem map_name_data {slots : List (Field × Value)} {parts : List (List (String × Property))}
    (h : List.Forall₂ (fun slot part => encodeField catalog slot.1 slot.2 = .ok part) slots parts) :
    parts.flatten.map Prod.fst =
      (slots.flatMap fun slot => slot.1.data slot.2).map Datum.name := by
  induction h with
  | nil => rfl
  | cons hpart _ ih =>
    rw [List.flatten_cons, List.map_append, List.flatMap_cons, List.map_append, ih,
      Field.map_name_data hpart]

end Record

/-! ## Names -/

/-- The first divider in the names of the entries of the field's map is the one
behind the name of the field. -/
def Field.IsDivided (f : Field) : Prop :=
  splitFirst? flattenDivider.toList (flattenStart ++ f.name ++ flattenDivider).toList =
    some ((flattenStart ++ f.name).toList, [])

/-- Entries of divided fields share a name only if they are one. -/
theorem Field.IsDivided.eq_of_name_eq {a b : String} (hf : f.IsDivided) (hg : g.IsDivided)
    (h : flattenedName f.name a = flattenedName g.name b) : f.name = g.name ∧ a = b :=
  eq_of_flattenedName_eq (splitFirst?_name_iff.1 hf) (splitFirst?_name_iff.1 hg) h

namespace Schema

variable {keyIndex : Option Nat} {r : Record}

/-- **What is stored of a record**, as a bag of properties: one for each datum in
their order, under names of which none occurs twice, so that each property of
each field is kept. -/
structure StoresEach (catalog : Catalog) (s : Schema) (keyIndex : Option Nat) (r : Record)
    (bag : Entries Property) : Prop where
  names : bag.names = (s.data keyIndex r).map Datum.name
  distinct : bag.names.Nodup
  kept : ∃ parts, List.Forall₂ (fun slot part => encodeField catalog slot.1 slot.2 = .ok part)
    (Record.slots (s.storedFields keyIndex) r) parts ∧ bag = parts.flatten
  length : bag.length = (s.data keyIndex r).countP (fun d => !d.isEntry) +
    (s.data keyIndex r).countP Datum.isEntry

theorem mem_data {d : Datum} (h : d ∈ s.data keyIndex r) :
    ∃ f ∈ s.fields, ∃ v, d ∈ f.data v := by
  obtain ⟨⟨f, v⟩, hslot, hd⟩ := List.mem_flatMap.1 h
  obtain ⟨i, hf, -⟩ := Record.mem_slots_iff.1 hslot
  exact ⟨f, List.mem_of_getElem? (getElem?_storedFields_eq_some_iff.1 hf).1, v, hd⟩

/-- Fields that may be stored are fields in their order. -/
theorem reduceOption_storedFields_sublist (s : Schema) (keyIndex : Option Nat) :
    (s.storedFields keyIndex).reduceOption.Sublist s.fields := by
  have stored : (s.storedFields keyIndex).reduceOption =
      ((s.marked keyIndex).filter Prod.snd).map Prod.fst := by
    change (s.storedFields keyIndex).filterMap id = _
    rw [storedFields_eq, List.filterMap_map, ← List.filterMap_eq_map, List.filterMap_filter]
    rfl
  rw [stored]
  conv_rhs => rw [← s.map_fst_marked keyIndex]
  exact List.filter_sublist.map Prod.fst

/-- Each datum is one of its field, and no field comes twice. -/
theorem nodup_data (names : (s.fields.map Field.name).Nodup)
    (distinct : ∀ entries, .map entries ∈ r → (entries.map Prod.fst).Nodup) :
    (s.data keyIndex r).Nodup := by
  refine List.nodup_flatMap.2 ⟨fun slot hslot => ?_, ?_⟩
  · obtain ⟨i, -, hv⟩ := Record.mem_slots_iff.1 hslot
    refine Field.nodup_data fun entries heq => ?_
    rw [heq] at hv
    cases value : r[i]? with
    | none =>
      rw [value] at hv
      cases hv
    | some w =>
      rw [value] at hv
      exact distinct entries (hv ▸ List.mem_of_getElem? value)
  · have fields :
        (((Record.slots (s.storedFields keyIndex) r).map Prod.fst).map Field.name).Nodup := by
      rw [Record.map_fst_slots]
      exact names.sublist ((s.reduceOption_storedFields_sublist keyIndex).map Field.name)
    rw [List.map_map] at fields
    refine (List.pairwise_map.1 fields).imp fun hne d hd hd' => hne ?_
    exact congrArg Field.name ((Field.field_of_mem_data hd).symm.trans (Field.field_of_mem_data hd'))

/-- **A datum is known by its name.** -/
theorem eq_of_name_eq (names : (s.fields.map Field.name).Nodup)
    (check : s.checkFieldNames = .ok ())
    (divided : ∀ f ∈ s.fields, ∀ item, f.type = .map item → f.IsDivided) {d d' : Datum}
    (hd : d ∈ s.data keyIndex r) (hd' : d' ∈ s.data keyIndex r) (h : d.name = d'.name) :
    d = d' := by
  obtain ⟨f, hf, v, hd⟩ := mem_data hd
  obtain ⟨g, hg, w, hd'⟩ := mem_data hd'
  obtain rfl := Field.field_of_mem_data hd
  obtain rfl := Field.field_of_mem_data hd'
  have same : d.field.name = d'.field.name → d.field = d'.field :=
    List.inj_on_of_nodup_map names hf hg
  match d, d' with
  | .whole f, .whole g => exact congrArg Datum.whole (same h)
  | .whole f, .entry g b => exact absurd h.symm (flattenedName_ne_of_check check hf g.name b)
  | .entry f a, .whole g => exact absurd h (flattenedName_ne_of_check check hg f.name a)
  | .entry f a, .entry g b =>
    obtain ⟨item, htype⟩ := Field.exists_map_of_mem_data hd
    obtain ⟨item', htype'⟩ := Field.exists_map_of_mem_data hd'
    obtain ⟨hname, rfl⟩ := (divided f hf item htype).eq_of_name_eq (divided g hg item' htype') h
    exact congrArg (Datum.entry · a) (same hname)

/-- What fields are stored as has the names of their data. -/
theorem map_fst_encodeFields {pairs : List (String × Property)}
    (h : encodeFields catalog (s.storedFields keyIndex) r = .ok pairs) :
    pairs.map Prod.fst = (s.data keyIndex r).map Datum.name := by
  obtain ⟨parts, hparts, rfl⟩ := Record.encodeFields_eq_ok_iff.1 h
  exact Record.map_name_data hparts

/-- **No two properties of a record share a name**, if maps can be told apart. -/
theorem nodup_encodeFields {pairs : List (String × Property)}
    (names : (s.fields.map Field.name).Nodup) (check : s.checkFieldNames = .ok ())
    (divided : ∀ f ∈ s.fields, ∀ item, f.type = .map item → f.IsDivided)
    (distinct : ∀ entries, .map entries ∈ r → (entries.map Prod.fst).Nodup)
    (h : encodeFields catalog (s.storedFields keyIndex) r = .ok pairs) :
    (pairs.map Prod.fst).Nodup := by
  rw [map_fst_encodeFields h]
  exact (nodup_data names distinct).map_on fun d hd d' hd' =>
    eq_of_name_eq names check divided hd hd'

/-- **One property for each datum.** What a record of a schema with distinct
field names is stored as has the names of its data in the order of the fields:
none for the key, for fields that are never stored and for values without data;
those of its entries for a map; and the field's own for any other value. No name
occurs twice, if maps can be told apart, so that there are as many properties as
there are values stored as a whole and entries. -/
theorem encode_storesEach {e : Entity} (names : (s.fields.map Field.name).Nodup)
    (divided : ∀ f ∈ s.fields, ∀ item, f.type = .map item → f.IsDivided)
    (distinct : ∀ entries, .map entries ∈ r → (entries.map Prod.fst).Nodup)
    (h : s.encode catalog r = .ok e) : s.StoresEach catalog s.keyIndex? r e.properties := by
  obtain ⟨check, pairs, hpairs, rfl⟩ := encode_eq_ok h
  have named : pairs.map Prod.fst = (s.data s.keyIndex? r).map Datum.name :=
    map_fst_encodeFields hpairs
  have apart : (pairs.map Prod.fst).Nodup := nodup_encodeFields names check divided distinct hpairs
  refine ⟨?_, ?_, ?_, ?_⟩ <;> dsimp only <;> rw [Entries.ofPairs_of_nodup apart]
  · exact named
  · exact apart
  · exact Record.encodeFields_eq_ok_iff.1 hpairs
  · rw [← List.length_map Prod.fst, named, List.length_map, Nat.add_comm]
    simpa using List.length_eq_countP_add_countP Datum.isEntry

end Schema

/-! ## A sample -/

namespace Folder

/-- A folder lies in another folder. -/
def schema : Schema where
  name := "Folder"
  fields :=
    [⟨"Path", .text, .key⟩, ⟨"Size", .decimal, .normal⟩,
      ⟨"Color", .enum [⟨"Red", 1⟩, ⟨"Green", 2⟩], .notIndexed⟩, ⟨"Tags", .list .text, .normal⟩,
      ⟨"Counts", .map .int16, .normal⟩, ⟨"Parent", .record 0, .normal⟩,
      ⟨"Cached", .bytes, .notPersisted⟩]

/-- The only schema is its own. -/
def schemas : Catalog := ⟨[schema]⟩

/-- A green folder without a path. Little is known of the folder it lies
in. -/
def record : Record :=
  [.text " ", .decimal ⟨true, 0, 2, Decimal.zero.mantissa_lt, by decide⟩, .variant ⟨"Green", 2⟩,
    .list [.text "new", .null], .map [("b", .null), ("a", .int16 (-1))],
    .record [.text "in", .null, .null, .null, .null, .null, .bytes [1]], .bytes [2]]

theorem nested_eq {s : Schema} (h : schemas.Nested schema s) : s = schema := by
  induction h with
  | self => rfl
  | field _ hf href ih =>
    subst ih
    simp only [schema, List.mem_cons, List.not_mem_nil, or_false] at hf
    rcases hf with rfl | rfl | rfl | rfl | rfl | rfl | rfl <;>
      simp only [FieldType.refs, List.not_mem_nil, List.mem_singleton] at href
    subst href
    rfl

theorem isMapName_counts : IsMapName "Counts" := ⟨by decide, by decide⟩

theorem sound_schema : schemas.Sound schema := by
  intro s hs
  rw [nested_eq hs]
  refine ⟨by decide, ?_, ?_⟩
  · simp [schema, FieldType.EnumsDistinct]
  · simp [schema, isMapName_counts]

/-- The list of tags, a map with two entries, and no property for the blank path
and the cached bytes. -/
theorem encode_storesEach_record : ∃ e, schema.encode schemas record = .ok e ∧
    schema.StoresEach schemas schema.keyIndex? record e.properties ∧
    e.properties.names =
      ["Size", "Color", "Tags", "g/kv_Counts_g/k_b", "g/kv_Counts_g/k_a", "Parent"] := by
  obtain ⟨e, he⟩ : ∃ e, schema.encode schemas record = .ok e := ⟨_, rfl⟩
  have sound : schema.Sound := sound_schema schema .self
  have divided : ∀ f ∈ schema.fields, ∀ item, f.type = .map item → f.IsDivided :=
    fun f hf item htype => (sound.maps f hf item htype).split
  have distinct : ∀ entries, .map entries ∈ record → (entries.map Prod.fst).Nodup := by
    simp [record]
  have stored := schema.encode_storesEach sound.names divided distinct he
  refine ⟨e, he, stored, ?_⟩
  rw [stored.names]
  decide

end Folder

end KindQuery
