import KindQuery.Proofs.Codec.Dividers
import KindQuery.Proofs.Codec.Filled
import KindQuery.Proofs.Codec.Stored
/-!
# Fields that are never stored

Nothing of a field that is never stored goes into a bag of properties
(`Schema.Spares`). On the way back the property under its name is passed
over, and so the field has the zero of its type, unless the bag has a
flattened entry of it: whether a field is stored is not asked before an
entry is put into its map. `Schema.isolates_unpersisted` says both for
entities and for nested bags.
-/

namespace KindQuery

variable {catalog : Catalog}

/-! ## Names of a field -/

/-- The names of the properties that a field is stored as: its own, and
those of entries if it holds maps. -/
def Field.IsStoredAs (f : Field) (name : String) : Prop :=
  name = f.name ∨ ∃ item entry, f.type = .map item ∧ isBlank entry = false ∧
    name = flattenedName f.name entry

/-- There is a property among others that an entry of the field's map would be
read from. -/
def Field.HasEntry (f : Field) (bag : List (String × Property)) : Prop :=
  ∃ p ∈ bag, isFlattened p.1 = true ∧ ∃ entry, splitFlattened? p.1 = some (f.name, entry)

/-! ## What is written -/

theorem encodeField_isStoredAs {f : Field} {v : Value} {pairs : List (String × Property)}
    (h : encodeField catalog f v = .ok pairs) : ∀ p ∈ pairs, f.IsStoredAs p.1 := by
  intro p hp
  rcases encodeField_cases h with rfl | ⟨q, rfl⟩ | ⟨item, entries, htype, -, hentries⟩
  · cases hp
  · exact .inl (by rw [List.mem_singleton.1 hp])
  · obtain ⟨hnames, hblank⟩ := encodeEntries_names hentries
    have hname : p.1 ∈ pairs.map Prod.fst := List.mem_map_of_mem hp
    rw [hnames] at hname
    obtain ⟨entry, hentry, heq⟩ := List.mem_map.1 hname
    exact .inr ⟨item, entry, htype, hblank entry hentry, heq.symm⟩

/-- Every property that is written belongs to a field that is stored. -/
theorem encodeFields_isStoredAs {fs : List (Option Field)} {vs : List Value}
    {pairs : List (String × Property)} (h : encodeFields catalog fs vs = .ok pairs) :
    ∀ p ∈ pairs, ∃ (i : Nat) (f : Field), fs[i]? = some (some f) ∧ f.IsStoredAs p.1 := by
  intro p hp
  obtain ⟨⟨f, v⟩, hslot, part, hpart, hp⟩ := Record.exists_slot_of_mem h hp
  obtain ⟨i, hf, -⟩ := Record.mem_slots_iff.1 hslot
  exact ⟨i, f, hf, encodeField_isStoredAs hpart p hp⟩

/-- A value without a stored field is not looked at. -/
theorem encodeFields_set {fs : List (Option Field)} {i : Nat} (h : fs[i]? = some none)
    (vs : List Value) (v : Value) :
    encodeFields catalog fs (vs.set i v) = encodeFields catalog fs vs := by
  induction vs generalizing fs i with
  | nil => rfl
  | cons w vs ih =>
    match fs, i with
    | [], _ => cases h
    | f :: fs, 0 =>
      cases h
      rfl
    | none :: fs, i + 1 =>
      have hrest : fs[i]? = some none := h
      exact ih hrest
    | some f :: fs, i + 1 =>
      have hrest : fs[i]? = some none := h
      rw [List.set_cons_succ, encodeFields, encodeFields, ih hrest]

namespace Schema

variable {s : Schema} {i : Nat} {f : Field} {keyIndex : Option Nat}

/-- **A bag that nothing of a field is written into.** Each property is one
that another field is stored as. It is not under the name of the field, and
not under that of an entry of it unless names join the divider. -/
structure Spares (s : Schema) (f : Field) (bag : List (String × Property)) : Prop where
  other : ∀ p ∈ bag, ∃ g ∈ s.fields, g.isPersisted = true ∧ g.name ≠ f.name ∧ g.IsStoredAs p.1
  name : ∀ p ∈ bag, p.1 ≠ f.name
  entry : ∀ p ∈ bag, ∀ entry, p.1 = flattenedName f.name entry →
    JoinsDivider f.name ∨ ∃ g ∈ s.fields, g.name ≠ f.name ∧ JoinsDivider g.name

theorem Spares.mono {bag bag' : List (String × Property)} (h : s.Spares f bag)
    (hbag : ∀ p ∈ bag', p ∈ bag) : s.Spares f bag' :=
  ⟨fun p hp => h.other p (hbag p hp), fun p hp => h.name p (hbag p hp),
    fun p hp => h.entry p (hbag p hp)⟩

/-- Of a field that is never stored nothing is written. -/
theorem spares_of_encodeFields {r : Record} {pairs : List (String × Property)}
    (hs : (s.fields.map Field.name).Nodup) (hcheck : s.checkFieldNames = .ok ())
    (hf : s.fields[i]? = some f) (hp : f.isPersisted = false)
    (h : encodeFields catalog (s.storedFields keyIndex) r = .ok pairs) : s.Spares f pairs := by
  have hother : ∀ p ∈ pairs, ∃ g ∈ s.fields, g.isPersisted = true ∧ g.name ≠ f.name ∧
      g.IsStoredAs p.1 := by
    intro p hpair
    obtain ⟨j, g, hg, hname⟩ := encodeFields_isStoredAs h p hpair
    obtain ⟨hg, hpersisted, -⟩ := getElem?_storedFields_eq_some_iff.1 hg
    refine ⟨g, List.mem_of_getElem? hg, hpersisted, fun heq => ?_, hname⟩
    -- Fields of one name are one, and only one of these is stored.
    have hgf : g = f :=
      List.inj_on_of_nodup_map hs (List.mem_of_getElem? hg) (List.mem_of_getElem? hf) heq
    rw [hgf, hp] at hpersisted
    cases hpersisted
  have hmem : f ∈ s.fields := List.mem_of_getElem? hf
  refine ⟨hother, fun p hpair heq => ?_, fun p hpair entry heq => ?_⟩
  · obtain ⟨g, -, -, hne, hname | ⟨item, entry, -, -, hname⟩⟩ := hother p hpair
    · exact hne (hname.symm.trans heq)
    · exact flattenedName_ne_of_check hcheck hmem g.name entry (hname.symm.trans heq)
  · obtain ⟨g, hg, -, hne, hname | ⟨item, entry', -, -, hname⟩⟩ := hother p hpair
    · exact absurd (heq.symm.trans hname) (flattenedName_ne_of_check hcheck hg f.name entry)
    · by_contra hjoin
      rw [not_or] at hjoin
      have hjg : ¬ JoinsDivider g.name := fun hj => hjoin.2 ⟨g, hg, hne, hj⟩
      exact hne (name_eq_of_flattenedName_eq hcheck hg hmem hjg hjoin.1 (hname.symm.trans heq)).1

theorem encodeFields_set_unpersisted (hf : s.fields[i]? = some f) (hp : f.isPersisted = false)
    (r : Record) (v : Value) :
    encodeFields catalog (s.storedFields keyIndex) (r.set i v) =
      encodeFields catalog (s.storedFields keyIndex) r := by
  refine encodeFields_set ?_ r v
  rw [getElem?_storedFields, hf]
  simp [hp]

/-- The key of a record is read from the place of the key only. -/
theorem recordKey?_set (hkey : s.keyIndex? ≠ some i) (r : Record) (v : Value) :
    s.recordKey? (r.set i v) = s.recordKey? r := by
  unfold recordKey?
  cases hk : s.keyIndex? with
  | none => rfl
  | some k =>
    have hne : i ≠ k := fun h => hkey (by rw [hk, h])
    have hget : Record.get? (r.set i v) k = Record.get? r k := by
      rw [Record.get?, Record.get?, List.getElem?_set_ne hne]
    rw [Option.bind_some, Option.bind_some, hget]

/-- Nor does the entity of a record depend on its value. -/
theorem encode_set_unpersisted (hf : s.fields[i]? = some f) (hp : f.isPersisted = false)
    (hkey : s.keyIndex? ≠ some i) (r : Record) (v : Value) :
    s.encode catalog (r.set i v) = s.encode catalog r := by
  rw [encode, encode, encodeFields_set_unpersisted hf hp, recordKey?_set hkey]

theorem spares_of_encode {r : Record} {e : Entity} (hs : (s.fields.map Field.name).Nodup)
    (hf : s.fields[i]? = some f) (hp : f.isPersisted = false) (h : s.encode catalog r = .ok e) :
    s.Spares f e.properties := by
  obtain ⟨hcheck, pairs, hpairs, rfl⟩ := encode_eq_ok h
  exact (spares_of_encodeFields hs hcheck hf hp hpairs).mono fun p => Entries.mem_ofPairs

/-! ## What is read -/

/-- What fills the place of a field that is never stored are entries of its
map. -/
theorem exists_entry_of_mem_fillsAt {bag : List (String × Property)} {x : Fill}
    (hf : s.fields[i]? = some f) (hp : f.isPersisted = false) (hx : x ∈ s.fillsAt catalog i bag) :
    ∃ item entry v, f.type = .map item ∧ x = .entry entry v ∧
      ∃ p ∈ bag, isFlattened p.1 = true ∧ splitFlattened? p.1 = some (f.name, entry) := by
  obtain ⟨p, hpair, hfill⟩ := mem_fillsAt.1 hx
  cases x with
  | whole v =>
    obtain ⟨type, htarget, -⟩ := fill_eq_whole_iff.1 hfill
    obtain ⟨-, g, hg, hpersisted, -⟩ := target_eq_slot_iff.1 htarget
    cases hf.symm.trans (field?_sound hg).1
    rw [hp] at hpersisted
    cases hpersisted
  | entry entry v =>
    obtain ⟨item, htarget, -⟩ := fill_eq_entry_iff.1 hfill
    obtain ⟨hflat, g, hsplit, hg, htype⟩ := target_eq_entry_iff.1 htarget
    cases hf.symm.trans (field?_sound hg).1
    exact ⟨item, entry, v, htype, rfl, p, hpair, hflat, hsplit⟩

/-- Where names are distinct, a field is found under its name. -/
theorem field?_of_getElem? (hs : (s.fields.map Field.name).Nodup) (hf : s.fields[i]? = some f) :
    s.field? f.name = some (i, f) := by
  obtain ⟨hi, hget⟩ := List.getElem?_eq_some_iff.1 hf
  have hfields : s.fields = s.fields.take i ++ f :: s.fields.drop (i + 1) := by
    rw [← hget, List.getElem_cons_drop, List.take_append_drop]
  have hlength : (s.fields.take i).length = i := by
    rw [List.length_take]
    omega
  rw [field?_of_nodup hs hfields, hlength]

/-- And every entry of its map in a bag that is decoded does. -/
theorem fillsAt_ne_nil_of_hasEntry {bag : List (String × Property)} {r : Record}
    (hs : (s.fields.map Field.name).Nodup) (hf : s.fields[i]? = some f)
    (h : decodeBag catalog s s.zeros bag = .ok r) (hentry : f.HasEntry bag) :
    s.fillsAt catalog i bag ≠ [] := by
  obtain ⟨p, hpair, hflat, entry, hsplit⟩ := hentry
  obtain ⟨x, hx⟩ := exists_decodeBag_iff.1 ⟨r, h⟩ p hpair
  have hfield : s.field? f.name = some (i, f) := field?_of_getElem? hs hf
  obtain ⟨t, ht, hrest⟩ := bind_eq_ok.1 hx
  cases target_eq_ok_iff.1 ht with
  | unknown hname | unstored hname | stored hname =>
    rw [hflat] at hname
    cases hname
  | unknownMap _ hsplit' hf' =>
    cases hsplit.symm.trans hsplit'
    cases hfield.symm.trans hf'
  | entry _ hsplit' hf' _ =>
    cases hsplit.symm.trans hsplit'
    cases hfield.symm.trans hf'
    obtain ⟨v, hv, -⟩ := bind_eq_ok.1 hrest
    exact List.ne_nil_of_mem (mem_fillsAt.2 ⟨p, hpair, fill_eq_entry_iff.2 ⟨_, ht, hv⟩⟩)

/-- **What a field that is never stored is after decoding**: zero, unless the
bag has an entry of its map. -/
theorem getElem?_decodeBag_eq_zero_iff {bag : List (String × Property)} {r : Record}
    (hs : (s.fields.map Field.name).Nodup) (hf : s.fields[i]? = some f)
    (hp : f.isPersisted = false) (h : decodeBag catalog s s.zeros bag = .ok r) :
    (r[i]? = some f.type.zero ↔ ¬ f.HasEntry bag) ∧
      ((∀ item, f.type ≠ .map item) → r[i]? = some f.type.zero) := by
  have hvalue := getElem?_decodeBag_zeros h hf
  have hzero : s.fillsAt catalog i bag = [] → r[i]? = some f.type.zero := by
    intro hnil
    rw [hvalue, hnil]
    rfl
  have hnil : (∀ item entry v, f.type = .map item → .entry entry v ∉ s.fillsAt catalog i bag) →
      s.fillsAt catalog i bag = [] := by
    intro hnone
    refine List.eq_nil_iff_forall_not_mem.2 fun x hx => ?_
    obtain ⟨item, entry, v, htype, rfl, -⟩ := exists_entry_of_mem_fillsAt hf hp hx
    exact hnone item entry v htype hx
  refine ⟨⟨fun hr hentry => ?_, fun hnone => ?_⟩, fun hmap => ?_⟩
  · -- The last of the entries is still in the map.
    obtain ⟨fills, x, hlast⟩ :=
      (List.eq_nil_or_concat' _).resolve_left (fillsAt_ne_nil_of_hasEntry hs hf h hentry)
    have hx : x ∈ s.fillsAt catalog i bag := by
      rw [hlast]
      simp
    obtain ⟨item, entry, v, htype, rfl, -⟩ := exists_entry_of_mem_fillsAt hf hp hx
    obtain ⟨entries, hmap, hfind⟩ := exists_insertEntry entry v
      (some (fills.foldl Fill.apply f.type.zero))
    rw [hvalue, hlast, List.foldl_append, List.foldl_cons, List.foldl_nil, Fill.apply, hmap,
      htype] at hr
    cases hr
    cases hfind
  · refine hzero (hnil fun item entry v htype hx => hnone ?_)
    obtain ⟨item, entry, v, -, -, p, hpair, hflat, hsplit⟩ := exists_entry_of_mem_fillsAt hf hp hx
    exact ⟨p, hpair, hflat, entry, hsplit⟩
  · exact hzero (hnil fun item entry v htype => absurd htype (hmap item))

/-- **Fields that are never stored are kept out of the store**: what is
written is the same for all their values, and is written for other fields.
What is read leaves them zero, unless a map has stale flattened entries in
the store. In nested records it is the same. -/
theorem isolates_unpersisted (catalog : Catalog) (hs : (s.fields.map Field.name).Nodup)
    (hf : s.fields[i]? = some f) (hp : f.role = .notPersisted) :
    (s.keyIndex? ≠ some i →
      (∀ r v, s.encode catalog (r.set i v) = s.encode catalog r) ∧
      (∀ r e, s.encode catalog r = .ok e → s.Spares f e.properties) ∧
      ∀ e r, s.decode catalog e = .ok r →
        (r[i]? = some f.type.zero ↔ ¬ f.HasEntry e.properties) ∧
          ((∀ item, f.type ≠ .map item) → r[i]? = some f.type.zero)) ∧
    (∀ r v, encodeFields catalog (s.storedFields none) (r.set i v) =
      encodeFields catalog (s.storedFields none) r) ∧
    (s.checkFieldNames = .ok () → ∀ r pairs,
      encodeFields catalog (s.storedFields none) r = .ok pairs → s.Spares f pairs) ∧
    ∀ bag r, decodeBag catalog s s.zeros bag = .ok r →
      (r[i]? = some f.type.zero ↔ ¬ f.HasEntry bag) ∧
        ((∀ item, f.type ≠ .map item) → r[i]? = some f.type.zero) := by
  have hp : f.isPersisted = false := by rw [Field.isPersisted, hp]; rfl
  refine ⟨fun hkey => ⟨encode_set_unpersisted hf hp hkey, fun r e => spares_of_encode hs hf hp, ?_⟩,
    encodeFields_set_unpersisted hf hp, fun hcheck r pairs => spares_of_encodeFields hs hcheck hf hp,
    fun bag r => getElem?_decodeBag_eq_zero_iff hs hf hp⟩
  intro e r h
  obtain ⟨r₀, hr₀, h⟩ := bind_eq_ok.1 h
  rw [← Except.ok.inj h, getElem?_fillKey_of_not fun hkey' => hkey hkey'.2]
  exact getElem?_decodeBag_eq_zero_iff hs hf hp hr₀

end Schema

namespace Tagged

/-- A key, a text and a map, of which only the key is stored. -/
def schema : Schema where
  name := "Tagged"
  fields := [⟨"Id", .text, .key⟩, ⟨"Note", .text, .notPersisted⟩,
    ⟨"Tags", .map .int64, .notPersisted⟩]

/-- An entity with what earlier versions may have stored. -/
def entity : Entity where
  key := some ⟨"Tagged", "one"⟩
  properties := [("Note", ⟨.text "stale", true⟩), ("Tags", ⟨.integer 4, true⟩),
    ("g/kv_Tags_g/k_a", ⟨.integer 1, true⟩)]

/-- Nothing of the map is stored, and yet it is loaded from what is there:
what is passed over is the properties under the names of the fields. -/
theorem isolates_note_not_tags :
    (∀ v, schema.encode ⟨[]⟩ [.text "one", .text "new", v] =
      schema.encode ⟨[]⟩ [.text "one", .text "new", .map []]) ∧
    ∃ r, schema.decode ⟨[]⟩ entity = .ok r ∧ r[1]? = some (.text "") ∧
      r[2]? ≠ some (.map []) := by
  have hs : (schema.fields.map Field.name).Nodup := by decide
  have htags := Schema.isolates_unpersisted ⟨[]⟩ (i := 2) hs rfl rfl
  have hnote := Schema.isolates_unpersisted ⟨[]⟩ (i := 1) hs rfl rfl
  have hkey : ∀ i, i ≠ 0 → schema.keyIndex? ≠ some i := by
    intro i hi h
    exact hi (Option.some.inj h).symm
  obtain ⟨r, hr⟩ : ∃ r, schema.decode ⟨[]⟩ entity = .ok r := ⟨_, rfl⟩
  have hentry : Field.HasEntry ⟨"Tags", .map .int64, .notPersisted⟩ entity.properties :=
    ⟨("g/kv_Tags_g/k_a", ⟨.integer 1, true⟩), by simp [entity], by decide, "a", by decide⟩
  refine ⟨fun v => (htags.1 (hkey 2 (by decide))).1 [.text "one", .text "new", .map []] v, r, hr,
    ((hnote.1 (hkey 1 (by decide))).2.2 entity r hr).2 nofun, fun hzero => ?_⟩
  exact ((htags.1 (hkey 2 (by decide))).2.2 entity r hr).1.1 hzero hentry

/-- **A field that is never stored may be loaded with what is in the
store.** -/
theorem fills_unpersisted : (schema.fields.map Field.name).Nodup ∧ schema.keyIndex? = some 0 ∧
    schema.fields[2]? = some ⟨"Tags", .map .int64, .notPersisted⟩ ∧
    ∃ r, schema.decode ⟨[]⟩ ⟨none, [("g/kv_Tags_g/k_a", ⟨.integer 1, true⟩)]⟩ = .ok r ∧
      r[2]? = some (.map [("a", .int64 1)]) ∧ FieldType.zero (.map .int64) = .map [] :=
  ⟨by decide, rfl, rfl, _, rfl, rfl, rfl⟩

end Tagged

end KindQuery
