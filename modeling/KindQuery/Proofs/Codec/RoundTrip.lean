import KindQuery.Proofs.Codec.Data
import KindQuery.Proofs.Codec.Settled
/-!
# Storing and loading

A record that can be stored is loaded again in its normal form
(`decode_encode`). Values travel in different ways: as a whole, as the
items of a list, as entries of a map among the properties, or as a bag of
their own. Each way has its lemma, and all of them are one induction on
the value. What they load is said exactly, with decimals settled.
-/

namespace KindQuery

variable {catalog : Catalog} {nullable : FieldType → Prop}

/-! ## Whole values -/

/-- A variant is found under its number. -/
theorem Variant.byNumber?_of_mem {variants : List Variant} {v : Variant}
    (h : (variants.map Variant.number).Nodup) (hv : v ∈ variants) :
    byNumber? variants v.number = some v := by
  induction variants with
  | nil => cases hv
  | cons w variants ih =>
    rw [List.map_cons, List.nodup_cons] at h
    rcases List.mem_cons.1 hv with rfl | hv
    · simp [byNumber?]
    · have hw : (w.number == v.number) = false :=
        beq_eq_false_iff_ne.2 fun hw => h.1 (hw ▸ List.mem_map_of_mem hv)
      simpa [byNumber?, hw] using ih h.2 hv

mutual

/-- **A value that travels as a whole** arrives in its normal form. -/
theorem toValue_toWire : ∀ (v : Value) {type : FieldType} {w : Wire},
    v.Conforms catalog nullable type → type.EnumsDistinct → v.toWire = .ok w →
    Wire.toValue catalog type w = .ok (v.normalizeBy catalog Decimal.settled type)
  | .null, type, _, _, _, hw => by
    cases hw
    rfl
  | .int16 n, _, _, hv, _, hw => by
    cases hv
    cases hw
    simp [Wire.toValue, decodeInteger, Value.normalizeBy]
  | .int32 n, _, _, hv, _, hw => by
    cases hv
    cases hw
    simp [Wire.toValue, decodeInteger, Value.normalizeBy]
  | .decimal d, _, _, hv, _, hw => by
    cases hv
    cases hw
    simp [Wire.toValue, decodeText, Decimal.parse?_text, Value.normalizeBy]
  | .bytes bs, _, _, hv, _, hw => by
    cases hv
    cases hw
    simp [Wire.toValue, decodeBlob, Base64.decode?_encode, Value.normalizeBy]
  | .variant v, _, _, hv, ht, hw => by
    cases hv with
    | variant hv =>
      cases hw
      simp [Wire.toValue, decodeInteger, Variant.byNumber?_of_mem ht hv, Value.normalizeBy]
  | .bool _, _, _, hv, _, hw | .int64 _, _, _, hv, _, hw | .double _, _, _, hv, _, hw
  | .text _, _, _, hv, _, hw | .instant _, _, _, hv, _, hw => by
    cases hv
    cases hw
    rfl
  | .key _, _, _, hv, _, _ => by cases hv
  | .list items, _, _, hv, ht, hw => by
    cases hv with
    | list hitems =>
      simp only [Value.toWire, bind_eq_ok, Except.ok.injEq] at hw
      obtain ⟨ps, hps, rfl⟩ := hw
      simp only [Wire.toValue, bind_eq_ok, Except.ok.injEq, Value.normalizeBy]
      exact ⟨_, decodeItems_toWireEach items hitems ht hps, rfl⟩
  | .map _, _, _, _, _, hw | .record _, _, _, _, _, hw => by simp [Value.toWire] at hw

theorem decodeItems_toWireEach : ∀ (vs : List Value) {item : FieldType} {ps : List Property},
    (∀ v ∈ vs, v.Conforms catalog nullable item) → item.EnumsDistinct →
    Value.toWireEach vs = .ok ps →
    decodeItems catalog item ps = .ok (normalizeEachBy catalog Decimal.settled vs item)
  | [], _, _, _, _, h => by
    cases h
    rfl
  | v :: vs, item, ps, hvs, ht, h => by
    rw [List.forall_mem_cons] at hvs
    simp only [Value.toWireEach, bind_eq_ok, Except.ok.injEq] at h
    obtain ⟨w, hw, ws, hws, rfl⟩ := h
    simp only [decodeItems, bind_eq_ok, Except.ok.injEq, normalizeEachBy]
    exact ⟨_, toValue_toWire v hvs.1 ht hw, _, decodeItems_toWireEach vs hvs.2 ht hws, rfl⟩

end

/-! ## Bags -/

section Bags

variable {s : Schema} {before after : List Field} {f : Field} {done zs : Record} {y a : Value}
  {p : Property} {rest : List (String × Property)}

/-- The property of a field fills its place. -/
theorem decodeBag_slot (h : s.Stores catalog before f after) (hd : done.length = before.length)
    (ha : Wire.toValue catalog f.type p.value = .ok a) :
    decodeBag catalog s (done ++ y :: zs) ((f.name, p) :: rest) =
      decodeBag catalog s (done ++ a :: zs) rest := by
  obtain ⟨w, indexed⟩ := p
  have hset : (done ++ y :: zs).set before.length a = done ++ a :: zs := by simp [← hd]
  rw [decodeBag, h.target_name]
  simp only [bind, Except.bind, ha, hset]

/-- The property of an entry goes to the end of the map. -/
theorem decodeBag_entry (h : s.Stores catalog before f after) (hd : done.length = before.length)
    {item : FieldType} (ht : f.type = .map item) {entry : String} (he : isBlank entry = false)
    (ha : Wire.toValue catalog item p.value = .ok a) {es : Entries Value} (hn : entry ∉ es.names) :
    decodeBag catalog s (done ++ .map es :: zs) ((flattenedName f.name entry, p) :: rest) =
      decodeBag catalog s (done ++ .map (es ++ [(entry, a)]) :: zs) rest := by
  obtain ⟨w, indexed⟩ := p
  have hget : (done ++ .map es :: zs)[before.length]? = some (.map es) := by simp [← hd]
  have hset : ∀ x, (done ++ Value.map es :: zs).set before.length x = done ++ x :: zs := by
    simp [← hd]
  rw [decodeBag, h.target_flattenedName ht he]
  simp only [bind, Except.bind, ha, hget, hset, insertEntry, Entries.insert_of_not_mem a hn]

end Bags

/-- No two properties of a record share a name, since its maps can be told apart. -/
theorem Schema.Ends.nodup {s : Schema} {keyIndex : Option Nat} {r : Record}
    {pairs : List (String × Property)} (hs : s.Ends catalog nullable [] (s.marked keyIndex) r)
    (h : encodeFields catalog (s.storedFields keyIndex) r = .ok pairs) :
    (pairs.map Prod.fst).Nodup := by
  have sound : s.Sound := hs.sound s .self
  refine s.nodup_encodeFields sound.names hs.check
    (fun f hf item htype => (sound.maps f hf item htype).split) (fun entries hmem => ?_) h
  -- A map stands in a field of maps.
  have length : r.length ≤ ((s.marked keyIndex).map Prod.fst).length := by
    rw [hs.length, List.length_map]
  rw [← List.map_snd_zip length] at hmem
  obtain ⟨⟨f, v⟩, hp, rfl⟩ := List.mem_map.1 hmem
  have hv : Value.Conforms catalog nullable f.type (.map entries) := hs.values _ hp
  generalize f.type = type at hv
  cases hv with
  | map hnodup => exact hnodup

/-- The bag of a record is loaded as its properties are, one after the
other: none of them replaces another. -/
theorem decodeBag_ofPairs {s : Schema} {keyIndex : Option Nat} {r : Record}
    {pairs : List (String × Property)} (hs : s.Ends catalog nullable [] (s.marked keyIndex) r)
    (h : encodeFields catalog (s.storedFields keyIndex) r = .ok pairs)
    (hfill : encodeFields catalog ((s.marked keyIndex).map storedField?) r = .ok pairs →
      decodeBag catalog s ([] ++ (s.marked keyIndex).map fun m => m.1.type.zero) pairs =
        .ok ([] ++ normalizeFieldsBy catalog Decimal.settled r (s.marked keyIndex))) :
    decodeBag catalog s s.zeros (Entries.ofPairs pairs) =
      .ok (normalizeFieldsBy catalog Decimal.settled r (s.marked keyIndex)) := by
  rw [Entries.ofPairs_of_nodup (hs.nodup h), s.zeros_eq keyIndex]
  rw [Schema.storedFields_eq] at h
  exact hfill h

/-- A nested record is loaded from its bag. -/
theorem toValue_entity {ref : Nat} {fields : List Value} {bag : Entries Property}
    (h : decodeBag catalog (catalog.schema ref) (catalog.schema ref).zeros bag =
      .ok (normalizeFieldsBy catalog Decimal.settled fields ((catalog.schema ref).marked none))) :
    Wire.toValue catalog (.record ref) (.entity bag) =
      .ok ((Value.record fields).normalizeBy catalog Decimal.settled (.record ref)) := by
  rw [Wire.toValue, h]
  rfl

/-! ## Properties -/

mutual

/-- **A value inside a list or a map** arrives in its normal form. -/
theorem toValue_encodeElement : ∀ (v : Value) {type : FieldType} {indexed : Bool} {p : Property},
    v.Conforms catalog nullable type → catalog.SoundType type →
    encodeElement catalog type indexed v = .ok p →
    Wire.toValue catalog type p.value = .ok (v.normalizeBy catalog Decimal.settled type)
  | .record fields, _, _, _, hv, ht, h => by
    cases hv with
    | @record ref _ hl hvs =>
      simp only [encodeElement, bind_eq_ok, Except.ok.injEq] at h
      obtain ⟨_, hc, pairs, hpairs, rfl⟩ := h
      have hends := Schema.ends_marked ht.record hc hl hvs none
      exact toValue_entity (decodeBag_ofPairs hends hpairs
        (decodeBag_encodeFields fields hends (rfl : ([] : Record).length = 0)))
  | .null, _, _, _, hv, ht, h | .bool _, _, _, _, hv, ht, h | .int16 _, _, _, _, hv, ht, h
  | .int32 _, _, _, _, hv, ht, h | .int64 _, _, _, _, hv, ht, h | .double _, _, _, _, hv, ht, h
  | .decimal _, _, _, _, hv, ht, h | .text _, _, _, _, hv, ht, h | .instant _, _, _, _, hv, ht, h
  | .bytes _, _, _, _, hv, ht, h | .variant _, _, _, _, hv, ht, h | .key _, _, _, _, hv, ht, h
  | .list _, _, _, _, hv, ht, h | .map _, _, _, _, hv, ht, h =>
    toValue_toWire _ hv ht.enums (encodeWhole_eq_ok h)

/-- The items of a list. -/
theorem decodeItems_encodeItems : ∀ (vs : List Value) {item : FieldType} {indexed : Bool}
    {ps : List Property}, (∀ v ∈ vs, v.Conforms catalog nullable item) → catalog.SoundType item →
    encodeItems catalog item indexed vs = .ok ps →
    decodeItems catalog item ps = .ok (normalizeEachBy catalog Decimal.settled vs item)
  | [], _, _, _, _, _, h => by
    cases h
    rfl
  | v :: vs, item, indexed, ps, hvs, ht, h => by
    rw [List.forall_mem_cons] at hvs
    simp only [encodeItems, bind_eq_ok, Except.ok.injEq] at h
    obtain ⟨⟨w, b⟩, hp, ps, hps, rfl⟩ := h
    simp only [decodeItems, bind_eq_ok, Except.ok.injEq, normalizeEachBy]
    exact ⟨_, toValue_encodeElement v hvs.1 ht hp, _, decodeItems_encodeItems vs hvs.2 ht hps, rfl⟩

/-- The entries of a map, of which some have arrived before. -/
theorem decodeBag_encodeEntries : ∀ (entries : List (String × Value)) {s : Schema}
    {before after : List Field} {f : Field} {item : FieldType} {indexed : Bool}
    {here rest : List (String × Property)} {done zs : Record} {es : Entries Value},
    s.Stores catalog before f after → done.length = before.length → f.type = .map item →
    (∀ e ∈ entries, e.2.Conforms catalog nullable item) →
    (es.names ++ entries.map Prod.fst).Nodup →
    encodeEntries catalog f.name item indexed entries = .ok here →
    decodeBag catalog s (done ++ .map es :: zs) (here ++ rest) =
      decodeBag catalog s (done ++
        .map (es ++ normalizeNamedBy catalog Decimal.settled entries item) :: zs) rest
  | [], s, before, after, f, item, indexed, here, rest, done, zs, es, _, _, _, _, _, h => by
    cases h
    rw [normalizeNamedBy, List.append_nil]
    rfl
  | (entry, v) :: entries, s, before, after, f, item, indexed, here, rest, done, zs, es, hs, hd,
      htype, hvs, hnodup, h => by
    obtain ⟨hv, hvs⟩ := List.forall_mem_cons.1 hvs
    obtain ⟨hb, p, ps, hp, hps, rfl⟩ := encodeEntries_cons_eq_ok.1 h
    have hsound : catalog.SoundType (.map item) := htype ▸ hs.sound.soundType hs.mem
    -- The entry is a new one, and is put behind those that have arrived.
    have hn : entry ∉ es.names := fun hmem =>
      (List.nodup_append.1 hnodup).2.2 entry hmem entry List.mem_cons_self rfl
    rw [List.cons_append,
      decodeBag_entry hs hd htype hb (toValue_encodeElement v hv hsound.map hp) hn,
      decodeBag_encodeEntries entries hs hd htype hvs (by simpa [Entries.names] using hnodup) hps,
      normalizeNamedBy, List.append_assoc]
    rfl

/-- **What a field is stored as** fills the place of the field. -/
theorem decodeBag_encodeField : ∀ (v : Value) {s : Schema} {before after : List Field} {f : Field}
    {here rest : List (String × Property)} {done zs : Record},
    s.Stores catalog before f after → done.length = before.length →
    v.Conforms catalog nullable f.type → encodeField catalog f v = .ok here →
    decodeBag catalog s (done ++ f.type.zero :: zs) (here ++ rest) =
      decodeBag catalog s (done ++ v.normalizeBy catalog Decimal.settled f.type :: zs) rest
  | .null, s, before, after, f, here, rest, done, zs, _, _, _, h => by
    cases h
    rfl
  | .list items, s, before, after, f, here, rest, done, zs, hs, hd, hv, h => by
    have hsound := hs.sound.soundType hs.mem
    generalize htype : f.type = type at *
    cases hv with
    | @list item _ hitems =>
      rw [encodeField, htype] at h
      cases hempty : items.isEmpty with
      | true =>
        -- Nothing is stored, and the zero of a list is empty.
        simp only [hempty, if_true] at h
        cases h
        rw [List.isEmpty_iff.1 hempty]
        rfl
      | false =>
        simp only [hempty, Bool.false_eq_true, if_false, bind_eq_ok, Except.ok.injEq] at h
        obtain ⟨ps, hps, rfl⟩ := h
        refine decodeBag_slot hs hd ?_
        rw [htype, Wire.toValue, decodeItems_encodeItems items hitems hsound.list hps]
        rfl
  | .map entries, s, before, after, f, here, rest, done, zs, hs, hd, hv, h => by
    generalize htype : f.type = type at *
    cases hv with
    | @map item _ hnodup hentries =>
      rw [encodeField, htype] at h
      exact decodeBag_encodeEntries entries hs hd htype hentries hnodup h
  | .record fields, s, before, after, f, here, rest, done, zs, hs, hd, hv, h => by
    have hsound := hs.sound.soundType hs.mem
    generalize htype : f.type = type at *
    cases hv with
    | @record ref _ hl hvs =>
      simp only [encodeField, htype, bind_eq_ok, Except.ok.injEq] at h
      obtain ⟨_, hc, pairs, hpairs, rfl⟩ := h
      have hends := Schema.ends_marked hsound.record hc hl hvs none
      refine decodeBag_slot hs hd ?_
      rw [htype]
      exact toValue_entity (decodeBag_ofPairs hends hpairs
        (decodeBag_encodeFields fields hends (rfl : ([] : Record).length = 0)))
  | .bool _, _, _, _, _, _, _, _, _, hs, hd, hv, h | .int16 _, _, _, _, _, _, _, _, _, hs, hd, hv, h
  | .int32 _, _, _, _, _, _, _, _, _, hs, hd, hv, h | .int64 _, _, _, _, _, _, _, _, _, hs, hd, hv, h
  | .double _, _, _, _, _, _, _, _, _, hs, hd, hv, h
  | .decimal _, _, _, _, _, _, _, _, _, hs, hd, hv, h
  | .text _, _, _, _, _, _, _, _, _, hs, hd, hv, h
  | .instant _, _, _, _, _, _, _, _, _, hs, hd, hv, h
  | .bytes _, _, _, _, _, _, _, _, _, hs, hd, hv, h
  | .variant _, _, _, _, _, _, _, _, _, hs, hd, hv, h
  | .key _, _, _, _, _, _, _, _, _, hs, hd, hv, h => by
    obtain ⟨p, hp, hhere⟩ := bind_eq_ok.1 h
    cases hhere
    exact decodeBag_slot hs hd
      (toValue_toWire _ hv (hs.sound.soundType hs.mem).enums (encodeWhole_eq_ok hp))

/-- **What the fields at the end of a schema are stored as** fills their
places. -/
theorem decodeBag_encodeFields : ∀ (vs : List Value) {s : Schema} {before : List Field}
    {marks : List (Field × Bool)} {pairs : List (String × Property)} {done : Record},
    s.Ends catalog nullable before marks vs → done.length = before.length →
    encodeFields catalog (marks.map storedField?) vs = .ok pairs →
    decodeBag catalog s (done ++ marks.map fun m => m.1.type.zero) pairs =
      .ok (done ++ normalizeFieldsBy catalog Decimal.settled vs marks)
  | [], s, before, marks, pairs, done, hs, hd, h => by
    cases h
    rw [List.eq_nil_of_length_eq_zero hs.length.symm]
    rfl
  | v :: vs, s, before, [], pairs, done, hs, hd, h => by cases hs.length
  | v :: vs, s, before, (f, false) :: marks, pairs, done, hs, hd, h => by
    -- Nothing arrives for the field, which stays zero.
    have hd' : (done ++ [f.type.zero]).length = (before ++ [f]).length := by simp [hd]
    have hrest := decodeBag_encodeFields vs hs.tail hd' h
    simpa [normalizeFieldsBy] using hrest
  | v :: vs, s, before, (f, true) :: marks, pairs, done, hs, hd, h => by
    obtain ⟨here, hhere, hbind⟩ := bind_eq_ok.1 h
    obtain ⟨ps, hps, hpairs⟩ := bind_eq_ok.1 hbind
    cases hpairs
    rw [List.map_cons, decodeBag_encodeField v (hs.stores rfl) hd hs.head hhere]
    have hd' : (done ++ [v.normalizeBy catalog Decimal.settled f.type]).length =
        (before ++ [f]).length := by simp [hd]
    have hrest := decodeBag_encodeFields vs hs.tail hd' hps
    simpa [normalizeFieldsBy] using hrest

end

/-! ## Records -/

/-- The key of a record fills a key field that is still empty with the text
that is there, unless it is blank. -/
theorem Schema.fillKey_recordKey? {s : Schema} {i : Nat} {r fields : Record}
    (hi : s.keyIndex? = some i) (hempty : fields[i]? = some (.text "")) :
    s.fillKey (s.recordKey? r) fields = fields.set i (keyText r[i]?) := by
  have hblank : fields.set i (.text "") = fields := by
    obtain ⟨hlt, hget⟩ := List.getElem?_eq_some_iff.1 hempty
    rw [← hget, List.set_getElem_self]
  -- Where there is no text there is no key, and the field stays empty.
  have hnone : (∀ name, r[i]? ≠ some (.text name)) →
      s.fillKey (s.recordKey? r) fields = fields.set i (keyText r[i]?) := by
    intro hr
    have hkey : s.recordKey? r = none := by
      rw [recordKey?, hi, Option.bind_some, Record.get?]
      split
      next name hname => exact absurd hname (hr name)
      next => rfl
    have htext : keyText r[i]? = .text "" := by
      unfold keyText
      split
      next name hname => exact absurd hname (hr name)
      next => rfl
    rw [hkey, htext, hblank]
    simp only [fillKey, hi]
  cases hv : r[i]? with
  | none => exact hv ▸ hnone (by simp [hv])
  | some v =>
    cases v with
    | text name =>
      have hkey : s.recordKey? r = if isBlank name then none else some ⟨s.name, name⟩ := by
        rw [recordKey?, hi, Option.bind_some, Record.get?, hv]
      rw [hkey, keyText]
      cases isBlank name with
      | true => simp only [fillKey, hi, if_true, hblank]
      | false => simp only [fillKey, hi, Bool.false_eq_true, if_false]
    | _ => exact hv ▸ hnone (by simp [hv])

/-- **What is loaded of a stored record.** -/
theorem decode_encode_settled {s : Schema} {r : Record} {e : Entity} (hs : catalog.Sound s)
    (hk : ∀ i f, s.keyField? = some (i, f) → f.type = .text) (hr : r.Conforms catalog nullable s)
    (h : s.encode catalog r = .ok e) :
    s.decode catalog e = .ok (s.normalizeBy catalog Decimal.settled r) := by
  simp only [Schema.encode, bind_eq_ok, Except.ok.injEq] at h
  obtain ⟨_, hc, pairs, hpairs, rfl⟩ := h
  have hends := Schema.ends_marked hs hc hr.length hr.values s.keyIndex?
  rw [Schema.decode, decodeBag_ofPairs hends hpairs
    (decodeBag_encodeFields r hends (rfl : ([] : Record).length = 0))]
  refine congrArg Except.ok ?_
  rw [Schema.normalizeBy]
  cases hfield : s.keyField? with
  | none =>
    have hi : s.keyIndex? = none := by rw [Schema.keyIndex?, hfield]; rfl
    simp only [Schema.fillKey, hi]
  | some k =>
    obtain ⟨i, f⟩ := k
    have hi : s.keyIndex? = some i := by rw [Schema.keyIndex?, hfield]; rfl
    have hf : f.type.zero = .text "" := by rw [hk i f hfield]; rfl
    have hmark := Schema.getElem?_marked_keyIndex hfield
    have hempty : (normalizeFieldsBy catalog Decimal.settled r (s.marked s.keyIndex?))[i]? =
        some (.text "") := hf ▸ getElem?_normalizeFieldsBy hends.length hmark
    simp only [hi] at hempty ⊢
    exact Schema.fillKey_recordKey? hi hempty

/-- **A record that can be stored is loaded in its normal form.** Maps are
equal in any order, decimals as numbers, and doubles by their bits. -/
theorem decode_encode {s : Schema} {r : Record} {e : Entity} (hs : catalog.Sound s)
    (hk : ∀ i f, s.keyField? = some (i, f) → f.type = .text)
    (hr : r.Conforms catalog (fun _ => True) s) (h : s.encode catalog r = .ok e) :
    ∃ r', s.decode catalog e = .ok r' ∧ Record.sameBits r' (s.normalize catalog r) = true := by
  refine ⟨_, decode_encode_settled hs hk hr h, ?_⟩
  -- Settled decimals are the same numbers, and the key field is a text.
  have hvalues : ∀ p ∈ ((s.marked s.keyIndex?).map Prod.fst).zip r,
      p.2.Conforms catalog (fun _ => True) p.1.type := by
    rw [Schema.map_fst_marked]
    exact hr.values
  rw [Record.sameBits, Schema.normalize, Schema.normalizeBy, Schema.normalizeBy]
  generalize s.marked s.keyIndex? = marks at *
  have hfields : Value.sameEachBy (fun x y => x.bits == y.bits)
      (normalizeFieldsBy catalog Decimal.settled r marks) (normalizeFieldsBy catalog id r marks) =
        true :=
    normalizeFieldsBy_sameEachBy (fun x => beq_self_eq_true x.bits) r hvalues
  cases s.keyIndex? with
  | none => exact hfields
  | some i =>
    refine Value.sameEachBy_set hfields ?_
    unfold keyText
    split <;> simp [Value.sameBy]

/-! ## A sample -/

namespace Folder

theorem conforms_record : record.Conforms schemas (fun _ => True) schema := by
  have hnull : ∀ type, Value.Conforms schemas (fun _ => True) type .null := fun _ => .null trivial
  have hparent : Value.Conforms schemas (fun _ => True) (.record 0)
      (.record [.text "in", .null, .null, .null, .null, .null, .bytes [1]]) := by
    refine .record rfl ?_
    change ∀ p ∈ schema.fields.zip _, _
    simp [schema, hnull, Value.Conforms.text, Value.Conforms.bytes]
  refine ⟨rfl, ?_⟩
  simp only [schema, record, List.zip_cons_cons, List.zip_nil_right, List.forall_mem_cons]
  refine ⟨.text, .decimal, .variant (by decide), .list ?_, .map (by decide) ?_, hparent, .bytes,
    List.forall_mem_nil _⟩
  · simp [hnull, Value.Conforms.text]
  · simp [hnull, Value.Conforms.int16]

/-- The blank path is loaded as the empty one, and what was null has a
value. -/
theorem decode_encode_record : ∃ e r', schema.encode schemas record = .ok e ∧
    schema.decode schemas e = .ok r' ∧ Record.sameBits r'
      [.text "", .decimal ⟨true, 0, 2, by decide, by decide⟩, .variant ⟨"Green", 2⟩,
        .list [.text "new", .text ""], .map [("b", .int16 0), ("a", .int16 (-1))],
        .record [.text "in", .decimal .zero, .variant ⟨"Red", 1⟩, .list [], .map [], .null,
          .bytes []], .bytes []] = true := by
  obtain ⟨e, he⟩ : ∃ e, schema.encode schemas record = .ok e := ⟨_, rfl⟩
  have hkey : ∀ i f, schema.keyField? = some (i, f) → f.type = .text := by
    rintro i f ⟨⟩
    rfl
  obtain ⟨r', hr', hsame⟩ := decode_encode sound_schema hkey conforms_record he
  exact ⟨e, r', he, hr', hsame⟩

end Folder

end KindQuery
