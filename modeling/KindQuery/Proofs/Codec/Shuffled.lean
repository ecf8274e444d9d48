import KindQuery.Proofs.Codec.Decoded
import KindQuery.Proofs.Codec.Dividers
import KindQuery.Proofs.Codec.Filled
/-!
# Properties in another order

The properties of an entity come in any order. Whether they are decoded
does not depend on it; what they are decoded to does where two of them get
in each other's way: a property that stands for a whole map and one of the
map's entries, or two properties that are read as one entry.
`Schema.decode_shuffle` says that nothing else depends on the order. Each
place of a record is looked at by itself, through what fills it.
-/

namespace KindQuery

variable {catalog : Catalog} {nullable : FieldType → Prop} {eq : Double → Double → Bool}

/-! ## Equal values -/

namespace Value

/-- Lists are equal when they are place by place. -/
theorem sameEachBy_iff {as bs : List Value} : sameEachBy eq as bs = true ↔
    as.length = bs.length ∧
      ∀ (i : Nat) (a b : Value), as[i]? = some a → bs[i]? = some b → a.sameBy eq b = true := by
  induction as generalizing bs with
  | nil => cases bs <;> simp [sameEachBy]
  | cons a as ih =>
    cases bs with
    | nil => simp [sameEachBy]
    | cons b bs =>
      rw [sameEachBy, Bool.and_eq_true, ih, List.length_cons, List.length_cons, Nat.succ_inj]
      constructor
      · rintro ⟨hab, hlength, hrest⟩
        refine ⟨hlength, fun i x y hx hy => ?_⟩
        cases i with
        | zero =>
          cases hx
          cases hy
          exact hab
        | succ i => exact hrest i x y hx hy
      · rintro ⟨hlength, heach⟩
        exact ⟨heach 0 a b rfl rfl, hlength, fun i x y hx hy => heach (i + 1) x y hx hy⟩

theorem sameNamedBy_iff {others : Entries Value} {as : List (String × Value)} :
    sameNamedBy eq others as = true ↔
      ∀ e ∈ as, ∃ b, others.find? e.1 = some b ∧ e.2.sameBy eq b = true := by
  induction as with
  | nil => simp [sameNamedBy]
  | cons e as ih =>
    obtain ⟨name, a⟩ := e
    rw [sameNamedBy, Bool.and_eq_true, ih, List.forall_mem_cons]
    cases others.find? name <;> simp

/-- A value of a type is equal to itself, if doubles are. -/
theorem Conforms.sameBy_self (he : ∀ x, eq x x = true) {type : FieldType} {v : Value}
    (h : v.Conforms catalog nullable type) : v.sameBy eq v = true := by
  induction h with
  | double => exact he _
  | decimal => simp [sameBy, Decimal.same]
  | list _ ih =>
    refine sameEachBy_iff.2 ⟨rfl, fun i a b ha hb => ?_⟩
    cases ha.symm.trans hb
    exact ih a (List.mem_of_getElem? ha)
  | map hnodup _ ih =>
    rw [sameBy, Bool.and_eq_true, beq_iff_eq]
    exact ⟨rfl, sameNamedBy_iff.2 fun e hmem => ⟨e.2, Entries.find?_of_mem hnodup hmem, ih e hmem⟩⟩
  | @record ref fields hlength _ ih =>
    refine sameEachBy_iff.2 ⟨rfl, fun i a b ha hb => ?_⟩
    cases ha.symm.trans hb
    have hi : i < (catalog.schema ref).fields.length := by
      rw [← hlength]
      exact (List.getElem?_eq_some_iff.1 ha).1
    have hf := List.getElem?_eq_getElem hi
    exact ih (_, a) (List.mem_of_getElem? (List.getElem?_zip_eq_some.2 ⟨hf, ha⟩))
  | _ => simp [sameBy]

end Value

/-! ## Fills of one place -/

/-- **Fills that do not get in each other's way**: nothing is put in instead
of a map that entries are put into, and what is put in under one name is
one value. -/
structure Fill.Agree (eq : Double → Double → Bool) (fills : List Fill) : Prop where
  apart : ∀ v name w, .whole v ∈ fills → .entry name w ∉ fills
  same : ∀ name v w, .entry name v ∈ fills → .entry name w ∈ fills → v.sameBy eq w = true

theorem Fill.Agree.of_perm {fills fills' : List Fill} (h : Fill.Agree eq fills)
    (hperm : fills.Perm fills') : Fill.Agree eq fills' where
  apart v name w hv hw := h.apart v name w (hperm.mem_iff.2 hv) (hperm.mem_iff.2 hw)
  same name v w hv hw := h.same name v w (hperm.mem_iff.2 hv) (hperm.mem_iff.2 hw)

theorem Entries.mem_names_insert {α : Type} {name other : String} {a : α} {es : Entries α} :
    other ∈ (insert name a es).names ↔ other = name ∨ other ∈ es.names := by
  by_cases hmem : name ∈ es.names
  · rw [names_insert_of_mem a hmem]
    exact ⟨.inr, fun h => h.elim (fun heq => heq ▸ hmem) id⟩
  · rw [insert_of_not_mem a hmem]
    simp [names, or_comm]

theorem Entries.mem_of_find? {α : Type} {name : String} {a : α} {es : Entries α}
    (h : es.find? name = some a) : (name, a) ∈ es := by
  induction es with
  | nil => cases h
  | cons e es ih =>
    obtain ⟨n, b⟩ := e
    rw [find?] at h
    split at h
    next hn =>
      cases h
      rw [hn]
      exact List.mem_cons_self
    next => exact List.mem_cons_of_mem _ (ih h)

/-- What entries make of a map: a map of what was there and of what they put
in. -/
theorem Fill.exists_foldl_entries {fills : List Fill} (h : ∀ v, .whole v ∉ fills) :
    ∀ {es : Entries Value}, es.names.Nodup → ∃ es' : Entries Value,
      fills.foldl Fill.apply (.map es) = .map es' ∧ es'.names.Nodup ∧
        (∀ e ∈ es', e ∈ es ∨ .entry e.1 e.2 ∈ fills) ∧
        ∀ name, name ∈ es'.names ↔ name ∈ es.names ∨ ∃ v, .entry name v ∈ fills := by
  induction fills with
  | nil => exact fun {es} hnodup => ⟨es, rfl, hnodup, fun e he => .inl he, by simp⟩
  | cons x fills ih =>
    intro es hnodup
    cases x with
    | whole v => exact absurd List.mem_cons_self (h v)
    | entry name v =>
      have hinsert : (Entries.insert name v es).names.Nodup := Entries.nodup_names_insert hnodup
      obtain ⟨es', hfold, hnodup', hmem, hnames⟩ :=
        ih (fun w hw => h w (List.mem_cons_of_mem _ hw)) hinsert
      refine ⟨es', hfold, hnodup', fun e he => ?_, fun other => ?_⟩
      · rcases hmem e he with he | he
        · rcases Entries.mem_insert he with he | rfl
          · exact .inl he
          · exact .inr List.mem_cons_self
        · exact .inr (List.mem_cons_of_mem _ he)
      · rw [hnames, Entries.mem_names_insert]
        simp only [List.mem_cons, Fill.entry.injEq, exists_or, exists_eq_right]
        tauto

/-- Entries in another order make an equal map of an empty one. -/
theorem Fill.sameBy_foldl_entries {fills fills' : List Fill} (hperm : fills.Perm fills')
    (h : ∀ v, .whole v ∉ fills) (hagree : Fill.Agree eq fills) :
    (fills.foldl Fill.apply (.map [])).sameBy eq (fills'.foldl Fill.apply (.map [])) = true := by
  have hnil : (Entries.names ([] : Entries Value)).Nodup := List.nodup_nil
  obtain ⟨es, hes, hnodup, hmem, hnames⟩ := Fill.exists_foldl_entries h hnil
  obtain ⟨es', hes', hnodup', hmem', hnames'⟩ :=
    Fill.exists_foldl_entries (fun v hv => h v (hperm.mem_iff.2 hv)) hnil
  have hsame : ∀ name, name ∈ es.names ↔ name ∈ es'.names := by
    intro name
    rw [hnames, hnames']
    simp only [hperm.mem_iff]
  have hlength : es.length = es'.length := by
    have hp : es.names.Perm es'.names := (List.perm_ext_iff_of_nodup hnodup hnodup').2 hsame
    simpa [Entries.names] using hp.length_eq
  rw [hes, hes', Value.sameBy, Bool.and_eq_true, beq_iff_eq]
  refine ⟨hlength, Value.sameNamedBy_iff.2 fun e he => ?_⟩
  -- The same name is in the other map, with what one of the fills put in.
  obtain ⟨⟨_, b⟩, hb, rfl⟩ := List.mem_map.1 ((hsame e.1).1 (List.mem_map_of_mem he))
  refine ⟨b, Entries.find?_of_mem hnodup' hb, hagree.same e.1 e.2 b ?_ ?_⟩
  · exact (hmem e he).resolve_left nofun
  · exact hperm.mem_iff.2 ((hmem' _ hb).resolve_left nofun)

namespace Schema

variable {s : Schema} {i : Nat} {f : Field} {bag bag' : List (String × Property)} {v w : Value}
  {name : String} {x : Fill}

/-- A property that fills a place as a whole has the name of its field. -/
theorem of_whole_mem_fillsAt (hf : s.fields[i]? = some f)
    (h : .whole v ∈ s.fillsAt catalog i bag) :
    ∃ p ∈ bag, p.1 = f.name ∧ Wire.toValue catalog f.type p.2.value = .ok v := by
  obtain ⟨p, hp, hfill⟩ := mem_fillsAt.1 h
  obtain ⟨type, htarget, hv⟩ := fill_eq_whole_iff.1 hfill
  obtain ⟨-, g, hg, -, rfl⟩ := target_eq_slot_iff.1 htarget
  cases hf.symm.trans (field?_sound hg).1
  exact ⟨p, hp, (field?_sound hg).2.symm, hv⟩

/-- Entries are put into maps only. -/
theorem of_entry_mem_fillsAt (hf : s.fields[i]? = some f)
    (h : .entry name v ∈ s.fillsAt catalog i bag) : ∃ item, f.type = .map item := by
  obtain ⟨p, -, hfill⟩ := mem_fillsAt.1 h
  obtain ⟨item, htarget, -⟩ := fill_eq_entry_iff.1 hfill
  obtain ⟨-, g, -, hg, htype⟩ := target_eq_entry_iff.1 htarget
  cases hf.symm.trans (field?_sound hg).1
  exact ⟨item, htype⟩

/-- Names being distinct, a place is filled as a whole once at most. -/
theorem fillsAt_eq_singleton (hnames : Entries.names bag |>.Nodup) (hf : s.fields[i]? = some f)
    (hv : .whole v ∈ s.fillsAt catalog i bag)
    (hentry : ∀ name w, .entry name w ∉ s.fillsAt catalog i bag) :
    s.fillsAt catalog i bag = [.whole v] := by
  have honly : ∀ q ∈ bag, ∀ x, s.fillAt? catalog i q = some x → q.1 = f.name := by
    intro q hq x hx
    cases x with
    | entry name w => exact absurd (List.mem_filterMap.2 ⟨q, hq, hx⟩) (hentry name w)
    | whole w =>
      have hw : .whole w ∈ s.fillsAt catalog i [q] := List.mem_filterMap.2 ⟨q, by simp, hx⟩
      obtain ⟨p, hp, hname, -⟩ := of_whole_mem_fillsAt hf hw
      rwa [List.mem_singleton.1 hp] at hname
  obtain ⟨p, hp, hfill⟩ := List.mem_filterMap.1 hv
  obtain ⟨before, after, rfl⟩ := List.append_of_mem hp
  rw [Entries.names, List.map_append, List.map_cons, List.nodup_middle, List.nodup_cons,
    ← List.map_append] at hnames
  -- What has another name does not fill the place.
  have hnone : ∀ q ∈ before ++ after, s.fillAt? catalog i q = none := by
    intro q hq
    refine Option.eq_none_iff_forall_ne_some.2 fun x hx => hnames.1 ?_
    have hmem : ∀ q ∈ before ++ after, q ∈ before ++ p :: after := by
      intro q hq
      rcases List.mem_append.1 hq with hq | hq <;> simp [hq]
    rw [honly p hp _ hfill, ← honly q (hmem q hq) x hx]
    exact List.mem_map_of_mem hq
  rw [fillsAt, List.filterMap_append, List.filterMap_cons_some hfill,
    List.filterMap_eq_nil_iff.2 fun q hq => hnone q (List.mem_append_left _ hq),
    List.filterMap_eq_nil_iff.2 fun q hq => hnone q (List.mem_append_right _ hq)]
  rfl

/-- **Where fills agree, their order makes no difference.** -/
theorem sameBy_foldl_fillsAt (he : ∀ x, eq x x = true) (hnames : (Entries.names bag).Nodup)
    (hf : s.fields[i]? = some f) (hperm : bag.Perm bag')
    (hagree : Fill.Agree eq (s.fillsAt catalog i bag)) :
    ((s.fillsAt catalog i bag).foldl Fill.apply f.type.zero).sameBy eq
      ((s.fillsAt catalog i bag').foldl Fill.apply f.type.zero) = true := by
  have hfills : (s.fillsAt catalog i bag).Perm (s.fillsAt catalog i bag') := fillsAt_perm hperm
  by_cases hwhole : ∃ v, .whole v ∈ s.fillsAt catalog i bag
  · obtain ⟨v, hv⟩ := hwhole
    have hone := fillsAt_eq_singleton hnames hf hv fun name w => hagree.apart v name w hv
    obtain ⟨p, -, -, hvalue⟩ := of_whole_mem_fillsAt hf hv
    rw [hone] at hfills
    rw [hone, List.perm_singleton.1 hfills.symm]
    exact (toValue_conforms _ hvalue).sameBy_self he
  · have hwhole : ∀ v, .whole v ∉ s.fillsAt catalog i bag := fun v hv => hwhole ⟨v, hv⟩
    cases hnil : s.fillsAt catalog i bag with
    | nil =>
      rw [hnil] at hfills
      rw [hfills.symm.eq_nil]
      exact f.type.zero_sameBy he
    | cons x fills =>
      have hx : x ∈ s.fillsAt catalog i bag := by
        rw [hnil]
        exact List.mem_cons_self
      cases x with
      | whole v => exact absurd hx (hwhole v)
      | entry name v =>
        obtain ⟨item, htype⟩ := of_entry_mem_fillsAt hf hx
        rw [← hnil, htype]
        exact Fill.sameBy_foldl_entries hfills hwhole hagree

/-- Any of the fills can come last. -/
theorem exists_perm_last (hx : x ∈ s.fillsAt catalog i bag) (v : Value) :
    ∃ bag', bag.Perm bag' ∧ ∃ old, (s.fillsAt catalog i bag').foldl Fill.apply v = x.apply old := by
  obtain ⟨p, hp, hfill⟩ := List.mem_filterMap.1 hx
  obtain ⟨before, after, rfl⟩ := List.append_of_mem hp
  refine ⟨before ++ after ++ [p], List.perm_middle.trans (List.perm_append_singleton _ _).symm, ?_⟩
  rw [fillsAt, List.filterMap_append, List.filterMap_cons_some hfill, List.foldl_append]
  exact ⟨_, rfl⟩

/-- What stands for a whole map is null. -/
theorem eq_empty_of_toValue_map {item : FieldType} {u : Wire}
    (h : Wire.toValue catalog (.map item) u = .ok v) : v = .map [] := by
  cases u <;> cases h
  rfl

/-- **Where the order makes no difference, fills agree.** -/
theorem agree_of_forall_sameBy (hf : s.fields[i]? = some f)
    (h : ∀ bag₁ bag₂, bag.Perm bag₁ → bag.Perm bag₂ →
      ((s.fillsAt catalog i bag₁).foldl Fill.apply f.type.zero).sameBy eq
        ((s.fillsAt catalog i bag₂).foldl Fill.apply f.type.zero) = true) :
    Fill.Agree eq (s.fillsAt catalog i bag) where
  apart v name w hv hw := by
    obtain ⟨bag₁, hperm₁, old₁, h₁⟩ := exists_perm_last hv f.type.zero
    obtain ⟨bag₂, hperm₂, old₂, h₂⟩ := exists_perm_last hw f.type.zero
    obtain ⟨es, hes, hfind⟩ := exists_insertEntry name w (some old₂)
    have hsame := h bag₁ bag₂ hperm₁ hperm₂
    -- Nothing is in the map if the whole comes last, and something if the entry does.
    obtain ⟨item, htype⟩ := of_entry_mem_fillsAt hf hw
    obtain ⟨p, -, -, hvalue⟩ := of_whole_mem_fillsAt hf hv
    rw [htype] at hvalue
    rw [h₁, h₂, Fill.apply, Fill.apply, eq_empty_of_toValue_map hvalue, hes, Value.sameBy,
      Bool.and_eq_true, beq_iff_eq] at hsame
    rw [List.eq_nil_of_length_eq_zero hsame.1.symm] at hfind
    cases hfind
  same name v w hv hw := by
    obtain ⟨bag₁, hperm₁, old₁, h₁⟩ := exists_perm_last hv f.type.zero
    obtain ⟨bag₂, hperm₂, old₂, h₂⟩ := exists_perm_last hw f.type.zero
    obtain ⟨es₁, hes₁, hfind₁⟩ := exists_insertEntry name v (some old₁)
    obtain ⟨es₂, hes₂, hfind₂⟩ := exists_insertEntry name w (some old₂)
    have hsame := h bag₁ bag₂ hperm₁ hperm₂
    rw [h₁, h₂, Fill.apply, Fill.apply, hes₁, hes₂, Value.sameBy, Bool.and_eq_true] at hsame
    obtain ⟨b, hb, hvb⟩ := Value.sameNamedBy_iff.1 hsame.2 (name, v) (Entries.mem_of_find? hfind₁)
    cases hb.symm.trans hfind₂
    exact hvb

/-! ## Entries of one name -/

/-- Before the divider of a name that begins with the mark, there is the mark
or it runs into the divider. -/
theorem eq_mark_of_dropStart? {head rest tail : List Char}
    (hhead : dropStart? flattenStart.toList head = none)
    (h : head ++ flattenDivider.toList ++ rest = flattenStart.toList ++ tail) :
    head = ['g', '/', 'k', 'v'] := by
  rw [List.append_assoc] at h
  rcases List.append_eq_append_iff.1 h with ⟨c, hc, htail⟩ | ⟨c, hc, -⟩
  · rw [toList_flattenStart] at hc
    rw [toList_flattenDivider] at htail
    -- The divider goes on behind `head` with an underscore, as the mark does once.
    obtain ⟨c, rfl⟩ : ∃ c', c = '_' :: c' := by
      cases c with
      | nil =>
        rw [← List.append_nil head, ← hc, toList_flattenStart] at hhead
        cases hhead
      | cons x c => exact ⟨c, by rw [(List.cons.inj htail).1]⟩
    match head, hc with
    | [], hc | [_], hc | [_, _], hc | [_, _, _], hc => simp at hc
    | [_, _, _, _], hc =>
      simp only [List.cons_append, List.nil_append, List.cons.injEq] at hc
      obtain ⟨rfl, rfl, rfl, rfl, -⟩ := hc
      rfl
    | _ :: _ :: _ :: _ :: _ :: _, hc => simp at hc
  · rw [hc, dropStart?_append] at hhead
    cases hhead

/-- A flattened name is the one that is made from what is read from it, or
the mark itself has been read as a field. -/
theorem eq_flattenedName_of_split {field entry : String} (hflat : isFlattened name = true)
    (h : splitFlattened? name = some (field, entry)) :
    name = flattenedName field entry ∨ field = "g/kv" := by
  unfold splitFlattened? at h
  split at h
  next => cases h
  next head rest hsplit =>
    have hname : name.toList = head ++ flattenDivider.toList ++ rest := splitFirst?_sound hsplit
    dsimp only at h
    split at h
    next => cases h
    next =>
      obtain ⟨hfield, hentry⟩ := Prod.mk.inj (Option.some.inj h)
      cases hdrop : dropStart? flattenStart.toList head with
      | some field' =>
        left
        rw [hdrop, Option.getD_some] at hfield
        rw [← String.toList_inj, hname, dropStart?_eq_some_iff.1 hdrop, flattenedName, ← hfield,
          ← hentry]
        simp
      | none =>
        right
        rw [hdrop, Option.getD_none] at hfield
        obtain ⟨tail, htail⟩ := Option.isSome_iff_exists.1 hflat
        have hmark : head = ['g', '/', 'k', 'v'] :=
          eq_mark_of_dropStart? hdrop (hname.symm.trans (dropStart?_eq_some_iff.1 htail))
        rw [← hfield, hmark]

/-- Two names are read as one entry only in a field with the name of the
mark. -/
theorem exists_field_mark_of_fill_entry {p q : String × Property} (hne : p.1 ≠ q.1)
    (hp : s.fill catalog p = .ok (some (i, .entry name v)))
    (hq : s.fill catalog q = .ok (some (i, .entry name w))) :
    ∃ f, s.fields[i]? = some f ∧ f.name = "g/kv" := by
  obtain ⟨item, hptarget, -⟩ := fill_eq_entry_iff.1 hp
  obtain ⟨item', hqtarget, -⟩ := fill_eq_entry_iff.1 hq
  obtain ⟨hpflat, f, hpsplit, hf, -⟩ := target_eq_entry_iff.1 hptarget
  obtain ⟨hqflat, g, hqsplit, hg, -⟩ := target_eq_entry_iff.1 hqtarget
  have hfield : s.fields[i]? = some f := (field?_sound hf).1
  cases hfield.symm.trans (field?_sound hg).1
  refine ⟨f, hfield, ?_⟩
  -- Of two names for one entry, one is not the flattened name that is made for it.
  rcases eq_flattenedName_of_split hpflat hpsplit with hpname | hmark
  · rcases eq_flattenedName_of_split hqflat hqsplit with hqname | hmark
    · exact absurd (hpname.trans hqname.symm) hne
    · exact hmark
  · exact hmark

end Schema

/-! ## Entities -/

/-- The same entity with its properties in another order. -/
structure Entity.Shuffles (e e' : Entity) : Prop where
  key : e'.key = e.key
  perm : e.properties.Perm e'.properties

namespace Schema

variable {s : Schema} {e e₁ e₂ : Entity} {r r₁ r₂ : Record}

/-- No place is filled in two ways, but for one that the key is put into. -/
def Unmixed (catalog : Catalog) (eq : Double → Double → Bool) (s : Schema) (e : Entity) : Prop :=
  ∀ (i : Nat) f, s.fields[i]? = some f → ¬ s.IsOverwritten e.key i →
    Fill.Agree eq (s.fillsAt catalog i e.properties)

theorem exists_decode_iff : (∃ r, s.decode catalog e = .ok r) ↔
    ∀ p ∈ e.properties, ∃ x, s.fill catalog p = .ok x := by
  rw [← exists_decodeBag_iff (r := s.zeros)]
  constructor
  · rintro ⟨r, h⟩
    obtain ⟨r₀, hr₀, -⟩ := bind_eq_ok.1 h
    exact ⟨r₀, hr₀⟩
  · rintro ⟨r₀, hr₀⟩
    exact ⟨_, bind_eq_ok.2 ⟨r₀, hr₀, rfl⟩⟩

theorem length_decode (h : s.decode catalog e = .ok r) : r.length = s.fields.length := by
  obtain ⟨r₀, hr₀, h⟩ := bind_eq_ok.1 h
  rw [← Except.ok.inj h, length_fillKey, length_decodeBag hr₀, zeros, List.length_map]

/-- What is in a place of a decoded record. -/
theorem getElem?_decode {i : Nat} {f : Field} (h : s.decode catalog e = .ok r)
    (hf : s.fields[i]? = some f) (hkey : ¬ s.IsOverwritten e.key i) :
    r[i]? = some ((s.fillsAt catalog i e.properties).foldl Fill.apply f.type.zero) := by
  obtain ⟨r₀, hr₀, h⟩ := bind_eq_ok.1 h
  rw [← Except.ok.inj h, getElem?_fillKey_of_not hkey, getElem?_decodeBag_zeros hr₀ hf]

/-- What is in the place of the key is the key. -/
theorem getElem?_decode_key {i : Nat} {f : Field} {key : Key} (h : s.decode catalog e = .ok r)
    (hf : s.fields[i]? = some f) (hindex : s.keyIndex? = some i) (hkey : e.key = some key) :
    r[i]? = some (.text key.name) := by
  obtain ⟨r₀, hr₀, h⟩ := bind_eq_ok.1 h
  rw [← Except.ok.inj h, hkey, getElem?_fillKey_of_keyIndex? hindex,
    getElem?_decodeBag_zeros hr₀ hf]
  rfl

/-- Entities of which one is the other in another order are decoded to equal
records, if nothing is mixed in them. -/
theorem sameEachBy_of_unmixed (he : ∀ x, eq x x = true) (hnames : e₁.properties.names.Nodup)
    (hmixed : s.Unmixed catalog eq e₁) (hshuffles : e₁.Shuffles e₂)
    (h₁ : s.decode catalog e₁ = .ok r₁) (h₂ : s.decode catalog e₂ = .ok r₂) :
    Value.sameEachBy eq r₁ r₂ = true := by
  refine Value.sameEachBy_iff.2 ⟨by rw [length_decode h₁, length_decode h₂], fun i a b ha hb => ?_⟩
  obtain ⟨f, hf⟩ : ∃ f, s.fields[i]? = some f := by
    have hi : i < s.fields.length := by
      rw [← length_decode h₁]
      exact (List.getElem?_eq_some_iff.1 ha).1
    exact ⟨_, List.getElem?_eq_getElem hi⟩
  by_cases hkey : s.IsOverwritten e₁.key i
  · obtain ⟨key, hkey₁⟩ := Option.isSome_iff_exists.1 hkey.1
    rw [getElem?_decode_key h₁ hf hkey.2 hkey₁] at ha
    rw [getElem?_decode_key h₂ hf hkey.2 (hshuffles.key.trans hkey₁)] at hb
    cases ha
    cases hb
    simp [Value.sameBy]
  · have hkey₂ : ¬ s.IsOverwritten e₂.key i := by
      rw [hshuffles.key]
      exact hkey
    rw [getElem?_decode h₁ hf hkey] at ha
    rw [getElem?_decode h₂ hf hkey₂] at hb
    cases ha
    cases hb
    exact sameBy_foldl_fillsAt he hnames hf hshuffles.perm (hmixed i f hf hkey)

theorem Unmixed.of_shuffles (h : s.Unmixed catalog eq e) (hshuffles : e.Shuffles e₁) :
    s.Unmixed catalog eq e₁ := by
  intro i f hf hkey
  rw [hshuffles.key] at hkey
  exact (h i f hf hkey).of_perm (fillsAt_perm hshuffles.perm)

/-- Whether an entity is decoded does not depend on the order. -/
theorem exists_decode_iff_of_shuffles (h : e.Shuffles e₁) :
    (∃ r, s.decode catalog e = .ok r) ↔ ∃ r, s.decode catalog e₁ = .ok r := by
  simp only [exists_decode_iff, h.perm.mem_iff]

/-- If every order is decoded to an equal record, nothing is mixed. -/
theorem unmixed_of_forall_sameEachBy (hdecode : ∃ r, s.decode catalog e = .ok r)
    (hsame : ∀ e₁ e₂ r₁ r₂, e.Shuffles e₁ → e.Shuffles e₂ → s.decode catalog e₁ = .ok r₁ →
      s.decode catalog e₂ = .ok r₂ → Value.sameEachBy eq r₁ r₂ = true) :
    s.Unmixed catalog eq e := by
  intro i f hf hkey
  refine agree_of_forall_sameBy hf fun bag₁ bag₂ hperm₁ hperm₂ => ?_
  have h₁ : e.Shuffles ⟨e.key, bag₁⟩ := ⟨rfl, hperm₁⟩
  have h₂ : e.Shuffles ⟨e.key, bag₂⟩ := ⟨rfl, hperm₂⟩
  obtain ⟨r₁, hr₁⟩ := (exists_decode_iff_of_shuffles h₁).1 hdecode
  obtain ⟨r₂, hr₂⟩ := (exists_decode_iff_of_shuffles h₂).1 hdecode
  exact (Value.sameEachBy_iff.1 (hsame _ _ r₁ r₂ h₁ h₂ hr₁ hr₂)).2 i _ _
    (getElem?_decode hr₁ hf hkey) (getElem?_decode hr₂ hf hkey)

/-- A nested bag is decoded as an entity without a key. -/
theorem toValue_entity_eq_decode (catalog : Catalog) (ref : Nat) (bag : List (String × Property)) :
    Wire.toValue catalog (.record ref) (.entity bag) =
      ((catalog.schema ref).decode catalog ⟨none, bag⟩).map .record := by
  rw [Wire.toValue, decode]
  cases decodeBag catalog (catalog.schema ref) (catalog.schema ref).zeros bag with
  | error err => rfl
  | ok r =>
    have hfill : (catalog.schema ref).fillKey none r = r := by
      cases hk : (catalog.schema ref).keyIndex? <;> simp [fillKey, hk]
    exact congrArg (fun r => Except.ok (Value.record r)) hfill.symm

/-- **On what the order of properties has an effect.** Whether an entity is
decoded does not depend on it. What it is decoded to does not either exactly
if nothing is mixed: no map has both a property that stands for the whole of
it and entries of its own, and no two properties are read as one entry with
different values. The latter are in a map with the name of the mark. A
nested bag is decoded as an entity without a key is. Doubles are compared
in any way that makes each equal to itself, as their bits are. -/
theorem decode_shuffle (catalog : Catalog) (eq : Double → Double → Bool) (s : Schema)
    (he : ∀ x, eq x x = true) :
    (∀ e e' : Entity, e.Shuffles e' →
      ((∃ r, s.decode catalog e = .ok r) ↔ ∃ r', s.decode catalog e' = .ok r')) ∧
    (∀ e : Entity, e.properties.names.Nodup → (∃ r, s.decode catalog e = .ok r) →
      ((∀ e₁ e₂ r₁ r₂, e.Shuffles e₁ → e.Shuffles e₂ → s.decode catalog e₁ = .ok r₁ →
        s.decode catalog e₂ = .ok r₂ → Value.sameEachBy eq r₁ r₂ = true) ↔
        s.Unmixed catalog eq e)) ∧
    (∀ p q : String × Property, ∀ i name v w, p.1 ≠ q.1 →
      s.fill catalog p = .ok (some (i, .entry name v)) →
      s.fill catalog q = .ok (some (i, .entry name w)) →
      ∃ f, s.fields[i]? = some f ∧ f.name = "g/kv") ∧
    ∀ ref bag, Wire.toValue catalog (.record ref) (.entity bag) =
      ((catalog.schema ref).decode catalog ⟨none, bag⟩).map .record := by
  refine ⟨fun e e' => exists_decode_iff_of_shuffles, fun e hnames hdecode => ⟨?_, fun hmixed => ?_⟩,
    fun p q i name v w => exists_field_mark_of_fill_entry,
    toValue_entity_eq_decode catalog⟩
  · exact unmixed_of_forall_sameEachBy hdecode
  · intro e₁ e₂ r₁ r₂ h₁ h₂ hr₁ hr₂
    have hnames₁ : e₁.properties.names.Nodup := (h₁.perm.map Prod.fst).nodup hnames
    have h₁₂ : e₁.Shuffles e₂ := ⟨h₂.key.trans h₁.key.symm, h₁.perm.symm.trans h₂.perm⟩
    exact sameEachBy_of_unmixed he hnames₁ (hmixed.of_shuffles h₁) h₁₂ hr₁ hr₂

end Schema

namespace Counted

/-- A key and a map of counts. -/
def schema : Schema where
  name := "Counted"
  fields := [⟨"Id", .text, .key⟩, ⟨"M", .map .int64, .normal⟩]

/-- Two entries of the map. -/
def entity : Entity where
  key := none
  properties := [("g/kv_M_g/k_b", ⟨.integer 2, true⟩), ("g/kv_M_g/k_a", ⟨.integer 1, true⟩)]

/-- The map as it is decoded from the two entries in one order. -/
def record : Record := [.text "", .map [("b", .int64 2), ("a", .int64 1)]]

/-- And in the other one. -/
def recordReversed : Record := [.text "", .map [("a", .int64 1), ("b", .int64 2)]]

theorem unmixed_entity : schema.Unmixed ⟨[]⟩ (fun x y => decide (x = y)) entity := by
  intro i f hf _
  match i, hf with
  | 0, _ => exact ⟨nofun, nofun⟩
  | 1, _ =>
    have hfills : schema.fillsAt ⟨[]⟩ 1 entity.properties =
        [.entry "b" (.int64 2), .entry "a" (.int64 1)] := rfl
    rw [hfills]
    refine ⟨by simp, fun name v w hv hw => ?_⟩
    simp only [List.mem_cons, Fill.entry.injEq, List.not_mem_nil, or_false] at hv hw
    rcases hv with ⟨rfl, rfl⟩ | ⟨rfl, rfl⟩ <;> rcases hw with ⟨hn, rfl⟩ | ⟨hn, rfl⟩
    · rfl
    · exact absurd hn (by decide)
    · exact absurd hn (by decide)
    · rfl

/-- Entries may be stored in any order. -/
theorem decode_entity_shuffle :
    schema.decode ⟨[]⟩ entity = .ok record ∧
    schema.decode ⟨[]⟩ ⟨none, entity.properties.reverse⟩ = .ok recordReversed ∧
    Value.sameEachBy (fun x y => decide (x = y)) record recordReversed = true := by
  have hshuffle := Schema.decode_shuffle ⟨[]⟩ (fun x y => decide (x = y)) schema fun x =>
    decide_eq_true rfl
  have hrecord : schema.decode ⟨[]⟩ entity = .ok record := rfl
  have hreversed : schema.decode ⟨[]⟩ ⟨none, entity.properties.reverse⟩ = .ok recordReversed := rfl
  refine ⟨hrecord, hreversed, ?_⟩
  exact (hshuffle.2.1 entity (by decide) ⟨record, hrecord⟩).2 unmixed_entity entity
    ⟨none, entity.properties.reverse⟩ record recordReversed ⟨rfl, .refl _⟩
    ⟨rfl, (List.reverse_perm _).symm⟩ hrecord hreversed

/-- **The order of properties may matter.** A null under the name of a map
field empties the map if it comes after the entries. -/
theorem forgets_entries :
    Entity.Shuffles
      ⟨none, [("M", ⟨.null, true⟩), ("g/kv_M_g/k_a", ⟨.integer 1, true⟩)]⟩
      ⟨none, [("g/kv_M_g/k_a", ⟨.integer 1, true⟩), ("M", ⟨.null, true⟩)]⟩ ∧
    schema.decode ⟨[]⟩
      ⟨none, [("M", ⟨.null, true⟩), ("g/kv_M_g/k_a", ⟨.integer 1, true⟩)]⟩ =
        .ok [.text "", .map [("a", .int64 1)]] ∧
    schema.decode ⟨[]⟩
      ⟨none, [("g/kv_M_g/k_a", ⟨.integer 1, true⟩), ("M", ⟨.null, true⟩)]⟩ =
        .ok [.text "", .map []] ∧
    Value.sameEachBy Double.same [.text "", .map [("a", .int64 1)]] [.text "", .map []] = false :=
  ⟨⟨rfl, .swap _ _ _⟩, rfl, rfl, by simp [Value.sameEachBy, Value.sameBy]⟩

end Counted

end KindQuery
