import KindQuery.Proofs.Codec.Names
/-!
# What fills the places of a record

A bag is decoded by putting its properties one by one into a record. What
a property puts where depends on the property alone (`Schema.fill`). So a
bag is decoded when each of its properties can be
(`exists_decodeBag_iff`), and a place holds in the end what the fills of
this place make of the value that was there (`getElem?_decodeBag`): the
properties of other fields do not matter to it.
-/

namespace KindQuery

variable {catalog : Catalog} {s : Schema} {p : String × Property} {bag : List (String × Property)}
  {r r' : Record} {i : Nat} {v : Value} {name : String}

/-! ## Fills -/

/-- What a property puts into the place of a field: a value instead of the
one that is there, or one more entry of the map that is there. -/
inductive Fill where
  | whole (v : Value)
  | entry (name : String) (v : Value)

/-- What is in a place after it has been filled. -/
def Fill.apply (old : Value) : Fill → Value
  | whole v => v
  | entry name v => insertEntry name v (some old)

/-- A map that an entry has been put into has this entry. -/
theorem exists_insertEntry (name : String) (v : Value) (old : Option Value) :
    ∃ entries, insertEntry name v old = .map entries ∧ Entries.find? name entries = some v := by
  unfold insertEntry
  split
  next entries => exact ⟨_, rfl, by rw [Entries.find?_insert, if_pos rfl]⟩
  next => exact ⟨_, rfl, by rw [Entries.find?, if_pos rfl]⟩

/-- A record after one of its places has been filled, or none. -/
def Record.fill (r : Record) : Option (Nat × Fill) → Record
  | none => r
  | some (i, f) => r.modify i f.apply

theorem Record.modify_eq_set {g : Value → Value} (h : ∀ w, r[i]? = some w → g w = v) :
    r.modify i g = r.set i v := by
  refine List.ext_getElem? fun j => ?_
  rw [List.getElem?_modify, List.getElem?_set']
  by_cases hj : i = j
  · subst hj
    cases hr : r[i]? with
    | none => simp
    | some w => simp [h w hr]
  · simp [hj]

namespace Schema

/-- What a property puts into a record, with the place that it goes to. -/
def fill (catalog : Catalog) (s : Schema) (p : String × Property) :
    Except Error (Option (Nat × Fill)) := do
  match ← s.target p.1 with
  | .nowhere => .ok none
  | .slot i type => do .ok (some (i, .whole (← Wire.toValue catalog type p.2.value)))
  | .entry i item name => do .ok (some (i, .entry name (← Wire.toValue catalog item p.2.value)))

/-- What a property puts into the place of index `i`. -/
def fillAt? (catalog : Catalog) (s : Schema) (i : Nat) (p : String × Property) : Option Fill :=
  match s.fill catalog p with
  | .ok (some (j, f)) => if j = i then some f else none
  | _ => none

/-- All that the properties of a bag put into the place of index `i`, in
their order. -/
def fillsAt (catalog : Catalog) (s : Schema) (i : Nat) (bag : List (String × Property)) :
    List Fill :=
  bag.filterMap (s.fillAt? catalog i)

theorem fillAt?_eq_some_iff {f : Fill} :
    s.fillAt? catalog i p = some f ↔ s.fill catalog p = .ok (some (i, f)) := by
  unfold fillAt?
  split
  next j g hfill =>
    rw [hfill]
    by_cases hj : j = i <;> simp [hj]
  next hnone =>
    constructor
    · nofun
    · exact fun hfill => (hnone _ _ hfill).elim

theorem fill_eq_whole_iff : s.fill catalog p = .ok (some (i, .whole v)) ↔
    ∃ type, s.target p.1 = .ok (.slot i type) ∧ Wire.toValue catalog type p.2.value = .ok v := by
  simp only [fill, bind_eq_ok]
  constructor
  · rintro ⟨t, ht, hfill⟩
    cases t with
    | nowhere => cases hfill
    | slot j type =>
      obtain ⟨a, ha, hfill⟩ := bind_eq_ok.1 hfill
      cases hfill
      exact ⟨type, ht, ha⟩
    | entry j item name =>
      obtain ⟨a, -, hfill⟩ := bind_eq_ok.1 hfill
      cases hfill
  · rintro ⟨type, ht, ha⟩
    exact ⟨_, ht, bind_eq_ok.2 ⟨v, ha, rfl⟩⟩

theorem fill_eq_entry_iff : s.fill catalog p = .ok (some (i, .entry name v)) ↔
    ∃ item, s.target p.1 = .ok (.entry i item name) ∧
      Wire.toValue catalog item p.2.value = .ok v := by
  simp only [fill, bind_eq_ok]
  constructor
  · rintro ⟨t, ht, hfill⟩
    cases t with
    | nowhere => cases hfill
    | slot j type =>
      obtain ⟨a, -, hfill⟩ := bind_eq_ok.1 hfill
      cases hfill
    | entry j item name =>
      obtain ⟨a, ha, hfill⟩ := bind_eq_ok.1 hfill
      cases hfill
      exact ⟨item, ht, ha⟩
  · rintro ⟨item, ht, ha⟩
    exact ⟨_, ht, bind_eq_ok.2 ⟨v, ha, rfl⟩⟩

theorem mem_fillsAt {f : Fill} : f ∈ s.fillsAt catalog i bag ↔
    ∃ p ∈ bag, s.fill catalog p = .ok (some (i, f)) := by
  simp only [fillsAt, List.mem_filterMap, fillAt?_eq_some_iff]

theorem fillsAt_perm {bag' : List (String × Property)} (h : bag.Perm bag') :
    (s.fillsAt catalog i bag).Perm (s.fillsAt catalog i bag') :=
  h.filterMap _

end Schema

/-! ## Bags -/

/-- **One property** fills one place or none, and the others go on from
there. -/
theorem decodeBag_cons : decodeBag catalog s r (p :: bag) =
    s.fill catalog p >>= fun x => decodeBag catalog s (r.fill x) bag := by
  obtain ⟨name, w, indexed⟩ := p
  rw [decodeBag, Schema.fill]
  cases s.target name with
  | error e => rfl
  | ok t =>
    cases t with
    | nowhere => rfl
    | slot i type =>
      have hfill : ∀ a, r.set i a = r.fill (some (i, .whole a)) :=
        fun a => (Record.modify_eq_set fun _ _ => rfl).symm
      change (Wire.toValue catalog type w >>= fun a => decodeBag catalog s (r.set i a) bag) =
        (Wire.toValue catalog type w >>= fun a => .ok (some (i, .whole a))) >>= fun x =>
          decodeBag catalog s (r.fill x) bag
      rw [bind_assoc]
      exact bind_congr fun a => congrArg (decodeBag catalog s · bag) (hfill a)
    | entry i item entry =>
      have hfill : ∀ a, r.set i (insertEntry entry a r[i]?) = r.fill (some (i, .entry entry a)) :=
        fun a => (Record.modify_eq_set fun old hold => by rw [hold]; rfl).symm
      change (Wire.toValue catalog item w >>= fun a =>
          decodeBag catalog s (r.set i (insertEntry entry a r[i]?)) bag) =
        (Wire.toValue catalog item w >>= fun a => .ok (some (i, .entry entry a))) >>= fun x =>
          decodeBag catalog s (r.fill x) bag
      rw [bind_assoc]
      exact bind_congr fun a => congrArg (decodeBag catalog s · bag) (hfill a)

/-- **A bag is decoded when each of its properties can be**, whatever else
is in it. -/
theorem exists_decodeBag_iff : (∃ r', decodeBag catalog s r bag = .ok r') ↔
    ∀ p ∈ bag, ∃ x, s.fill catalog p = .ok x := by
  induction bag generalizing r with
  | nil => exact ⟨fun _ => nofun, fun _ => ⟨r, rfl⟩⟩
  | cons p bag ih =>
    simp only [decodeBag_cons, bind_eq_ok, List.forall_mem_cons]
    constructor
    · rintro ⟨r', x, hx, hrest⟩
      exact ⟨⟨x, hx⟩, ih.1 ⟨r', hrest⟩⟩
    · rintro ⟨⟨x, hx⟩, hrest⟩
      obtain ⟨r', hr'⟩ := ih.2 hrest
      exact ⟨r', x, hx, hr'⟩

/-- **What is in a place in the end** is what its fills make of the value
that was there. -/
theorem getElem?_decodeBag (h : decodeBag catalog s r bag = .ok r') (i : Nat) :
    r'[i]? = (r[i]?).map fun v => (s.fillsAt catalog i bag).foldl Fill.apply v := by
  induction bag generalizing r with
  | nil =>
    cases h
    simp [Schema.fillsAt]
  | cons p bag ih =>
    rw [decodeBag_cons] at h
    obtain ⟨x, hx, h⟩ := bind_eq_ok.1 h
    rw [ih h]
    match x with
    | none =>
      have hnone : s.fillAt? catalog i p = none := by simp [Schema.fillAt?, hx]
      rw [Schema.fillsAt, Schema.fillsAt, List.filterMap_cons_none hnone]
      rfl
    | some (j, f) =>
      rw [Record.fill, List.getElem?_modify]
      by_cases hj : j = i
      · have hsome : s.fillAt? catalog i p = some f := by simp [Schema.fillAt?, hx, hj]
        rw [Schema.fillsAt, Schema.fillsAt, List.filterMap_cons_some hsome]
        cases r[i]? <;> simp [hj]
      · have hnone : s.fillAt? catalog i p = none := by simp [Schema.fillAt?, hx, hj]
        rw [Schema.fillsAt, Schema.fillsAt, List.filterMap_cons_none hnone]
        simp [hj]

/-- Of a new record it is what they make of the zero of the field. -/
theorem Schema.getElem?_decodeBag_zeros {f : Field} (h : decodeBag catalog s s.zeros bag = .ok r)
    (hf : s.fields[i]? = some f) :
    r[i]? = some ((s.fillsAt catalog i bag).foldl Fill.apply f.type.zero) := by
  rw [getElem?_decodeBag h, zeros, List.getElem?_map, hf]
  rfl

/-- No place is added and none is lost. -/
theorem length_decodeBag (h : decodeBag catalog s r bag = .ok r') : r'.length = r.length := by
  induction bag generalizing r with
  | nil =>
    cases h
    rfl
  | cons p bag ih =>
    rw [decodeBag_cons] at h
    obtain ⟨x, -, h⟩ := bind_eq_ok.1 h
    rw [ih h]
    match x with
    | none => rfl
    | some (j, f) => exact List.length_modify _ _ _

/-! ## Keys -/

/-- A place that the name of a key is put into in the end. -/
def Schema.IsOverwritten (s : Schema) (key : Option Key) (i : Nat) : Prop :=
  key.isSome = true ∧ s.keyIndex? = some i

theorem Schema.getElem?_fillKey_of_not {key : Option Key} (h : ¬ s.IsOverwritten key i) :
    (s.fillKey key r)[i]? = r[i]? := by
  cases key with
  | none => cases hk : s.keyIndex? <;> simp [fillKey, hk]
  | some k =>
    cases hk : s.keyIndex? with
    | none => simp [fillKey, hk]
    | some j =>
      have hne : j ≠ i := fun heq => h ⟨rfl, by rw [hk, heq]⟩
      simp [fillKey, hk, List.getElem?_set_ne hne]

theorem Schema.getElem?_fillKey_of_keyIndex? (h : s.keyIndex? = some i) (key : Key) (r : Record) :
    (s.fillKey (some key) r)[i]? = (r[i]?).map fun _ => .text key.name := by
  simp only [fillKey, h]
  rw [List.getElem?_set_self']
  rfl

theorem Schema.length_fillKey {key : Option Key} : (s.fillKey key r).length = r.length := by
  unfold fillKey
  split
  · exact List.length_set
  · rfl

end KindQuery
