import KindQuery.Codec.Project
import KindQuery.Proofs.Codec.Shuffled
import KindQuery.Proofs.Codec.Unpersisted
import KindQuery.Proofs.Query.Supported
/-!
# Projected rows

A row is projected part by part: the *parts* of a selector are what is left
of it when its records are taken apart. What becomes of a row is an *outcome*
(`Expr.outcome_project`). Either each part has a value, and the result is
formed of these as the selector is; or there is a first part without one, and
its error is the result. In both cases it is told which captured values have
been read.

What a member is read as is then compared with what a decoded row has in the
place of its field (`Schema.memberAgrees`). A compiled selector fails on a
row for what the row is lacking and not for what the selector is
(`Pipeline.project_compiled`).
-/

namespace KindQuery

/-! ## Parts -/

namespace Expr

mutual

/-- The parts of a selector: what its records are made of, from left to
right. -/
def parts : Expr → List Expr
  | record es => partsOfAll es
  | e => [e]

/-- The parts of several selectors. -/
def partsOfAll : List Expr → List Expr
  | [] => []
  | e :: es => e.parts ++ partsOfAll es

end

mutual

/-- A value is formed as a selector is: where the selector has a record, of
values that are formed as its fields are, and elsewhere as `part` tells. -/
inductive Forms (part : Expr → Value → Prop) : Expr → Value → Prop
  | part {e : Expr} {v : Value} : part e v → Forms part e v
  | record {es : List Expr} {vs : List Value} :
      FormsEach part es vs → Forms part (.record es) (.record vs)

/-- Values that are formed as several selectors are, one by one. -/
inductive FormsEach (part : Expr → Value → Prop) : List Expr → List Value → Prop
  | nil : FormsEach part [] []
  | cons {e : Expr} {v : Value} {es : List Expr} {vs : List Value} :
      Forms part e v → FormsEach part es vs → FormsEach part (e :: es) (v :: vs)

end

/-- **What a part is read as**: the row as the record that it is decoded to,
a literal as itself, and a captured value as one of its values. -/
inductive Reads (catalog : Catalog) (s : Schema) (row : Entity) : Expr → Value → Prop
  | row {r : Record} : s.decode catalog row = .ok r → Reads catalog s row .row (.record r)
  | value {v : Value} : Reads catalog s row (.value v) v
  | captured {c : Captured} {n : Nat} : Reads catalog s row (.captured c) (c.answer n)
  | member {m : Member} {v : Value} :
      s.memberValue catalog row m = .ok v → Reads catalog s row (.member m) v

/-- **Why a part has no value.** -/
inductive Fails (catalog : Catalog) (s : Schema) (row : Entity) : Expr → Error → Prop
  | row {err : Error} : s.decode catalog row = .error err → Fails catalog s row .row err
  | member {m : Member} {err : Error} :
      s.memberValue catalog row m = .error err → Fails catalog s row (.member m) err
  | unsupported {e : Expr} {err : Error} : ¬ e.IsSelector s → Fails catalog s row e err

variable {catalog : Catalog} {s : Schema} {row : Entity}

mutual

theorem IsSelector.of_mem_parts : ∀ {e : Expr}, e.IsSelector s → ∀ part ∈ e.parts, part.IsSelector s
  | .record es, h => by
    cases h with
    | record h => exact of_mem_partsOfAll h
  | .row, h | .value _, h | .captured _, h | .member _, h => by
    intro part hpart
    rw [List.mem_singleton.1 hpart]
    exact h

theorem IsSelector.of_mem_partsOfAll : ∀ {es : List Expr}, (∀ e ∈ es, e.IsSelector s) →
    ∀ part ∈ partsOfAll es, part.IsSelector s
  | [], _ => nofun
  | e :: es, h => by
    rw [List.forall_mem_cons] at h
    intro part hpart
    rcases List.mem_append.1 hpart with hpart | hpart
    · exact IsSelector.of_mem_parts h.1 part hpart
    · exact of_mem_partsOfAll h.2 part hpart

end

theorem capturesOfAll_append (xs ys : List Expr) :
    capturesOfAll (xs ++ ys) = capturesOfAll xs ++ capturesOfAll ys := by
  induction xs with
  | nil => rfl
  | cons x xs ih => rw [List.cons_append, capturesOfAll, capturesOfAll, ih, List.append_assoc]

mutual

/-- No part is a record. -/
theorem ne_record_of_mem_parts : ∀ {e part : Expr}, part ∈ e.parts → ∀ fields, part ≠ .record fields
  | .record es, _, h => ne_record_of_mem_partsOfAll h
  | .row, _, h | .member _, _, h | .value _, _, h | .captured _, _, h | .negation _, _, h
  | .comparison _ _ _, _, h | .conjunction _, _, h | .disjunction _, _, h | .call _ _ _, _, h => by
    rw [List.mem_singleton.1 h]
    nofun

theorem ne_record_of_mem_partsOfAll : ∀ {es : List Expr} {part : Expr}, part ∈ partsOfAll es →
    ∀ fields, part ≠ .record fields
  | [], _, h => nomatch h
  | e :: es, _, h => by
    rcases List.mem_append.1 h with h | h
    · exact ne_record_of_mem_parts h
    · exact ne_record_of_mem_partsOfAll h

end

mutual

/-- The captured values of a selector are those of its parts. -/
theorem capturesOfAll_parts : ∀ e : Expr, capturesOfAll e.parts = e.captures
  | .record es => capturesOfAll_partsOfAll es
  | .row | .member _ | .value _ | .captured _ | .negation _ | .comparison _ _ _ | .conjunction _
  | .disjunction _ | .call _ _ _ => List.append_nil _

theorem capturesOfAll_partsOfAll : ∀ es : List Expr,
    capturesOfAll (partsOfAll es) = capturesOfAll es
  | [] => rfl
  | e :: es => by
    rw [partsOfAll, capturesOfAll_append, capturesOfAll_parts e, capturesOfAll_partsOfAll es]
    rfl

end

/-! ## What becomes of a row -/

/-- **What becomes of a row** when parts are read after a log. All captured
values are read and the result is formed of what the parts are read as, or
there is a part that fails, and only the captured values before it are
read. -/
def Outcome {α : Type} (formed : α → Prop) (captures : List Captured) (parts : List Expr)
    (fails : Expr → Error → Prop) (log : ReadLog) : Except Error α × ReadLog → Prop
  | (.ok a, log') => formed a ∧ log' = log ++ captures.map Captured.id
  | (.error err, log') => ∃ before part after, parts = before ++ part :: after ∧ fails part err ∧
      log' = log ++ (capturesOfAll before).map Captured.id

mutual

/-- **A selector gives a value formed of its parts, or fails with the first
part that does.** -/
theorem outcome_project : ∀ (e : Expr) (log : ReadLog),
    Outcome (e.Forms (Reads catalog s row)) e.captures e.parts (Fails catalog s row) log
      ((e.project catalog s row).after log)
  | .row, log => by
    rw [project]
    cases hd : s.decode catalog row with
    | ok r => exact ⟨.part (.row hd), (List.append_nil log).symm⟩
    | error err => exact ⟨[], .row, [], rfl, .row hd, (List.append_nil log).symm⟩
  | .value v, log => ⟨.part .value, (List.append_nil log).symm⟩
  | .captured c, log => ⟨.part .captured, rfl⟩
  | .member m, log => by
    rw [project]
    cases hm : s.memberValue catalog row m with
    | ok v => exact ⟨.part (.member hm), (List.append_nil log).symm⟩
    | error err => exact ⟨[], .member m, [], rfl, .member hm, (List.append_nil log).symm⟩
  | .record es, log => by
    have hes := outcome_projectAll es log
    rw [project, Reading.after_bind]
    cases hx : (projectAll catalog s row es).after log with
    | mk x log₁ =>
      rw [hx] at hes
      cases x with
      | ok vs => exact ⟨.record hes.1, hes.2⟩
      | error err => exact hes
  | .negation e, log | .comparison lhs op rhs, log | .conjunction es, log | .disjunction es, log
  | .call receiver name args, log =>
    ⟨[], _, [], rfl, Fails.unsupported nofun, (List.append_nil log).symm⟩

theorem outcome_projectAll : ∀ (es : List Expr) (log : ReadLog),
    Outcome (FormsEach (Reads catalog s row) es) (capturesOfAll es) (partsOfAll es)
      (Fails catalog s row) log ((projectAll catalog s row es).after log)
  | [], log => ⟨FormsEach.nil, (List.append_nil log).symm⟩
  | e :: es, log => by
    have he := outcome_project e log
    rw [projectAll, Reading.after_bind]
    cases hx : (e.project catalog s row).after log with
    | mk x log₁ =>
      rw [hx] at he
      cases x with
      | error err =>
        obtain ⟨before, part, after, hparts, hfails, hlog⟩ := he
        refine ⟨before, part, after ++ partsOfAll es, ?_, hfails, hlog⟩
        rw [partsOfAll, hparts, List.append_assoc, List.cons_append]
      | ok v =>
        obtain ⟨hv, rfl⟩ := he
        have hes := outcome_projectAll es (log ++ e.captures.map Captured.id)
        simp only [Reading.after_bind]
        cases hxs : (projectAll catalog s row es).after (log ++ e.captures.map Captured.id) with
        | mk xs log₂ =>
          rw [hxs] at hes
          cases xs with
          | ok vs =>
            obtain ⟨hvs, rfl⟩ := hes
            exact ⟨.cons hv hvs, by simp [capturesOfAll]⟩
          | error err =>
            obtain ⟨before, part, after, hparts, hfails, rfl⟩ := hes
            refine ⟨e.parts ++ before, part, after, ?_, hfails, ?_⟩
            · rw [partsOfAll, hparts, List.append_assoc]
            · rw [capturesOfAll_append, capturesOfAll_parts, List.map_append, List.append_assoc]

end

/-- A row gives a value formed of the parts, or the error of the first part
that fails. -/
theorem project_cases (catalog : Catalog) (s : Schema) (row : Entity) (e : Expr) (log : ReadLog) :
    (∃ v log', (e.project catalog s row).after log = (.ok v, log') ∧
      e.Forms (Reads catalog s row) v) ∨
    ∃ err log', (e.project catalog s row).after log = (.error err, log') ∧
      ∃ part ∈ e.parts, part.Fails catalog s row err := by
  have houtcome : Outcome _ _ _ _ log ((e.project catalog s row).after log) :=
    outcome_project e log
  cases hx : (e.project catalog s row).after log with
  | mk x log' =>
    rw [hx] at houtcome
    cases x with
    | ok v => exact .inl ⟨v, log', rfl, houtcome.1⟩
    | error err =>
      obtain ⟨before, part, after, hparts, hfails, -⟩ := houtcome
      have hmem : part ∈ e.parts := by simp [hparts]
      exact .inr ⟨err, log', rfl, part, hmem, hfails⟩

end Expr

/-! ## Failed decodings -/

/-- The errors of decoding: a value of another type, or a flattened name
without a field or an entry. -/
inductive Error.IsUndecodable : Error → Prop
  | conversion {found type : String} : IsUndecodable (.of (.conversion found type))
  | malformed {name : String} : IsUndecodable (.of (.malformedFlattenedKey name))

/-- A computation that can only fail as a decoding does. -/
def FailsUndecodable {α : Type} (x : Except Error α) : Prop :=
  ∀ err, x = .error err → err.IsUndecodable

namespace FailsUndecodable

variable {α β : Type} {x : Except Error α} {f : α → Except Error β}

theorem ok (a : α) : FailsUndecodable (.ok a) := nofun

theorem conversion {found type : String} :
    FailsUndecodable (Fault.raise (.conversion found type) : Except Error α) := by
  rintro _ ⟨⟩
  exact .conversion

theorem bind (hx : FailsUndecodable x) (hf : ∀ a, FailsUndecodable (f a)) :
    FailsUndecodable (x >>= f) := by
  cases x with
  | error err =>
    rintro _ ⟨⟩
    exact hx err rfl
  | ok a => exact hf a

end FailsUndecodable

section Undecodable

open FailsUndecodable

theorem undecodable_refuse (w : Wire) (type : FieldType) : FailsUndecodable (w.refuse type) :=
  conversion

theorem undecodable_decodeInteger (n : Int64) (type : FieldType) :
    FailsUndecodable (decodeInteger n type) := by
  unfold decodeInteger
  split
  · split <;> first | exact ok _ | exact conversion
  · split <;> first | exact ok _ | exact conversion
  · exact ok _
  · exact ok _
  · exact ok _
  · split <;> first | exact ok _ | exact conversion
  · exact undecodable_refuse _ _

theorem undecodable_decodeText (s : String) (type : FieldType) :
    FailsUndecodable (decodeText s type) := by
  unfold decodeText
  split
  · exact ok _
  · split <;> first | exact ok _ | exact conversion
  · split <;> first | exact ok _ | exact conversion
  · exact undecodable_refuse _ _

theorem undecodable_decodeDouble (x : Double) (type : FieldType) :
    FailsUndecodable (decodeDouble x type) := by
  unfold decodeDouble
  split
  · exact ok _
  · split <;> first | exact ok _ | exact conversion
  · exact undecodable_refuse _ _

theorem undecodable_decodeBlob (s : String) (type : FieldType) :
    FailsUndecodable (decodeBlob s type) := by
  unfold decodeBlob
  split
  · split <;> first | exact ok _ | exact conversion
  · exact undecodable_refuse _ _

theorem undecodable_target (s : Schema) (name : String) : FailsUndecodable (s.target name) := by
  unfold Schema.target
  split
  · split
    · rintro _ ⟨⟩
      exact .malformed
    · split
      · exact ok _
      · split <;> first | exact ok _ | exact conversion
  · split <;> exact ok _

mutual

/-- **Decoding fails for what it decodes**, and for nothing else. -/
theorem undecodable_toValue (catalog : Catalog) : ∀ (w : Wire) (type : FieldType),
    FailsUndecodable (w.toValue catalog type)
  | .null, _ => ok _
  | .boolean _, type => by
    cases type with
    | bool => exact ok _
    | _ => exact undecodable_refuse _ _
  | .integer n, type => undecodable_decodeInteger n type
  | .double x, type => undecodable_decodeDouble x type
  | .text s, type => undecodable_decodeText s type
  | .timestamp _, type => by
    cases type with
    | instant => exact ok _
    | _ => exact undecodable_refuse _ _
  | .blob s, type => undecodable_decodeBlob s type
  | .key _, type => by
    cases type with
    | text => exact ok _
    | _ => exact undecodable_refuse _ _
  | .entity bag, type => by
    cases type with
    | record ref => exact bind (undecodable_decodeBag catalog bag _ _) fun _ => ok _
    | _ => exact undecodable_refuse _ _
  | .list items, type => by
    cases type with
    | list item => exact bind (undecodable_decodeItems catalog items item) fun _ => ok _
    | _ => exact undecodable_refuse _ _

theorem undecodable_decodeItems (catalog : Catalog) : ∀ (items : List Property) (item : FieldType),
    FailsUndecodable (decodeItems catalog item items)
  | [], _ => ok _
  | ⟨v, _⟩ :: rest, item => by
    rw [decodeItems]
    refine bind (undecodable_toValue catalog v item) fun _ => ?_
    exact bind (undecodable_decodeItems catalog rest item) fun _ => ok _

theorem undecodable_decodeBag (catalog : Catalog) :
    ∀ (bag : List (String × Property)) (s : Schema) (r : Record),
      FailsUndecodable (decodeBag catalog s r bag)
  | [], _, _ => ok _
  | (name, ⟨v, _⟩) :: rest, s, r => by
    rw [decodeBag]
    refine bind (undecodable_target s name) fun target => ?_
    cases target with
    | nowhere => exact undecodable_decodeBag catalog rest s r
    | slot i type =>
      exact bind (undecodable_toValue catalog v type) fun _ => undecodable_decodeBag catalog rest s _
    | entry i item entry =>
      exact bind (undecodable_toValue catalog v item) fun _ => undecodable_decodeBag catalog rest s _

end

theorem undecodable_decode (catalog : Catalog) (s : Schema) (row : Entity) :
    FailsUndecodable (s.decode catalog row) :=
  bind (undecodable_decodeBag catalog row.properties s s.zeros) fun _ => ok _

theorem undecodable_toColumn (catalog : Catalog) (type : FieldType) (w : Wire) :
    FailsUndecodable (w.toColumn catalog type) := by
  unfold Wire.toColumn
  split
  · split <;> first | exact ok _ | exact conversion
  · exact undecodable_toValue catalog _ _

end Undecodable

/-! ## Members -/

namespace Schema

variable {catalog : Catalog} {s : Schema} {row : Entity} {i : Nat} {f : Field} {m : Member}
  {p : Property} {r : Record}

theorem isKey_of_keyIndex? (hf : s.fields[i]? = some f) (h : s.keyIndex? = some i) :
    s.isKey f.name = true := by
  obtain ⟨⟨j, g⟩, hg, rfl⟩ := Option.map_eq_some_iff.1 h
  cases hf.symm.trans (getElem?_of_keyField? hg)
  simp [isKey, hg]

/-- What is in the place of a field in a decoded row, when there is a property
under its name. -/
theorem exists_toValue_of_decode (hs : (s.fields.map Field.name).Nodup)
    (hrow : row.properties.names.Nodup) (hf : s.fields[i]? = some f)
    (hkey : s.isKey f.name = false) (hmap : ∀ item, f.type ≠ .map item)
    (hstored : f.isPersisted = true) (hflat : isFlattened f.name = false)
    (hp : row.get? f.name = some p) (hd : s.decode catalog row = .ok r) :
    ∃ v, p.value.toValue catalog f.type = .ok v ∧ r[i]? = some v := by
  have hmem : (f.name, p) ∈ row.properties := Entries.mem_of_find? hp
  have htarget : s.target f.name = .ok (.slot i f.type) :=
    target_eq_slot_iff.2 ⟨hflat, f, field?_of_getElem? hs hf, hstored, rfl⟩
  obtain ⟨v, hv⟩ : ∃ v, p.value.toValue catalog f.type = .ok v := by
    obtain ⟨x, hx⟩ := exists_decode_iff.1 ⟨r, hd⟩ _ hmem
    obtain ⟨target, htarget', hx⟩ := bind_eq_ok.1 hx
    cases htarget.symm.trans htarget'
    obtain ⟨v, hv, -⟩ := bind_eq_ok.1 hx
    exact ⟨v, hv⟩
  -- Nothing else goes into the place: no entry, and not the key.
  have hwhole : .whole v ∈ s.fillsAt catalog i row.properties :=
    mem_fillsAt.2 ⟨_, hmem, fill_eq_whole_iff.2 ⟨f.type, htarget, hv⟩⟩
  have hentry : ∀ name w, .entry name w ∉ s.fillsAt catalog i row.properties := by
    intro name w hw
    obtain ⟨item, htype⟩ := of_entry_mem_fillsAt hf hw
    exact hmap item htype
  have hover : ¬ s.IsOverwritten row.key i := by
    intro hover
    rw [isKey_of_keyIndex? hf hover.2] at hkey
    cases hkey
  refine ⟨v, hv, ?_⟩
  rw [getElem?_decode hd hf hover, fillsAt_eq_singleton hrow hf hwhole hentry]
  rfl

end Schema

/-- Where a property can be decoded, a column is read alike. -/
theorem Wire.toColumn_of_toValue {catalog : Catalog} {type : FieldType} {w : Wire} {v : Value}
    (h : w.toValue catalog type = .ok v) : w.toColumn catalog type = .ok v := by
  unfold Wire.toColumn
  split
  · cases h
  · exact h

/-- A column of moments may have an integer in it, which is taken for
milliseconds. -/
theorem Wire.toColumn_millis {catalog : Catalog} {n : Int64} :
    (Wire.integer n).toColumn catalog .instant = match Instant.ofMillis? n.toInt with
      | some t => .ok (.instant t)
      | none => Fault.raise (.conversion (toString n.toInt) "DateTime<Utc>") := by
  unfold Wire.toColumn
  rfl

namespace Schema

/-- **How the value of a member goes with the decoded row.** The member is
the field `f` at the place `i`. -/
structure MemberAgrees (catalog : Catalog) (s : Schema) (row : Entity) (i : Nat) (f : Field)
    (x : Except Error Value) : Prop where
  /-- The key field is the name of the key. -/
  key : s.isKey f.name = true → x = match row.key with
    | some k => .ok (.text k.name)
    | none => Fault.raise (.invalidResult (.keyAbsent s.name))
  /-- A map is what the decoded row has in its place. -/
  map : s.isKey f.name = false → ∀ item, f.type = .map item →
    (∀ r, s.decode catalog row = .ok r → ∃ v, r[i]? = some v ∧ x = .ok v) ∧
      ∀ err, s.decode catalog row = .error err → x = .error err
  /-- Any other field is missed when there is no property under its name. -/
  absent : s.isKey f.name = false → (∀ item, f.type ≠ .map item) →
    ((∃ fault, x = .error (.of (.invalidResult fault))) ↔ row.get? f.name = none)
  /-- If there is one, and the row can be decoded, it is what the decoded row
  has in its place. -/
  stored : s.isKey f.name = false → (∀ item, f.type ≠ .map item) → f.isPersisted = true →
    isFlattened f.name = false → row.get? f.name ≠ none →
      ∀ r, s.decode catalog row = .ok r → ∃ v, r[i]? = some v ∧ x = .ok v
  /-- A moment may be an integer, which is not decoded. -/
  millis : s.isKey f.name = false → f.type = .instant →
    ∀ p n, row.get? f.name = some p → p.value = .integer n →
      (x = match Instant.ofMillis? n.toInt with
        | some t => .ok (.instant t)
        | none => Fault.raise (.conversion (toString n.toInt) "DateTime<Utc>")) ∧
      (f.isPersisted = true → isFlattened f.name = false →
        ∃ err, s.decode catalog row = .error err)

variable {catalog : Catalog} {s : Schema} {row : Entity} {i : Nat} {f : Field} {m : Member}

theorem memberValue_of_isKey (hf : s.field? f.name = some (i, f)) (hm : m.path = [f.name])
    (hkey : s.isKey f.name = true) :
    s.memberValue catalog row m =
      match row.key with
      | some k => .ok (.text k.name)
      | none => Fault.raise (.invalidResult (.keyAbsent s.name)) := by
  cases hk : row.key <;> simp [memberValue, Member.name?, hm, hf, hkey, hk]

theorem memberValue_of_map {item : FieldType} (hf : s.field? f.name = some (i, f))
    (hm : m.path = [f.name]) (hkey : s.isKey f.name = false) (htype : f.type = .map item) :
    s.memberValue catalog row m = (s.decode catalog row).map fun r => (Record.take r i).1 := by
  simp [memberValue, Member.name?, hm, hf, hkey, htype, Except.map, bind, Except.bind]

theorem memberValue_of_not_map (hf : s.field? f.name = some (i, f)) (hm : m.path = [f.name])
    (hkey : s.isKey f.name = false) (hmap : ∀ item, f.type ≠ .map item) :
    s.memberValue catalog row m =
      match row.get? f.name with
      | none => Fault.raise (.invalidResult (.columnAbsent f.name))
      | some p => p.value.toColumn catalog f.type := by
  cases hp : row.get? f.name <;> simp [memberValue, Member.name?, hm, hf, hkey, hp]

/-- **A member is read as the decoded row has it.** -/
theorem memberAgrees (hs : (s.fields.map Field.name).Nodup) (hrow : row.properties.names.Nodup)
    (hf : s.fields[i]? = some f) (hm : m.path = [f.name]) :
    s.MemberAgrees catalog row i f (s.memberValue catalog row m) where
  key hkey := memberValue_of_isKey (field?_of_getElem? hs hf) hm hkey
  map hkey item htype := by
    rw [memberValue_of_map (field?_of_getElem? hs hf) hm hkey htype]
    constructor
    · intro r hr
      have hi : i < r.length := by
        rw [length_decode hr]
        exact (List.getElem?_eq_some_iff.1 hf).1
      exact ⟨r[i], List.getElem?_eq_getElem hi, by simp [hr, Except.map, Record.take, hi]⟩
    · intro err herr
      rw [herr]
      rfl
  absent hkey hmap := by
    rw [memberValue_of_not_map (field?_of_getElem? hs hf) hm hkey hmap]
    cases hp : row.get? f.name with
    | none => exact ⟨fun _ => rfl, fun _ => ⟨_, rfl⟩⟩
    | some p =>
      refine ⟨?_, fun hnone => absurd hnone (Option.some_ne_none p)⟩
      rintro ⟨fault, hfault⟩
      cases undecodable_toColumn catalog f.type p.value _ hfault
  stored hkey hmap hstored hflat hne r hr := by
    rw [memberValue_of_not_map (field?_of_getElem? hs hf) hm hkey hmap]
    obtain ⟨p, hp⟩ := Option.ne_none_iff_exists'.1 hne
    obtain ⟨v, hv, hplace⟩ := exists_toValue_of_decode hs hrow hf hkey hmap hstored hflat hp hr
    refine ⟨v, hplace, ?_⟩
    rw [hp]
    exact Wire.toColumn_of_toValue hv
  millis hkey htype p n hp hn := by
    have hmap : ∀ item, f.type ≠ .map item := by
      intro item hitem
      rw [htype] at hitem
      cases hitem
    constructor
    · rw [memberValue_of_not_map (field?_of_getElem? hs hf) hm hkey hmap, hp, htype]
      change p.value.toColumn catalog .instant = _
      rw [hn, Wire.toColumn_millis]
    · intro hstored hflat
      cases hd : s.decode catalog row with
      | error err => exact ⟨err, rfl⟩
      | ok r =>
        obtain ⟨v, hv, -⟩ := exists_toValue_of_decode hs hrow hf hkey hmap hstored hflat hp hd
        rw [hn, htype] at hv
        cases hv

end Schema

/-! ## Compiled selectors -/

/-- **What a row may be lacking**: its key, a property, or a form in which it
can be decoded. -/
inductive Schema.RowFault (catalog : Catalog) (s : Schema) (row : Entity) : Error → Prop
  | keyAbsent : row.key = none → RowFault catalog s row (.of (.invalidResult (.keyAbsent s.name)))
  | columnAbsent {f : Field} : f ∈ s.fields → row.get? f.name = none →
      RowFault catalog s row (.of (.invalidResult (.columnAbsent f.name)))
  | row {err : Error} : err.IsUndecodable → s.decode catalog row = .error err →
      RowFault catalog s row err
  | column {err : Error} {f : Field} {p : Property} : err.IsUndecodable → f ∈ s.fields →
      row.get? f.name = some p → p.value.toColumn catalog f.type = .error err →
      RowFault catalog s row err

/-- The field that a supported member is, with its place. -/
theorem Schema.HasMember.exists_place {s : Schema} {m : Member} (h : s.HasMember m) :
    ∃ (i : Nat) (f : Field), s.fields[i]? = some f ∧ m.path = [f.name] := by
  obtain ⟨f, hf, hm⟩ := h
  obtain ⟨i, hi⟩ := List.getElem?_of_mem hf
  exact ⟨i, f, hi, hm⟩

section Compiled

variable {catalog : Catalog} {s : Schema} {row : Entity} {i : Nat} {f : Field} {m : Member}
  {err : Error}

/-- A member that is a field fails for what the row is lacking. -/
theorem Schema.rowFault_of_memberValue (hs : (s.fields.map Field.name).Nodup)
    (hf : s.fields[i]? = some f) (hm : m.path = [f.name])
    (h : s.memberValue catalog row m = .error err) : s.RowFault catalog row err := by
  have hplace : s.field? f.name = some (i, f) := field?_of_getElem? hs hf
  have hmem : f ∈ s.fields := List.mem_of_getElem? hf
  cases hkey : s.isKey f.name with
  | true =>
    rw [memberValue_of_isKey hplace hm hkey] at h
    cases hk : row.key with
    | some k => rw [hk] at h; cases h
    | none =>
      rw [hk] at h
      cases h
      exact .keyAbsent hk
  | false =>
    by_cases hmap : ∃ item, f.type = .map item
    · obtain ⟨item, htype⟩ := hmap
      rw [memberValue_of_map hplace hm hkey htype] at h
      cases hd : s.decode catalog row with
      | ok r => rw [hd] at h; cases h
      | error err' =>
        rw [hd] at h
        cases h
        exact .row (undecodable_decode catalog s row _ hd) hd
    · rw [not_exists] at hmap
      rw [memberValue_of_not_map hplace hm hkey hmap] at h
      cases hp : row.get? f.name with
      | none =>
        rw [hp] at h
        cases h
        exact .columnAbsent hmem hp
      | some p =>
        rw [hp] at h
        exact .column (undecodable_toColumn catalog f.type p.value _ h) hmem hp h

/-- **A supported selector fails for what the row is lacking.** -/
theorem Expr.Fails.rowFault {part : Expr} (hs : (s.fields.map Field.name).Nodup)
    (hpart : part.IsSelector s) (h : part.Fails catalog s row err) :
    s.RowFault catalog row err := by
  cases h with
  | row hd => exact .row (undecodable_decode catalog s row err hd) hd
  | member hm =>
    cases hpart with
    | member hmember =>
      obtain ⟨i, f, hf, hpath⟩ := hmember.exists_place
      exact Schema.rowFault_of_memberValue hs hf hpath hm
  | unsupported hnot => exact absurd hpart hnot

namespace Pipeline

variable {p : Pipeline} {mode : Mode} {c : Compiled} {log log' : ReadLog}

theorem isSelector_of_plan {plan : Plan} (h : p.plan = .ok plan) :
    plan.selector.IsSelector p.schema := by
  obtain ⟨-, sources, hsources, -⟩ := plan_eq_ok.1 h
  exact (Expr.exists_sources_iff plan.selector).1 ⟨sources, hsources⟩

/-- The selector of a compiled query is supported. -/
theorem isSelector_of_translate (h : (p.translate mode).after log = (.ok c, log')) :
    c.plan.selector.IsSelector p.schema := by
  obtain ⟨-, plan, d, text, hplan, -, -, rfl⟩ := translate_eq_ok.1 h
  exact isSelector_of_plan hplan

/-- **A compiled selector reads a row as it is decoded.** On any row it gives
a value of its own form, in which a part that is the row is the decoded row,
or it fails with a part that misses something in the row. Each member in it
is a field, whose value is told by the decoded row, except that a moment may
be an integer. -/
theorem project_compiled (hs : (p.schema.fields.map Field.name).Nodup)
    (h : p.compile.after log = (.ok c, log')) (catalog : Catalog) {row : Entity}
    (hrow : row.properties.names.Nodup) :
    (∀ log₁ : ReadLog,
      (∃ v log₂, (c.plan.selector.project catalog p.schema row).after log₁ = (.ok v, log₂) ∧
        c.plan.selector.Forms (Expr.Reads catalog p.schema row) v) ∨
      ∃ err log₂, (c.plan.selector.project catalog p.schema row).after log₁ = (.error err, log₂) ∧
        (∃ part ∈ c.plan.selector.parts, part.Fails catalog p.schema row err) ∧
        p.schema.RowFault catalog row err) ∧
    ∀ m, .member m ∈ c.plan.selector.parts →
      ∃ (i : Nat) (f : Field), p.schema.fields[i]? = some f ∧ m.path = [f.name] ∧
        p.schema.MemberAgrees catalog row i f (p.schema.memberValue catalog row m) := by
  have hselector : c.plan.selector.IsSelector p.schema := isSelector_of_translate h
  refine ⟨fun log₁ => ?_, fun m hm => ?_⟩
  · rcases Expr.project_cases catalog p.schema row c.plan.selector log₁ with
      hv | ⟨err, log₂, herr, part, hpart, hfails⟩
    · exact .inl hv
    · exact .inr ⟨err, log₂, herr, ⟨part, hpart, hfails⟩,
        hfails.rowFault hs (hselector.of_mem_parts part hpart)⟩
  · cases hselector.of_mem_parts _ hm with
    | member hmember =>
      obtain ⟨i, f, hf, hpath⟩ := hmember.exists_place
      exact ⟨i, f, hf, hpath, Schema.memberAgrees hs hrow hf hpath⟩

end Pipeline

end Compiled

namespace Visit

/-- A key, counts under names, a number and a field with the name of an entry
that no map has. -/
def schema : Schema where
  name := "Visit"
  fields := [⟨"Id", .text, .key⟩, ⟨"Tags", .map .int64, .normal⟩, ⟨"Age", .int32, .normal⟩,
    ⟨"g/kv_A_g/k_b", .int64, .normal⟩]

/-- A row with a value for each field. -/
def row : Entity where
  key := some ⟨"Visit", "one"⟩
  properties := [("g/kv_Tags_g/k_a", ⟨.integer 1, true⟩), ("Age", ⟨.integer 7, true⟩),
    ("g/kv_A_g/k_b", ⟨.integer 5, true⟩)]

/-- The key, and a map with a remark. -/
def pipeline : Pipeline where
  schema := schema
  stages := [.project (.record [.field "Id", .record [.field "Tags", .value (.text "seen")],
    .field "Age"])]

/-- A row is projected to a record in a record. The map in it is the one that
the decoded row has. -/
theorem project_pipeline :
    (schema.fields.map Field.name).Nodup ∧ row.properties.names.Nodup ∧
    ∃ c v, pipeline.compile.after [] = (.ok c, []) ∧
      v = .record [.text "one", .record [.map [("a", .int64 1)], .text "seen"], .int32 7] ∧
      (c.plan.selector.project ⟨[]⟩ schema row).after [] = (.ok v, []) ∧
      c.plan.selector.Forms (Expr.Reads ⟨[]⟩ schema row) v := by
  have hs : (schema.fields.map Field.name).Nodup := by decide
  have hrow : row.properties.names.Nodup := by decide
  obtain ⟨c, hc, hproject⟩ : ∃ c, pipeline.compile.after [] = (.ok c, []) ∧
      (c.plan.selector.project ⟨[]⟩ schema row).after [] =
        (.ok (.record [.text "one", .record [.map [("a", .int64 1)], .text "seen"], .int32 7]),
          []) := ⟨_, rfl, rfl⟩
  refine ⟨hs, hrow, c, _, hc, rfl, hproject, ?_⟩
  rcases (Pipeline.project_compiled hs hc ⟨[]⟩ hrow).1 [] with ⟨v, log, hv, hforms⟩ | ⟨e, log, he, -⟩
  · have hsame := hproject.symm.trans hv
    cases hsame
    exact hforms
  · have hne := hproject.symm.trans he
    cases hne

/-- **A field with the name of an entry** is read by its name and decoded as
an entry, which belongs to no map here. So the two do not agree on it. -/
theorem project_flattened :
    (schema.fields.map Field.name).Nodup ∧ row.properties.names.Nodup ∧
    (∃ c, (Pipeline.mk schema [.project (.field "g/kv_A_g/k_b")]).compile.after [] = (.ok c, []) ∧
      (c.plan.selector.project ⟨[]⟩ schema row).after [] = (.ok (.int64 5), [])) ∧
    (∃ p, row.get? "g/kv_A_g/k_b" = some p) ∧
    ∃ r, schema.decode ⟨[]⟩ row = .ok r ∧ r[3]? = some (.int64 0) := by
  refine ⟨by decide, by decide, ⟨_, rfl, rfl⟩, ⟨_, rfl⟩, _, rfl, rfl⟩

end Visit

end KindQuery
