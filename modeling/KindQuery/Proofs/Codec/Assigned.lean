import KindQuery.Proofs.Codec.Drawn
/-!
# Keys given to elements

A run over a list of elements is followed element by element. When it ends
well, each element has an entity with its key, and those that had no key have
drawn one (`Model.encodeWithKeys_ok`). When it fails, it has done to the
elements before what a run over these alone does, and nothing to those behind
(`Model.encodeWithKeys_error`).
-/

namespace KindQuery

variable {α σ : Type} {m : Model α} {lookup : KeyLookup σ} {verify : Bool} {index : Nat}
  {supply supply' : KeySupply σ}

/-! ## Places of keys -/

namespace Record

variable {r r' : Record} {v : Value}

theorem get?_of_put? (h : r.put? index v = some r') : r'.get? index = some v := by
  unfold put? at h
  split at h
  next hlt =>
    cases h
    exact List.getElem?_set_self hlt
  next => cases h

/-- The place of the key has a text or null. -/
def HasKeyPlace (index : Nat) (r : Record) : Prop :=
  ∀ v, r.get? index = some v → v = .null ∨ ∃ name, v = .text name

/-- A record that does not lack a key then has a text in its place. -/
theorem HasKeyPlace.exists_text (h : r.HasKeyPlace index) (hkey : lacksKey index r = false) :
    ∃ name, r.get? index = some (.text name) ∧ isBlank name = false := by
  unfold lacksKey at hkey
  split at hkey
  next v hv =>
    rcases h v hv with rfl | ⟨name, rfl⟩
    · cases hkey
    · exact ⟨name, hv, hkey⟩
  next => cases hkey

end Record

theorem lacksKey_of_get? {r : Record} {name : String} (h : r.get? index = some (.text name))
    (hname : isBlank name = false) : lacksKey index r = false := by
  unfold lacksKey
  rw [h]
  exact hname

/-- **An element that is loaded is what it is loaded from**, whichever key its
record is given before. -/
def Model.Reloads (m : Model α) (a : α) : Prop :=
  ∀ index ∈ m.schema.keyIndex?, ∀ name r b, (m.toRecord a).put? index (.text name) = some r →
    m.load r = .ok b → m.toRecord b = r

/-! ## Elements that end well -/

/-- An element before and after it is encoded, with the draw for its key if
there was one. -/
structure Assignment (α : Type) where
  before : α
  draw : Option Draw
  after : α
  entity : Entity

namespace Assignment

/-- The candidates that are tried. -/
def candidates (x : Assignment α) : List String := x.draw.elim [] Draw.candidates

/-- The answers to them. The first that is not taken is drawn. -/
def answers (x : Assignment α) : List (Except Error Bool) := x.draw.elim [] (·.answers (.ok false))

/-- **An element is encoded with its key.** The entity is that of the element
as it is now, which has a key. An element that had one is as before, and
nothing was drawn. Else the key that was drawn is all that is new in its
record. -/
structure Sound (m : Model α) (verify : Bool) (index : Nat) (x : Assignment α) : Prop where
  encoded : m.encode x.after = .ok x.entity
  keyed : ∃ name, (m.toRecord x.after).get? index = some (.text name) ∧ isBlank name = false ∧
    x.entity.key = some ⟨m.schema.name, name⟩
  kept : lacksKey index (m.toRecord x.before) = false → x.draw = none ∧ x.after = x.before
  given : lacksKey index (m.toRecord x.before) = true → ∃ d, x.draw = some d ∧
    (verify = false → d.taken = []) ∧
    (m.toRecord x.before).put? index (.text d.token) = some (m.toRecord x.after)

end Assignment

namespace Model

/-- **An element that ends well** is encoded with its key. -/
theorem Keys.exists_sound {a : α} {k : Keyed Entity α σ} {e : Entity}
    (h : m.Keys lookup verify index a supply k) (hk : k.result = .ok e)
    (hindex : m.schema.keyIndex? = some index) (hplace : (m.toRecord a).HasKeyPlace index)
    (hload : m.Reloads a) (htokens : ∀ t ∈ supply.tokens, isBlank t = false) :
    ∃ x : Assignment α, x.before = a ∧ x.after = k.element ∧ x.entity = e ∧
      x.Sound m verify index ∧
      supply.Spends lookup verify m.schema.name x.candidates x.answers k.supply := by
  cases h with
  | kept hkey =>
    have hencode : m.encode a = .ok e := mapError_eq_ok.1 hk
    obtain ⟨name, hget, hname⟩ := hplace.exists_text hkey
    refine ⟨⟨a, none, a, e⟩, rfl, rfl, rfl, ⟨hencode, ⟨name, hget, hname, ?_⟩,
      fun _ => ⟨rfl, rfl⟩, fun hlacks => ?_⟩, .refl supply⟩
    · exact Schema.key_of_encode hindex hencode hget hname
    · rw [hkey] at hlacks
      cases hlacks
  | undrawn | unplaced | unloaded => cases hk
  | @given d supply' r b hlacks htaken hspends hput hb =>
    have hrecord : m.toRecord b = r := hload index hindex d.token r b hput hb
    have hencode : m.encode b = .ok e := by
      rw [encode, hrecord]
      exact mapError_eq_ok.1 hk
    have htoken : isBlank d.token = false := by
      refine htokens d.token ?_
      rw [hspends.tokens]
      simp [Draw.candidates]
    have hget : (m.toRecord b).get? index = some (.text d.token) := by
      rw [hrecord]
      exact Record.get?_of_put? hput
    refine ⟨⟨a, some d, b, e⟩, rfl, rfl, rfl, ⟨hencode, ⟨d.token, hget, htoken, ?_⟩,
      fun hkey => ?_, fun _ => ⟨d, rfl, htaken, by rw [hput, hrecord]⟩⟩, hspends⟩
    · exact Schema.key_of_encode hindex hencode hget htoken
    · rw [hlacks] at hkey
      cases hkey

end Model

/-! ## Runs -/

section Runs

variable {a b : α} {as bs : List α} {e : Entity} {es : List Entity} {stop : Stop}

theorem encodeAllKeyed_cons_of_ok
    (h : encodeKeyed m lookup verify index a supply = ⟨.ok e, b, supply'⟩) :
    encodeAllKeyed m lookup verify index (a :: as) supply =
      ⟨(encodeAllKeyed m lookup verify index as supply').result.map (e :: ·),
        b :: (encodeAllKeyed m lookup verify index as supply').element,
        (encodeAllKeyed m lookup verify index as supply').supply⟩ := by
  simp only [encodeAllKeyed, h]

theorem encodeAllKeyed_cons_of_error
    (h : encodeKeyed m lookup verify index a supply = ⟨.error stop, b, supply'⟩) :
    encodeAllKeyed m lookup verify index (a :: as) supply = ⟨.error stop, b :: as, supply'⟩ := by
  simp only [encodeAllKeyed, h]

/-- A run that ends well encodes its first element and then the others. -/
theorem encodeAllKeyed_cons_eq_ok
    (h : encodeAllKeyed m lookup verify index (a :: as) supply = ⟨.ok es, bs, supply'⟩) :
    ∃ e b supply₁ es' bs', es = e :: es' ∧ bs = b :: bs' ∧
      encodeKeyed m lookup verify index a supply = ⟨.ok e, b, supply₁⟩ ∧
      encodeAllKeyed m lookup verify index as supply₁ = ⟨.ok es', bs', supply'⟩ := by
  rcases hhere : encodeKeyed m lookup verify index a supply with ⟨stop | e, b, supply₁⟩
  · rw [encodeAllKeyed_cons_of_error hhere] at h
    cases h
  · rw [encodeAllKeyed_cons_of_ok hhere] at h
    rcases hrest : encodeAllKeyed m lookup verify index as supply₁ with ⟨stop | es', bs', supply₂⟩
    · rw [hrest] at h
      cases h
    · rw [hrest] at h
      cases h
      exact ⟨e, b, supply₁, es', bs', rfl, rfl, rfl, hrest⟩

/-- **A run that ends well** encodes each element with its key. -/
theorem encodeAllKeyed_exists_sound (hindex : m.schema.keyIndex? = some index)
    (hplaces : ∀ a ∈ as, (m.toRecord a).HasKeyPlace index) (hload : ∀ a ∈ as, m.Reloads a)
    (htokens : ∀ t ∈ supply.tokens, isBlank t = false)
    (h : encodeAllKeyed m lookup verify index as supply = ⟨.ok es, bs, supply'⟩) :
    ∃ xs : List (Assignment α), xs.map (·.before) = as ∧ xs.map (·.after) = bs ∧
      xs.map (·.entity) = es ∧ (∀ x ∈ xs, x.Sound m verify index) ∧
      supply.Spends lookup verify m.schema.name (xs.flatMap (·.candidates))
        (xs.flatMap (·.answers)) supply' := by
  induction as generalizing supply es bs with
  | nil =>
    cases h
    exact ⟨[], rfl, rfl, rfl, nofun, .refl _⟩
  | cons a as ih =>
    obtain ⟨e, b, supply₁, es', bs', rfl, rfl, hhere, hrest⟩ := encodeAllKeyed_cons_eq_ok h
    have hkeys := encodeKeyed_keys m lookup verify index a supply
    rw [hhere] at hkeys
    obtain ⟨x, rfl, rfl, rfl, hsound, hspends⟩ := hkeys.exists_sound rfl hindex
      (hplaces a List.mem_cons_self) (hload a List.mem_cons_self) htokens
    have htokens₁ : ∀ t ∈ supply₁.tokens, isBlank t = false := by
      intro t ht
      refine htokens t ?_
      rw [hspends.tokens]
      exact List.mem_append_right _ ht
    obtain ⟨xs, rfl, rfl, rfl, hsounds, hspends'⟩ := ih
      (fun a ha => hplaces a (List.mem_cons_of_mem _ ha))
      (fun a ha => hload a (List.mem_cons_of_mem _ ha)) htokens₁ hrest
    exact ⟨x :: xs, rfl, rfl, rfl, List.forall_mem_cons.2 ⟨hsound, hsounds⟩,
      hspends.append hspends'⟩

/-- Elements that have keys are encoded as they are, and nothing is asked. -/
theorem encodeAllKeyed_of_keyed {xs : List (Assignment α)}
    (h : ∀ x ∈ xs, lacksKey index (m.toRecord x.after) = false ∧ m.encode x.after = .ok x.entity)
    (lookup : KeyLookup σ) (verify : Bool) (supply : KeySupply σ) :
    encodeAllKeyed m lookup verify index (xs.map (·.after)) supply =
      ⟨.ok (xs.map (·.entity)), xs.map (·.after), supply⟩ := by
  induction xs with
  | nil => rfl
  | cons x xs ih =>
    obtain ⟨⟨hkey, hencode⟩, hxs⟩ := List.forall_mem_cons.1 h
    have hhere : encodeKeyed m lookup verify index x.after supply =
        ⟨.ok x.entity, x.after, supply⟩ := by
      have hentity : (m.encode x.after).mapError Stop.failed = .ok x.entity :=
        mapError_eq_ok.2 hencode
      rw [Model.encode] at hentity
      simp only [encodeKeyed, hkey, Bool.false_eq_true, if_false, hentity]
    rw [List.map_cons, encodeAllKeyed_cons_of_ok hhere, ih hxs]
    rfl

/-- What a run does to elements is not changed by elements behind them. -/
theorem encodeAllKeyed_append (behind : List α)
    (h : encodeAllKeyed m lookup verify index as supply = ⟨.ok es, bs, supply'⟩) :
    encodeAllKeyed m lookup verify index (as ++ behind) supply =
      ⟨(encodeAllKeyed m lookup verify index behind supply').result.map (es ++ ·),
        bs ++ (encodeAllKeyed m lookup verify index behind supply').element,
        (encodeAllKeyed m lookup verify index behind supply').supply⟩ := by
  induction as generalizing supply es bs with
  | nil =>
    cases h
    rw [List.nil_append]
    rcases encodeAllKeyed m lookup verify index behind supply' with ⟨_ | _, _, _⟩ <;> rfl
  | cons a as ih =>
    obtain ⟨e, b, supply₁, es', bs', rfl, rfl, hhere, hrest⟩ := encodeAllKeyed_cons_eq_ok h
    rw [List.cons_append, encodeAllKeyed_cons_of_ok hhere, ih hrest]
    rcases encodeAllKeyed m lookup verify index behind supply' with ⟨_ | _, _, _⟩ <;> rfl

/-- A run that fails ends well before the element that fails. -/
theorem exists_of_encodeAllKeyed_eq_error
    (h : encodeAllKeyed m lookup verify index as supply = ⟨.error stop, bs, supply'⟩) :
    ∃ before a behind es done supply₁ b, as = before ++ a :: behind ∧ bs = done ++ b :: behind ∧
      encodeAllKeyed m lookup verify index before supply = ⟨.ok es, done, supply₁⟩ ∧
      encodeKeyed m lookup verify index a supply₁ = ⟨.error stop, b, supply'⟩ := by
  induction as generalizing supply bs with
  | nil => cases h
  | cons a as ih =>
    rcases hhere : encodeKeyed m lookup verify index a supply with ⟨stop' | e, b, supply₁⟩
    · rw [encodeAllKeyed_cons_of_error hhere] at h
      cases h
      exact ⟨[], a, as, [], [], supply, b, rfl, rfl, rfl, hhere⟩
    · rw [encodeAllKeyed_cons_of_ok hhere] at h
      rcases hrest : encodeAllKeyed m lookup verify index as supply₁ with ⟨stop' | es, bs', supply₂⟩
      · rw [hrest] at h
        cases h
        obtain ⟨before, a', behind, es, done, supply₃, b', rfl, rfl, hbefore, hfails⟩ := ih hrest
        refine ⟨a :: before, a', behind, e :: es, b :: done, supply₃, b', rfl, rfl, ?_, hfails⟩
        rw [encodeAllKeyed_cons_of_ok hhere, hbefore]
        rfl
      · rw [hrest] at h
        cases h

end Runs

/-! ## Elements that fail -/

namespace Model

/-- **An element may be given a key** and is else as before. -/
def Rekeys (m : Model α) (index : Nat) (a b : α) : Prop :=
  (lacksKey index (m.toRecord a) = false ∧ b = a) ∨
    (lacksKey index (m.toRecord a) = true ∧
      ∃ token, (m.toRecord a).put? index (.text token) = some (m.toRecord b))

/-- **The ways in which an element fails**, with the element that is left. It is
the one there was, but for an element that has been given a key already and
cannot be encoded with it. -/
inductive Fails (m : Model α) (lookup : KeyLookup σ) (verify : Bool) (index : Nat) (a : α)
    (supply : KeySupply σ) : Stop → α → KeySupply σ → Prop
  /-- It has a key, and nothing is asked. -/
  | kept {e : Error} : lacksKey index (m.toRecord a) = false → m.encode a = .error e →
      Fails m lookup verify index a supply (.failed e) a supply
  /-- No key is drawn. -/
  | undrawn {stop : Stop} {candidates : List String} {answers : List (Except Error Bool)}
      {supply' : KeySupply σ} :
      lacksKey index (m.toRecord a) = true → Drawn verify (.error stop) candidates answers →
      supply.Spends lookup verify m.schema.name candidates answers supply' →
      Fails m lookup verify index a supply stop a supply'
  /-- The record has no place for the key. -/
  | unplaced {d : Draw} {supply' : KeySupply σ} :
      lacksKey index (m.toRecord a) = true →
      supply.Spends lookup verify m.schema.name d.candidates (d.answers (.ok false)) supply' →
      (m.toRecord a).get? index = none →
      Fails m lookup verify index a supply
        (.failed (.of (.invalidSchema (.noKeySlot m.schema.name)))) a supply'
  /-- The record with the key in it cannot be loaded. -/
  | unloaded {d : Draw} {supply' : KeySupply σ} {r : Record} {e : Error} :
      lacksKey index (m.toRecord a) = true →
      supply.Spends lookup verify m.schema.name d.candidates (d.answers (.ok false)) supply' →
      (m.toRecord a).put? index (.text d.token) = some r → m.load r = .error e →
      Fails m lookup verify index a supply (.failed e) a supply'
  | given {d : Draw} {supply' : KeySupply σ} {b : α} {e : Error} :
      lacksKey index (m.toRecord a) = true →
      supply.Spends lookup verify m.schema.name d.candidates (d.answers (.ok false)) supply' →
      (m.toRecord a).put? index (.text d.token) = some (m.toRecord b) → m.encode b = .error e →
      Fails m lookup verify index a supply (.failed e) b supply'

variable {a : α} {k : Keyed Entity α σ}

theorem Keys.fails {stop : Stop} (h : m.Keys lookup verify index a supply k)
    (hk : k.result = .error stop) (hindex : m.schema.keyIndex? = some index)
    (hload : m.Reloads a) : m.Fails lookup verify index a supply stop k.element k.supply := by
  cases h with
  | kept hkey =>
    obtain ⟨e, hencode, rfl⟩ := mapError_eq_error.1 hk
    exact .kept hkey hencode
  | undrawn hlacks hdrawn hspends =>
    cases hk
    exact .undrawn hlacks hdrawn hspends
  | unplaced hlacks _ hspends hget =>
    cases hk
    exact .unplaced hlacks hspends hget
  | unloaded hlacks _ hspends hput hload =>
    cases hk
    exact .unloaded hlacks hspends hput hload
  | @given d _ r b hlacks _ hspends hput hb =>
    obtain ⟨e, hencode, rfl⟩ := mapError_eq_error.1 hk
    have hrecord : m.toRecord b = r := hload index hindex d.token r b hput hb
    rw [← hrecord] at hput hencode
    exact .given hlacks hspends hput hencode

theorem Keys.rekeys {e : Entity} (h : m.Keys lookup verify index a supply k)
    (hk : k.result = .ok e) (hindex : m.schema.keyIndex? = some index) (hload : m.Reloads a) :
    m.Rekeys index a k.element := by
  cases h with
  | kept hkey => exact .inl ⟨hkey, rfl⟩
  | undrawn | unplaced | unloaded => cases hk
  | @given d _ r b hlacks _ _ hput hb =>
    refine .inr ⟨hlacks, d.token, ?_⟩
    rw [hput, hload index hindex d.token r b hput hb]

end Model

/-- Elements before one that fails are given keys where they lack them. -/
theorem encodeAllKeyed_rekeys {as bs : List α} {es : List Entity}
    (hindex : m.schema.keyIndex? = some index) (hload : ∀ a ∈ as, m.Reloads a)
    (h : encodeAllKeyed m lookup verify index as supply = ⟨.ok es, bs, supply'⟩) :
    List.Forall₂ (m.Rekeys index) as bs := by
  induction as generalizing supply es bs with
  | nil =>
    cases h
    exact .nil
  | cons a as ih =>
    obtain ⟨e, b, supply₁, es', bs', rfl, rfl, hhere, hrest⟩ := encodeAllKeyed_cons_eq_ok h
    have hkeys := encodeKeyed_keys m lookup verify index a supply
    rw [hhere] at hkeys
    exact .cons (hkeys.rekeys rfl hindex (hload a List.mem_cons_self))
      (ih (fun a ha => hload a (List.mem_cons_of_mem _ ha)) hrest)

/-! ## The whole list -/

/-- The key field of a schema holds text. -/
def Schema.HasTextKey (s : Schema) (index : Nat) : Prop :=
  ∃ f, s.keyField? = some (index, f) ∧ f.type = .text

namespace Schema

variable {s : Schema} {f : Field}

theorem HasTextKey.keyIndex?_eq (h : s.HasTextKey index) : s.keyIndex? = some index := by
  obtain ⟨f, hkey, -⟩ := h
  exact keyIndex?_of_keyField? hkey

theorem requireKey_eq_ok_iff :
    s.requireKey = .ok (index, f) ↔ s.keyField? = some (index, f) ∧ f.type = .text := by
  constructor
  · intro h
    unfold requireKey at h
    split at h
    next => cases h
    next i g hkey =>
      split at h
      next htype =>
        cases h
        exact ⟨hkey, htype⟩
      next => cases h
  · rintro ⟨hkey, htype⟩
    simp [requireKey, hkey, htype]

end Schema

namespace Model

variable {as bs : List α} {es : List Entity} {stop : Stop}

theorem encodeWithKeys_of_hasTextKey (hkey : m.schema.HasTextKey index) (lookup : KeyLookup σ)
    (verify : Bool) (as : List α) (supply : KeySupply σ) :
    m.encodeWithKeys lookup verify as supply = encodeAllKeyed m lookup verify index as supply := by
  obtain ⟨f, hf⟩ := hkey
  rw [encodeWithKeys, Schema.requireKey_eq_ok_iff.2 hf]

/-- Where no field is the key, or one that does not hold text, nothing is
begun. -/
theorem encodeWithKeys_of_not_hasTextKey (hkey : ∀ index, ¬ m.schema.HasTextKey index)
    (lookup : KeyLookup σ) (verify : Bool) (as : List α) (supply : KeySupply σ) :
    ∃ e, m.encodeWithKeys lookup verify as supply = ⟨.error (.failed e), as, supply⟩ := by
  unfold encodeWithKeys
  cases hrequire : m.schema.requireKey with
  | error e => exact ⟨e, rfl⟩
  | ok p => exact absurd ⟨p.2, Schema.requireKey_eq_ok_iff.1 hrequire⟩ (hkey p.1)

/-- **Every element gets its key.** When a run ends well, each element is
encoded with its key, and the candidates that were tried are those of the
elements that lacked one, in order. A second run, whatever it is run with,
finds nothing to do and encodes the same. -/
theorem encodeWithKeys_ok (hkey : m.schema.HasTextKey index)
    (hplaces : ∀ a ∈ as, (m.toRecord a).HasKeyPlace index) (hload : ∀ a ∈ as, m.Reloads a)
    (htokens : ∀ t ∈ supply.tokens, isBlank t = false)
    (h : m.encodeWithKeys lookup verify as supply = ⟨.ok es, bs, supply'⟩) :
    (∃ xs : List (Assignment α), xs.map (·.before) = as ∧ xs.map (·.after) = bs ∧
      xs.map (·.entity) = es ∧ (∀ x ∈ xs, x.Sound m verify index) ∧
      supply.Spends lookup verify m.schema.name (xs.flatMap (·.candidates))
        (xs.flatMap (·.answers)) supply') ∧
    ∀ {τ : Type} (lookup' : KeyLookup τ) (verify' : Bool) (other : KeySupply τ),
      m.encodeWithKeys lookup' verify' bs other = ⟨.ok es, bs, other⟩ := by
  rw [encodeWithKeys_of_hasTextKey hkey] at h
  obtain ⟨xs, hbefore, rfl, rfl, hsound, hspends⟩ :=
    encodeAllKeyed_exists_sound hkey.keyIndex?_eq hplaces hload htokens h
  refine ⟨⟨xs, hbefore, rfl, rfl, hsound, hspends⟩, fun lookup' verify' other => ?_⟩
  rw [encodeWithKeys_of_hasTextKey hkey]
  refine encodeAllKeyed_of_keyed (fun x hx => ?_) lookup' verify' other
  obtain ⟨name, hget, hname, -⟩ := (hsound x hx).keyed
  exact ⟨lacksKey_of_get? hget hname, (hsound x hx).encoded⟩

end Model

namespace Seat

/-- A seat has a key and stands in a row. -/
def schema : Schema where
  name := "Seat"
  fields := [⟨"Id", .text, .normal⟩, ⟨"Row", .int32, .normal⟩]

def model : Model Record := .ofSchema ⟨[]⟩ schema

/-- Two seats without a key, and between them one that has one. -/
def seats : List Record :=
  [[.null, .int32 1], [.text "kept", .int32 2], [.text " ", .int32 3]]

def fresh : KeySupply Nat := ⟨["a", "b", "c"], [], 0⟩

/-- The first key that is asked for is taken. -/
def firstTaken : KeyLookup Nat := fun _ n => (.ok (n == 0), n + 1)

theorem hasTextKey : model.schema.HasTextKey 0 := ⟨⟨"Id", .text, .normal⟩, rfl, rfl⟩

theorem hasKeyPlace : ∀ a ∈ seats, (model.toRecord a).HasKeyPlace 0 := by
  simp [seats, Record.HasKeyPlace, model, Model.ofSchema, Record.get?]

theorem reloads : ∀ a ∈ seats, model.Reloads a := by
  have hseat : ∀ v n, model.Reloads [v, .int32 n] := by
    intro v n index hindex name r b hput hload
    cases hindex
    cases hput
    cases hload
    rfl
  simp [seats, hseat]

/-- The first seat is given the second candidate, and the last one the
third. -/
theorem all_have_keys : ∃ es supply',
    model.encodeWithKeys firstTaken true seats fresh =
      ⟨.ok es, [[.text "b", .int32 1], [.text "kept", .int32 2], [.text "c", .int32 3]], supply'⟩ ∧
    supply'.asked = [⟨"Seat", "a"⟩, ⟨"Seat", "b"⟩, ⟨"Seat", "c"⟩] ∧
    ∃ xs : List (Assignment Record), xs.map (·.entity) = es ∧
      (∀ x ∈ xs, x.Sound model true 0) ∧
      fresh.Spends firstTaken true "Seat" (xs.flatMap (·.candidates)) (xs.flatMap (·.answers))
        supply' := by
  obtain ⟨es, supply', hrun, hasked⟩ : ∃ es supply',
      model.encodeWithKeys firstTaken true seats fresh = ⟨.ok es,
        [[.text "b", .int32 1], [.text "kept", .int32 2], [.text "c", .int32 3]], supply'⟩ ∧
      supply'.asked = [⟨"Seat", "a"⟩, ⟨"Seat", "b"⟩, ⟨"Seat", "c"⟩] := ⟨_, _, rfl, rfl⟩
  obtain ⟨xs, -, -, hes, hsound, hspends⟩ :=
    (Model.encodeWithKeys_ok hasTextKey hasKeyPlace reloads (by decide) hrun).1
  exact ⟨es, supply', hrun, hasked, xs, hes, hsound, hspends⟩

end Seat

/-- Where a run has ended: the elements before with what became of them, the
element that failed with what is left of it, and those behind. -/
structure Halt (α σ : Type) where
  before : List α
  done : List α
  entities : List Entity
  element : α
  left : α
  behind : List α
  /-- The supply when the element is reached. -/
  supply : KeySupply σ

/-- **A run that has failed leaves everything in order.** To the elements
before it has done what it does to these alone: they have keys, and are else
unchanged. The elements behind are as they were, and other ones in their place
would have made no difference. -/
structure Halt.Clean (m : Model α) (lookup : KeyLookup σ) (verify : Bool) (index : Nat)
    (as bs : List α) (supply supply' : KeySupply σ) (stop : Stop) (x : Halt α σ) : Prop where
  given : as = x.before ++ x.element :: x.behind
  result : bs = x.done ++ x.left :: x.behind
  run : m.encodeWithKeys lookup verify x.before supply = ⟨.ok x.entities, x.done, x.supply⟩
  rekeyed : List.Forall₂ (m.Rekeys index) x.before x.done
  fails : m.Fails lookup verify index x.element x.supply stop x.left supply'
  unseen : ∀ behind, m.encodeWithKeys lookup verify (x.before ++ x.element :: behind) supply =
    ⟨.error stop, x.done ++ x.left :: behind, supply'⟩

/-- **A failure is clean.** Either there is no key to give, and then nothing is
begun, or the run has ended at one of the elements. -/
theorem Model.encodeWithKeys_error {as bs : List α} {stop : Stop}
    (hload : ∀ a ∈ as, m.Reloads a)
    (h : m.encodeWithKeys lookup verify as supply = ⟨.error stop, bs, supply'⟩) :
    ((∀ index, ¬ m.schema.HasTextKey index) ∧ bs = as ∧ supply' = supply) ∨
      ∃ index, m.schema.HasTextKey index ∧ ∃ x : Halt α σ,
        x.Clean m lookup verify index as bs supply supply' stop := by
  by_cases hkey : ∃ index, m.schema.HasTextKey index
  · obtain ⟨index, hkey⟩ := hkey
    rw [encodeWithKeys_of_hasTextKey hkey] at h
    obtain ⟨before, a, behind, es, done, supply₁, b, rfl, rfl, hrun, hhere⟩ :=
      exists_of_encodeAllKeyed_eq_error h
    have hkeys := encodeKeyed_keys m lookup verify index a supply₁
    rw [hhere] at hkeys
    refine .inr ⟨index, hkey, ⟨before, done, es, a, b, behind, supply₁⟩, rfl, rfl, ?_, ?_, ?_,
      fun behind' => ?_⟩
    · rw [encodeWithKeys_of_hasTextKey hkey, hrun]
    · exact encodeAllKeyed_rekeys hkey.keyIndex?_eq
        (fun a ha => hload a (List.mem_append_left _ ha)) hrun
    · exact hkeys.fails rfl hkey.keyIndex?_eq
        (hload a (List.mem_append_right _ List.mem_cons_self))
    · rw [encodeWithKeys_of_hasTextKey hkey, encodeAllKeyed_append _ hrun,
        encodeAllKeyed_cons_of_error hhere]
      rfl
  · have hnone : ∀ index, ¬ m.schema.HasTextKey index := fun index hi => hkey ⟨index, hi⟩
    obtain ⟨e, he⟩ := encodeWithKeys_of_not_hasTextKey hnone lookup verify as supply
    cases he.symm.trans h
    exact .inl ⟨hnone, rfl, rfl⟩

namespace Seat

/-- The store answers once. -/
def answersOnce : KeyLookup Nat := fun _ n =>
  (if n = 0 then .ok false else Fault.raise (.note "unreachable"), n + 1)

/-- The first seat has its key when the last one fails, which is left as it
was. -/
theorem last_fails : ∃ stop supply',
    model.encodeWithKeys answersOnce true seats fresh = ⟨.error stop,
      [[.text "a", .int32 1], [.text "kept", .int32 2], [.text " ", .int32 3]], supply'⟩ ∧
    ∃ index, ∃ x : Halt Record Nat, x.Clean model answersOnce true index seats
      [[.text "a", .int32 1], [.text "kept", .int32 2], [.text " ", .int32 3]] fresh supply'
      stop := by
  obtain ⟨stop, supply', hrun⟩ : ∃ stop supply',
      model.encodeWithKeys answersOnce true seats fresh = ⟨.error stop,
        [[.text "a", .int32 1], [.text "kept", .int32 2], [.text " ", .int32 3]], supply'⟩ :=
    ⟨_, _, rfl⟩
  obtain ⟨index, -, x, hx⟩ := (Model.encodeWithKeys_error reloads hrun).resolve_left
    fun hnone => hnone.1 0 hasTextKey
  exact ⟨stop, supply', hrun, index, x, hx⟩

end Seat

end KindQuery
