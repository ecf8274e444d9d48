import KindQuery.Codec.Keyed
import KindQuery.Proofs.Codec.Stored
/-!
# Drawing keys

An element whose key is blank draws candidates from a supply until the store
does not know one. What a draw comes to is said apart from the store that
answers (`Drawn`), and what it takes from the supply apart from its result
(`KeySupply.Spends`), so that the draws of several elements add up. From it
follows all that can become of one element (`Model.Keys`).
-/

namespace KindQuery

variable {α σ : Type}

/-! ## Answers -/

/-- What a store answers when it is asked for keys one after another. -/
def KeyLookup.answers (lookup : KeyLookup σ) : List Key → σ → List (Except Error Bool) × σ
  | [], store => ([], store)
  | k :: ks, store =>
    let (answer, store) := lookup k store
    let (answers, store) := KeyLookup.answers lookup ks store
    (answer :: answers, store)

theorem KeyLookup.answers_append {lookup : KeyLookup σ} {ks ks' : List Key} {store store' : σ}
    {answers : List (Except Error Bool)} (h : lookup.answers ks store = (answers, store')) :
    lookup.answers (ks ++ ks') store =
      (answers ++ (lookup.answers ks' store').1, (lookup.answers ks' store').2) := by
  induction ks generalizing store answers with
  | nil =>
    cases h
    rfl
  | cons k ks ih =>
    simp only [KeyLookup.answers, Prod.mk.injEq] at h
    obtain ⟨rfl, hstore⟩ := h
    have hrest := ih (Prod.ext rfl hstore)
    simp only [List.cons_append, KeyLookup.answers, hrest]

/-- The keys that are asked for when candidates are tried: those of the
candidates if they are checked, and else none. -/
def keysAsked (verify : Bool) (kind : String) (candidates : List String) : List Key :=
  if verify then candidates.map (⟨kind, ·⟩) else []

theorem keysAsked_append {verify : Bool} {kind : String} {xs ys : List String} :
    keysAsked verify kind (xs ++ ys) = keysAsked verify kind xs ++ keysAsked verify kind ys := by
  cases verify <;> simp [keysAsked]

/-- **What trying candidates takes from a supply.** The candidates are the next
ones, their keys are asked for in their order, and the store gives the
answers to these. -/
structure KeySupply.Spends (lookup : KeyLookup σ) (verify : Bool) (kind : String)
    (candidates : List String) (answers : List (Except Error Bool))
    (supply supply' : KeySupply σ) : Prop where
  tokens : supply.tokens = candidates ++ supply'.tokens
  asked : supply'.asked = supply.asked ++ keysAsked verify kind candidates
  answered : lookup.answers (keysAsked verify kind candidates) supply.store =
    (if verify then answers else [], supply'.store)

namespace KeySupply.Spends

variable {lookup : KeyLookup σ} {verify : Bool} {kind : String} {xs ys : List String}
  {answers answers' : List (Except Error Bool)} {supply supply₁ supply₂ : KeySupply σ}

/-- Without candidates nothing is asked. -/
theorem refl (supply : KeySupply σ) : Spends lookup verify kind [] [] supply supply := by
  refine ⟨rfl, ?_, ?_⟩ <;> cases verify <;> simp [keysAsked, KeyLookup.answers]

theorem append (h : Spends lookup verify kind xs answers supply supply₁)
    (h' : Spends lookup verify kind ys answers' supply₁ supply₂) :
    Spends lookup verify kind (xs ++ ys) (answers ++ answers') supply supply₂ where
  tokens := by rw [h.tokens, h'.tokens, List.append_assoc]
  asked := by rw [h'.asked, h.asked, keysAsked_append, List.append_assoc]
  answered := by
    rw [keysAsked_append, KeyLookup.answers_append h.answered, h'.answered]
    cases verify <;> rfl

/-- One candidate is checked. -/
theorem ask {token : String} {tokens : List String} {asked : List Key} {store store' : σ}
    {answer : Except Error Bool} (h : lookup ⟨kind, token⟩ store = (answer, store')) :
    Spends lookup true kind [token] [answer] ⟨token :: tokens, asked, store⟩
      ⟨tokens, asked ++ [⟨kind, token⟩], store'⟩ := by
  refine ⟨rfl, rfl, ?_⟩
  simp [keysAsked, KeyLookup.answers, h]

end KeySupply.Spends

/-! ## Draws -/

/-- Candidates that are taken, and the one that is tried after them. -/
structure Draw where
  taken : List String
  token : String

namespace Draw

/-- The candidates in the order in which they are tried. -/
def candidates (d : Draw) : List String := d.taken ++ [d.token]

/-- The answers to them, when `last` is the answer to the last one. -/
def answers (d : Draw) (last : Except Error Bool) : List (Except Error Bool) :=
  d.taken.map (fun _ => .ok true) ++ [last]

end Draw

/-- **What a draw comes to**, with the candidates that are tried and the
answers to them. The first candidate that is not taken is drawn. Candidates
that are not checked count as not taken. -/
inductive Drawn (verify : Bool) :
    Except Stop String → List String → List (Except Error Bool) → Prop
  | accepted {d : Draw} : (verify = false → d.taken = []) →
      Drawn verify (.ok d.token) d.candidates (d.answers (.ok false))
  /-- The store cannot answer. -/
  | failed {d : Draw} {e : Error} : verify = true →
      Drawn verify (.error (.failed e)) d.candidates (d.answers (.error e))
  /-- All that are left are taken. -/
  | exhausted (taken : List String) : (verify = false → taken = []) →
      Drawn verify (.error .outOfTokens) taken (taken.map fun _ => .ok true)

/-- One more candidate may have been taken before. -/
theorem Drawn.cons {r : Except Stop String} {candidates : List String}
    {answers : List (Except Error Bool)} (h : Drawn true r candidates answers) (token : String) :
    Drawn true r (token :: candidates) (.ok true :: answers) := by
  cases h with
  | @accepted d _ => exact .accepted (d := ⟨token :: d.taken, d.token⟩) nofun
  | @failed d _ _ => exact .failed (d := ⟨token :: d.taken, d.token⟩) rfl
  | exhausted _ _ => exact .exhausted (token :: candidates) nofun

/-- **A key is drawn** in one of these ways. -/
theorem takeToken_drawn {lookup : KeyLookup σ} {verify : Bool} {kind : String}
    {tokens : List String} {asked : List Key} {store : σ} {r : Except Stop String}
    {supply : KeySupply σ} (h : takeToken lookup verify kind tokens asked store = (r, supply)) :
    ∃ candidates answers, Drawn verify r candidates answers ∧
      KeySupply.Spends lookup verify kind candidates answers ⟨tokens, asked, store⟩ supply := by
  induction tokens generalizing asked store with
  | nil =>
    cases h
    exact ⟨[], [], .exhausted [] fun _ => rfl, .refl _⟩
  | cons token tokens ih =>
    rw [takeToken] at h
    cases verify with
    | false =>
      cases h
      exact ⟨_, _, .accepted (d := ⟨[], token⟩) fun _ => rfl, rfl, (List.append_nil _).symm, rfl⟩
    | true =>
      rw [if_pos rfl] at h
      rcases hlookup : lookup ⟨kind, token⟩ store with ⟨answer, store'⟩
      rw [hlookup] at h
      match answer with
      | .error e =>
        cases h
        exact ⟨_, _, .failed (d := ⟨[], token⟩) rfl, .ask hlookup⟩
      | .ok false =>
        cases h
        exact ⟨_, _, .accepted (d := ⟨[], token⟩) nofun, .ask hlookup⟩
      | .ok true =>
        obtain ⟨candidates, answers, hdrawn, hspends⟩ := ih h
        exact ⟨_, _, hdrawn.cons token, (KeySupply.Spends.ask hlookup).append hspends⟩

/-! ## One element -/

/-- **What becomes of one element.** With a key it is encoded as it is. Without
one it draws a key, which has to find its place in the record, and is then
loaded from the record with the key in it. -/
inductive Model.Keys (m : Model α) (lookup : KeyLookup σ) (verify : Bool) (index : Nat) (a : α)
    (supply : KeySupply σ) : Keyed Entity α σ → Prop
  | kept : lacksKey index (m.toRecord a) = false →
      Keys m lookup verify index a supply ⟨(m.encode a).mapError .failed, a, supply⟩
  | undrawn {stop : Stop} {candidates : List String} {answers : List (Except Error Bool)}
      {supply' : KeySupply σ} :
      lacksKey index (m.toRecord a) = true → Drawn verify (.error stop) candidates answers →
      supply.Spends lookup verify m.schema.name candidates answers supply' →
      Keys m lookup verify index a supply ⟨.error stop, a, supply'⟩
  | unplaced {d : Draw} {supply' : KeySupply σ} :
      lacksKey index (m.toRecord a) = true → (verify = false → d.taken = []) →
      supply.Spends lookup verify m.schema.name d.candidates (d.answers (.ok false)) supply' →
      (m.toRecord a).get? index = none →
      Keys m lookup verify index a supply
        ⟨.error (.failed (.of (.invalidSchema (.noKeySlot m.schema.name)))), a, supply'⟩
  | unloaded {d : Draw} {supply' : KeySupply σ} {r : Record} {e : Error} :
      lacksKey index (m.toRecord a) = true → (verify = false → d.taken = []) →
      supply.Spends lookup verify m.schema.name d.candidates (d.answers (.ok false)) supply' →
      (m.toRecord a).put? index (.text d.token) = some r → m.load r = .error e →
      Keys m lookup verify index a supply ⟨.error (.failed e), a, supply'⟩
  | given {d : Draw} {supply' : KeySupply σ} {r : Record} {b : α} :
      lacksKey index (m.toRecord a) = true → (verify = false → d.taken = []) →
      supply.Spends lookup verify m.schema.name d.candidates (d.answers (.ok false)) supply' →
      (m.toRecord a).put? index (.text d.token) = some r → m.load r = .ok b →
      Keys m lookup verify index a supply
        ⟨(m.schema.encode m.catalog r).mapError .failed, b, supply'⟩

theorem Record.put?_eq_none_iff {r : Record} {i : Nat} {v : Value} :
    r.put? i v = none ↔ r.get? i = none := by
  unfold put? get?
  split
  next h => simp [List.getElem?_eq_getElem h]
  next h => simpa using h

/-- **Encoding one element** does one of these. -/
theorem encodeKeyed_keys (m : Model α) (lookup : KeyLookup σ) (verify : Bool) (index : Nat) (a : α)
    (supply : KeySupply σ) :
    m.Keys lookup verify index a supply (encodeKeyed m lookup verify index a supply) := by
  unfold encodeKeyed
  dsimp only
  cases hlacks : lacksKey index (m.toRecord a) with
  | false => exact .kept hlacks
  | true =>
    rw [if_pos rfl]
    rcases htake : takeToken lookup verify m.schema.name supply.tokens supply.asked supply.store
      with ⟨r, supply'⟩
    obtain ⟨candidates, answers, hdrawn, hspends⟩ := takeToken_drawn htake
    cases hdrawn with
    | failed hverify => exact .undrawn hlacks (.failed hverify) hspends
    | exhausted _ htaken => exact .undrawn hlacks (.exhausted _ htaken) hspends
    | @accepted d htaken =>
      dsimp only
      cases hput : (m.toRecord a).put? index (.text d.token) with
      | none => exact .unplaced hlacks htaken hspends (Record.put?_eq_none_iff.1 hput)
      | some r =>
        dsimp only
        cases hload : m.load r with
        | error e => exact .unloaded hlacks htaken hspends hput hload
        | ok b => exact .given hlacks htaken hspends hput hload

end KindQuery
