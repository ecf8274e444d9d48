import KindQuery.Model
/-!
# Encoding with keys

Elements are encoded one after the other, and each whose key is blank is
given a new one first. New keys come from a supply of candidates. They
may be checked against the store: a candidate that is taken is thrown
away and the next one tried.

An element is changed only by the new key, and only once it is known that
the element with that key can be loaded. When something fails, the
elements before are as a successful run leaves them, and those after are
as they were.
-/

namespace KindQuery

/-- Answers whether a key is taken in the store. The answer may depend on
what has been asked before, and asking may fail. -/
abbrev KeyLookup (σ : Type) := Key → σ → Except Error Bool × σ

/-- Where new keys come from, and what became of them so far. -/
structure KeySupply (σ : Type) where
  /-- The candidates that are left. -/
  tokens : List String
  /-- The keys that have been asked for, in order. -/
  asked : List Key
  /-- The store that answers. -/
  store : σ

/-- Why encoding ends before the last element. -/
inductive Stop where
  | failed (e : Error)
  /-- All candidates are used up. -/
  | outOfTokens

variable {α σ : Type}

/-- The first candidate that is not taken; without `verify`, the first
one. -/
def takeToken (lookup : KeyLookup σ) (verify : Bool) (kind : String) :
    (tokens : List String) → (asked : List Key) → (store : σ) → Except Stop String × KeySupply σ
  | [], asked, store => (.error .outOfTokens, ⟨[], asked, store⟩)
  | t :: tokens, asked, store =>
    if verify then
      match lookup ⟨kind, t⟩ store with
      | (.error e, store) => (.error (.failed e), ⟨tokens, asked ++ [⟨kind, t⟩], store⟩)
      | (.ok true, store) => takeToken lookup verify kind tokens (asked ++ [⟨kind, t⟩]) store
      | (.ok false, store) => (.ok t, ⟨tokens, asked ++ [⟨kind, t⟩], store⟩)
    else (.ok t, ⟨tokens, asked, store⟩)

/-- Is there no key at the place of a record? -/
def lacksKey (index : Nat) (r : Record) : Bool :=
  match r.get? index with
  | some v => v.isBlank
  | none => true

/-- What became of a step: its result, the element as it is now, and what
is left of the supply. -/
structure Keyed (β α σ : Type) where
  result : Except Stop β
  element : α
  supply : KeySupply σ

/-- Encodes one element, after giving it a key if it lacks one. -/
def encodeKeyed (m : Model α) (lookup : KeyLookup σ) (verify : Bool) (index : Nat) (a : α)
    (supply : KeySupply σ) : Keyed Entity α σ :=
  let r := m.toRecord a
  let encode := fun r => (m.schema.encode m.catalog r).mapError Stop.failed
  if lacksKey index r then
    match takeToken lookup verify m.schema.name supply.tokens supply.asked supply.store with
    | (.error stop, supply) => ⟨.error stop, a, supply⟩
    | (.ok token, supply) =>
      match r.put? index (.text token) with
      | none => ⟨.error (.failed (.of (.invalidSchema (.noKeySlot m.schema.name)))), a, supply⟩
      | some r =>
        match m.load r with
        | .error e => ⟨.error (.failed e), a, supply⟩
        | .ok b => ⟨encode r, b, supply⟩
  else ⟨encode r, a, supply⟩

/-- Encodes elements in order, up to the first failure. -/
def encodeAllKeyed (m : Model α) (lookup : KeyLookup σ) (verify : Bool) (index : Nat) :
    List α → KeySupply σ → Keyed (List Entity) (List α) σ
  | [], supply => ⟨.ok [], [], supply⟩
  | a :: as, supply =>
    let here := encodeKeyed m lookup verify index a supply
    match here.result with
    | .error stop => ⟨.error stop, here.element :: as, here.supply⟩
    | .ok e =>
      let rest := encodeAllKeyed m lookup verify index as here.supply
      ⟨rest.result.map (e :: ·), here.element :: rest.element, rest.supply⟩

/-- Encodes the elements of a model, giving keys to those that lack one.
The schema must have a key field that holds text. -/
def Model.encodeWithKeys (m : Model α) (lookup : KeyLookup σ) (verify : Bool) (as : List α)
    (supply : KeySupply σ) : Keyed (List Entity) (List α) σ :=
  match m.schema.requireKey with
  | .error e => ⟨.error (.failed e), as, supply⟩
  | .ok (index, _) => encodeAllKeyed m lookup verify index as supply

end KindQuery
