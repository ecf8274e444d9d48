import KindQuery.Codec.Keyed
import KindQuery.Entity
/-!
# Transports

How requests reach a store. What the store answers may depend on what it
has been asked before, so a transport carries a state along.

A *script* is a transport that answers from a list of responses prepared
beforehand and notes every request it gets.
-/

namespace KindQuery

/-- How requests reach a store with states `τ`. -/
structure Transport (τ : Type) where
  /-- Sends a query; the rows are returned. -/
  run : BoundQuery → τ → Except Error (List Entity) × τ
  /-- Asks whether a key is taken. -/
  lookup : KeyLookup τ

/-- A request that a store gets. -/
inductive Request where
  | run (query : BoundQuery)
  | lookup (key : Key)

/-- Prepared answers, and the requests that have been made. -/
structure Script where
  /-- The answers to the next queries. When they are used up, queries
  return no rows. -/
  responses : List (Except Error (List Entity))
  /-- The names of keys that are taken. -/
  taken : List String
  /-- The requests so far, in order. -/
  requests : List Request

namespace Script

/-- The answer to the next query. -/
def nextResponse (s : Script) : Except Error (List Entity) := s.responses.headD (.ok [])

/-- Answers a query with the next response. -/
def run (q : BoundQuery) (s : Script) : Except Error (List Entity) × Script :=
  (s.nextResponse,
    { s with responses := s.responses.tail, requests := s.requests ++ [.run q] })

/-- A key is taken if its name is. -/
def lookup : KeyLookup Script := fun k s =>
  (.ok (s.taken.contains k.name), { s with requests := s.requests ++ [.lookup k] })

/-- A script as a transport. -/
def transport : Transport Script := ⟨run, lookup⟩

end Script

end KindQuery
