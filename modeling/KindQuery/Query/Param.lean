import KindQuery.Value.Text
/-!
# Parameters

The constants of a query travel as named parameters. Those of conditions
are numbered in the order in which they are bound; limit and offset have
names of their own.
-/

namespace KindQuery

/-- A named parameter and the value bound to it. -/
structure Param where
  name : String
  value : Value

namespace Param

/-- The name under which a limit is bound. -/
def takeName : String := "qlim"

/-- The name under which an offset is bound. -/
def skipName : String := "qoffset"

/-- The name of the parameter that is bound as number `n`. -/
def numberedName (n : Nat) : String := "p" ++ toString n

/-- The value of the first parameter of a name. -/
def find? (name : String) (params : List Param) : Option Value :=
  (params.find? fun p => p.name == name).map Param.value

/-- Is the name that of a limit or an offset? -/
def isReserved (p : Param) : Bool := p.name == takeName || p.name == skipName

theorem numberedName_inj {m n : Nat} : numberedName m = numberedName n ↔ m = n := by
  constructor
  · intro h
    have hr : m.repr = n.repr := by simpa [numberedName] using h
    have hd : Nat.toDigits 10 m = Nat.toDigits 10 n := by
      rw [← Nat.toList_repr, hr, Nat.toList_repr]
    rw [← Nat.ofDigitChars_toDigits (b := 10) (n := m) (by decide) (by decide), hd,
      Nat.ofDigitChars_toDigits (by decide) (by decide)]
  · exact congrArg numberedName

theorem numberedName_ne_takeName {n : Nat} : numberedName n ≠ takeName := by
  intro h
  have := congrArg String.toList h
  simp [numberedName, takeName] at this

theorem numberedName_ne_skipName {n : Nat} : numberedName n ≠ skipName := by
  intro h
  have := congrArg String.toList h
  simp [numberedName, skipName] at this

@[simp] theorem isReserved_numberedName {n : Nat} {v : Value} :
    isReserved ⟨numberedName n, v⟩ = false := by
  simp [isReserved, numberedName_ne_takeName, numberedName_ne_skipName]

/-- Where names are distinct, a parameter is found under its name. -/
theorem find?_of_mem {params : List Param} (h : (params.map name).Nodup) {p : Param}
    (hp : p ∈ params) : find? p.name params = some p.value := by
  induction params with
  | nil => cases hp
  | cons q params ih =>
    rw [List.map_cons, List.nodup_cons] at h
    rcases List.mem_cons.1 hp with rfl | hp
    · simp [find?]
    · have hq : (q.name == p.name) = false :=
        beq_eq_false_iff_ne.2 fun hq => h.1 (hq ▸ List.mem_map_of_mem hp)
      simpa [find?, hq] using ih h.2 hp

end Param

end KindQuery
