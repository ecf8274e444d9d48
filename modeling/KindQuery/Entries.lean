/-!
# Entries

A dictionary from names to values that remembers the order in which its
names were first inserted. Properties of an entity and entries of a map
value are kept this way. Inserting under a name that is already there
replaces the value and leaves the name in its place.
-/

namespace KindQuery

/-- Named values in the order of their insertion. -/
abbrev Entries (α : Type u) := List (String × α)

namespace Entries

variable {α : Type u}

/-- The value under a name. -/
def find? (name : String) : Entries α → Option α
  | [] => none
  | (n, a) :: rest => if n = name then some a else find? name rest

/-- Puts a value under a name: in place of the value that is there, or at
the end. -/
def insert (name : String) (a : α) : Entries α → Entries α
  | [] => [(name, a)]
  | (n, b) :: rest => if n = name then (n, a) :: rest else (n, b) :: insert name a rest

/-- The names in order. -/
def names (es : Entries α) : List String := es.map Prod.fst

/-- The dictionary that arises when pairs are inserted one by one. -/
def ofPairs (pairs : List (String × α)) : Entries α :=
  pairs.foldl (fun es (n, a) => insert n a es) []

@[simp] theorem find?_nil (name : String) : find? name ([] : Entries α) = none := rfl

theorem find?_insert (name other : String) (a : α) (es : Entries α) :
    find? other (insert name a es) = if name = other then some a else find? other es := by
  induction es with
  | nil => simp [insert, find?]
  | cons e rest ih =>
    obtain ⟨n, b⟩ := e
    by_cases h : n = name
    · subst h
      by_cases hn : n = other <;> simp [insert, find?, hn]
    · by_cases hn : n = other
      · subst hn; simp [insert, find?, h, Ne.symm h]
      · simp [insert, find?, h, hn, ih]

theorem names_insert_of_mem {name : String} {es : Entries α} (a : α) (h : name ∈ es.names) :
    (insert name a es).names = es.names := by
  induction es with
  | nil => simp [names] at h
  | cons e rest ih =>
    obtain ⟨n, b⟩ := e
    by_cases hn : n = name
    · simp [insert, names, hn]
    · have hr : name ∈ names rest := by
        simpa [names, Ne.symm hn] using h
      simpa [insert, names, hn] using ih hr

theorem insert_of_not_mem {name : String} {es : Entries α} (a : α) (h : name ∉ es.names) :
    insert name a es = es ++ [(name, a)] := by
  induction es with
  | nil => rfl
  | cons e rest ih =>
    obtain ⟨n, b⟩ := e
    simp only [names, List.map_cons, List.mem_cons, not_or] at h
    simp [insert, Ne.symm h.1, ih h.2]

theorem nodup_names_insert {name : String} {a : α} {es : Entries α} (h : es.names.Nodup) :
    (insert name a es).names.Nodup := by
  by_cases hmem : name ∈ es.names
  · rw [names_insert_of_mem a hmem]
    exact h
  · rw [insert_of_not_mem a hmem, names, List.map_append]
    refine List.nodup_append.2 ⟨h, by simp, fun n hn m hm heq => hmem ?_⟩
    have hm' : m = name := List.mem_singleton.1 hm
    rwa [← hm', ← heq]

/-- What is in a dictionary after an insertion was there or is new. -/
theorem mem_insert {name : String} {a : α} {es : Entries α} {e : String × α}
    (h : e ∈ insert name a es) : e ∈ es ∨ e = (name, a) := by
  induction es with
  | nil => exact .inr (List.mem_singleton.1 h)
  | cons e' rest ih =>
    obtain ⟨n, b⟩ := e'
    by_cases hn : n = name
    · rw [insert, if_pos hn] at h
      rcases List.mem_cons.1 h with he | he
      · exact .inr (by rw [he, hn])
      · exact .inl (List.mem_cons_of_mem _ he)
    · rw [insert, if_neg hn] at h
      rcases List.mem_cons.1 h with he | he
      · exact .inl (by rw [he]; exact List.mem_cons_self)
      · exact (ih he).imp_left (List.mem_cons_of_mem _)

/-- Where names are distinct, a value is found under its name. -/
theorem find?_of_mem {es : Entries α} (h : es.names.Nodup) {e : String × α} (he : e ∈ es) :
    es.find? e.1 = some e.2 := by
  induction es with
  | nil => cases he
  | cons e' es ih =>
    obtain ⟨n, b⟩ := e'
    simp only [names, List.map_cons, List.nodup_cons] at h
    rcases List.mem_cons.1 he with rfl | he
    · simp [find?]
    · have hn : n ≠ e.1 := fun hn => h.1 (hn ▸ List.mem_map_of_mem he)
      simpa [find?, hn] using ih h.2 he

/-- Nothing is in a dictionary that is not among its pairs. -/
theorem mem_ofPairs {pairs : List (String × α)} {e : String × α}
    (h : e ∈ ofPairs pairs) : e ∈ pairs := by
  have hfold : ∀ (pairs : List (String × α)) (es : Entries α),
      e ∈ pairs.foldl (fun es (n, a) => insert n a es) es → e ∈ es ∨ e ∈ pairs := by
    intro pairs
    induction pairs with
    | nil => exact fun es he => .inl he
    | cons p pairs ih =>
      intro es he
      rcases ih _ he with he | he
      · rcases mem_insert he with he | rfl
        · exact .inl he
        · exact .inr List.mem_cons_self
      · exact .inr (List.mem_cons_of_mem _ he)
  rcases hfold pairs [] h with he | he
  · cases he
  · exact he

/-- Pairs under distinct names are kept as they are. -/
theorem ofPairs_of_nodup {pairs : List (String × α)} (h : (pairs.map Prod.fst).Nodup) :
    ofPairs pairs = pairs := by
  have hfold : ∀ (es ps : Entries α), ((es ++ ps).map Prod.fst).Nodup →
      ps.foldl (fun es (n, a) => insert n a es) es = es ++ ps := by
    intro es ps
    induction ps generalizing es with
    | nil => simp
    | cons p ps ih =>
      intro h
      obtain ⟨n, a⟩ := p
      have hn : n ∉ es.names := by
        rw [List.map_append, List.nodup_append] at h
        exact fun hn => h.2.2 n hn n (by simp) rfl
      rw [List.foldl_cons]
      simp only [insert_of_not_mem a hn]
      rw [ih (es ++ [(n, a)]) (by simpa using h), List.append_assoc]
      rfl
  exact hfold [] pairs h

end Entries

end KindQuery
