import KindQuery.Proofs.Query.Reordered
/-!
# Reading a query back

The text of a query is a list of columns, the kind, and words with a space
before each of them. Column names that are words themselves can be read back
from it: two translations to one text, over one kind, project the same
columns, compare the same columns in the same order, and are ordered alike
(`read_back`). Names with blanks or commas in them cannot, since nothing
marks where a name ends.
-/

namespace KindQuery

/-! ## Words -/

/-- A name that shows where it ends. -/
structure IsWord (name : String) : Prop where
  ne_empty : name ≠ ""
  notBlank : ∀ c ∈ name.toList, isBlankChar c = false

instance (name : String) : Decidable (IsWord name) :=
  decidable_of_iff (name ≠ "" ∧ name.toList.any isBlankChar = false)
    ⟨fun h => ⟨h.1, fun c hc => Bool.eq_false_iff.2 (List.any_eq_false.1 h.2 c hc)⟩,
      fun h => ⟨h.ne_empty, List.any_eq_false.2 fun c hc => by simp [h.notBlank c hc]⟩⟩

/-- A name that can stand in a list of columns: not the sign for all of them,
and without a comma. -/
structure IsColumnWord (name : String) : Prop extends IsWord name where
  ne_all : name ≠ "*"
  noComma : ',' ∉ name.toList

instance (name : String) : Decidable (IsColumnWord name) :=
  decidable_of_iff (IsWord name ∧ name ≠ "*" ∧ ',' ∉ name.toList)
    ⟨fun h => ⟨h.1, h.2.1, h.2.2⟩, fun h => ⟨h.toIsWord, h.ne_all, h.noComma⟩⟩

/-- Words with a space before each of them. -/
def spaced (words : List String) : List Char := words.flatMap fun w => ' ' :: w.toList

/-- Names with a comma and a space between them. -/
def listed : List String → List Char
  | [] => []
  | [name] => name.toList
  | name :: names => name.toList ++ ',' :: ' ' :: listed names

section Reading

/-- Two lists that start with some elements of a kind, as long as there are any,
start with the same ones. -/
theorem span_inj {α : Type} {p : α → Bool} {x y r r' : List α} (hx : ∀ c ∈ x, p c = true)
    (hy : ∀ c ∈ y, p c = true) (hr : ∀ c ∈ r.head?, p c = false)
    (hr' : ∀ c ∈ r'.head?, p c = false) (same : x ++ r = y ++ r') : x = y ∧ r = r' := by
  have stop : ∀ {r : List α}, (∀ c ∈ r.head?, p c = false) → r.takeWhile p = [] := by
    intro r hr
    cases r with
    | nil => rfl
    | cons c r => rw [List.takeWhile_cons, hr c rfl]; rfl
  have start : x = y := by
    have taken := congrArg (List.takeWhile p) same
    rwa [List.takeWhile_append_of_pos hx, List.takeWhile_append_of_pos hy, stop hr, stop hr',
      List.append_nil, List.append_nil] at taken
  subst start
  exact ⟨rfl, List.append_cancel_left same⟩

theorem IsWord.not_mem_space {name : String} (h : IsWord name) : ' ' ∉ name.toList :=
  fun member => Bool.false_ne_true ((h.notBlank ' ' member).symm.trans (by decide))

/-- **Words can be told apart** by the spaces before them. -/
theorem spaced_inj {ws vs : List String} (hws : ∀ w ∈ ws, IsWord w) (hvs : ∀ v ∈ vs, IsWord v)
    (same : spaced ws = spaced vs) : ws = vs := by
  have letters : ∀ {w : String}, IsWord w → ∀ c ∈ w.toList, (c != ' ') = true := by
    intro w hw c hc
    exact bne_iff_ne.2 fun space => hw.not_mem_space (space ▸ hc)
  have stops : ∀ ws : List String, ∀ c ∈ (spaced ws).head?, (c != ' ') = false := by
    intro ws c hc
    cases ws with
    | nil => cases hc
    | cons w ws =>
      cases hc
      rfl
  induction ws generalizing vs with
  | nil =>
    cases vs with
    | nil => rfl
    | cons v vs => cases same
  | cons w ws ih =>
    cases vs with
    | nil => cases same
    | cons v vs =>
      rw [List.forall_mem_cons] at hws hvs
      have tails : w.toList ++ spaced ws = v.toList ++ spaced vs := (List.cons.inj same).2
      obtain ⟨first, rest⟩ :=
        span_inj (letters hws.1) (letters hvs.1) (stops ws) (stops vs) tails
      rw [String.toList_inj.1 first, ih hws.2 hvs.2 rest]

/-- **And so can listed names**, up to the space after the last of them. -/
theorem listed_inj {names names' : List String} {r r' : List Char}
    (hn : ∀ n ∈ names, ' ' ∉ n.toList ∧ ',' ∉ n.toList)
    (hn' : ∀ n ∈ names', ' ' ∉ n.toList ∧ ',' ∉ n.toList) (some : names ≠ []) (some' : names' ≠ [])
    (same : listed names ++ ' ' :: r = listed names' ++ ' ' :: r') : names = names' ∧ r = r' := by
  have letters : ∀ {n : String}, ' ' ∉ n.toList ∧ ',' ∉ n.toList →
      ∀ c ∈ n.toList, (c != ' ' && c != ',') = true := by
    intro n hn c hc
    rw [Bool.and_eq_true, bne_iff_ne, bne_iff_ne]
    exact ⟨fun space => hn.1 (space ▸ hc), fun comma => hn.2 (comma ▸ hc)⟩
  -- A name ends before a space or a comma; which one it is tells if it is the last.
  have split : ∀ {n m : String} {x y : List Char} {c d : Char},
      ' ' ∉ n.toList ∧ ',' ∉ n.toList → ' ' ∉ m.toList ∧ ',' ∉ m.toList →
      (c != ' ' && c != ',') = false → (d != ' ' && d != ',') = false →
      n.toList ++ c :: x = m.toList ++ d :: y → n = m ∧ c = d ∧ x = y := by
    intro n m x y c d hn hm hc hd same
    obtain ⟨name, rest⟩ := span_inj (letters hn) (letters hm)
      (by simpa using hc) (by simpa using hd) same
    exact ⟨String.toList_inj.1 name, List.cons.inj rest⟩
  induction names generalizing names' with
  | nil => exact absurd rfl some
  | cons n names ih =>
    rw [List.forall_mem_cons] at hn
    match names, names', some' with
    | [], m :: [], _ =>
      rw [List.forall_mem_cons] at hn'
      obtain ⟨rfl, -, rest⟩ := split hn.1 hn'.1 rfl rfl same
      exact ⟨rfl, rest⟩
    | [], m :: m' :: ms, _ =>
      rw [List.forall_mem_cons] at hn'
      simp only [listed, List.append_assoc, List.cons_append] at same
      obtain ⟨-, comma, -⟩ := split hn.1 hn'.1 rfl rfl same
      cases comma
    | n' :: ns, m :: [], _ =>
      rw [List.forall_mem_cons] at hn'
      simp only [listed, List.append_assoc, List.cons_append] at same
      obtain ⟨-, comma, -⟩ := split hn.1 hn'.1 rfl rfl same
      cases comma
    | n' :: ns, m :: m' :: ms, _ =>
      rw [List.forall_mem_cons] at hn'
      simp only [listed, List.append_assoc, List.cons_append] at same
      obtain ⟨rfl, -, rest⟩ := split hn.1 hn'.1 rfl rfl same
      obtain ⟨names, rest⟩ := ih hn.2 hn'.2 (List.cons_ne_nil _ _) (List.cons_ne_nil _ _)
        (List.cons.inj rest).2
      exact ⟨congrArg (n :: ·) names, rest⟩

end Reading

/-! ## Blanks at the end -/

/-- The characters left when white space is dropped from the end. -/
def trimEnd (cs : List Char) : List Char := (cs.reverse.dropWhile isBlankChar).reverse

section TrimEnd

variable {cs rest : List Char} {c : Char}

/-- Nothing is dropped before a character that is not blank. -/
theorem trimEnd_append (solid : isBlankChar c = false) :
    trimEnd (cs ++ c :: rest) = cs ++ c :: trimEnd rest := by
  have reversed : (cs ++ c :: rest).reverse = rest.reverse ++ (c :: cs.reverse) := by
    simp [List.reverse_append]
  have stays : (c :: cs.reverse).dropWhile isBlankChar = c :: cs.reverse := by
    rw [List.dropWhile_cons, solid]
    rfl
  rw [trimEnd, trimEnd, reversed, List.dropWhile_append, stays]
  split
  next gone =>
    rw [List.isEmpty_iff.1 gone]
    simp
  next => simp

theorem trimEnd_of_getLast (solid : ∀ c ∈ cs.getLast?, isBlankChar c = false) :
    trimEnd cs = cs := by
  rcases List.eq_nil_or_concat cs with rfl | ⟨before, c, rfl⟩
  · rfl
  · have last : isBlankChar c = false := solid c (by simp)
    rw [List.concat_eq_append, trimEnd_append last]
    rfl

theorem length_trimEnd_le (cs : List Char) : (trimEnd cs).length ≤ cs.length := by
  have dropped := List.length_dropWhile_le isBlankChar cs.reverse
  rw [List.length_reverse] at dropped
  rwa [trimEnd, List.length_reverse]

/-- Words do not end in a blank. -/
theorem getLast_spaced {ws : List String} (hws : ∀ w ∈ ws, IsWord w) :
    ∀ c ∈ (spaced ws).getLast?, isBlankChar c = false := by
  intro c hc
  rcases List.eq_nil_or_concat ws with rfl | ⟨before, w, rfl⟩
  · cases hc
  · have hw : IsWord w := hws w (by simp)
    obtain ⟨letters, last, letters_eq⟩ : ∃ letters last, w.toList = letters ++ [last] := by
      rcases List.eq_nil_or_concat w.toList with none | ⟨letters, last, some⟩
      · exact absurd (String.toList_eq_nil_iff.1 none) hw.ne_empty
      · exact ⟨letters, last, by rw [some, List.concat_eq_append]⟩
    have ends : spaced (before.concat w) = (spaced before ++ ' ' :: letters) ++ [last] := by
      simp only [spaced, List.concat_eq_append, List.flatMap_append, List.flatMap_singleton,
        letters_eq, List.append_assoc, List.cons_append]
    rw [ends, List.getLast?_concat] at hc
    cases hc
    exact hw.notBlank c (by simp [letters_eq])

/-- Words behind a text that may end in blanks are told by what is left of
both. -/
theorem trimEnd_spaced_inj {ws vs : List String} (hws : ∀ w ∈ ws, IsWord w)
    (hvs : ∀ v ∈ vs, IsWord v) (same : trimEnd (cs ++ spaced ws) = trimEnd (cs ++ spaced vs)) :
    ws = vs := by
  have solid : ∀ {ws : List String}, ws ≠ [] → (∀ w ∈ ws, IsWord w) →
      trimEnd (cs ++ spaced ws) = cs ++ spaced ws := by
    intro ws some hws
    refine trimEnd_of_getLast fun c hc => getLast_spaced hws c ?_
    have spelled : spaced ws ≠ [] := by
      cases ws with
      | nil => exact absurd rfl some
      | cons w ws => exact List.cons_ne_nil _ _
    rwa [List.getLast?_append_of_ne_nil _ spelled] at hc
  -- A text with words behind it is longer than what is left of it alone.
  have longer : ∀ {ws : List String}, ws ≠ [] → (∀ w ∈ ws, IsWord w) →
      trimEnd cs ≠ trimEnd (cs ++ spaced ws) := by
    intro ws some hws same
    rw [solid some hws] at same
    have short := length_trimEnd_le cs
    rw [same, List.length_append] at short
    cases ws with
    | nil => exact some rfl
    | cons w ws =>
      rw [spaced, List.flatMap_cons, List.length_append, List.length_cons] at short
      omega
  cases ws with
  | nil =>
    cases vs with
    | nil => rfl
    | cons v vs => exact absurd (by simpa [spaced] using same) (longer (List.cons_ne_nil v vs) hvs)
  | cons w ws =>
    cases vs with
    | nil =>
      exact absurd (by simpa [spaced] using same.symm) (longer (List.cons_ne_nil w ws) hws)
    | cons v vs =>
      rw [solid (List.cons_ne_nil w ws) hws, solid (List.cons_ne_nil v vs) hvs] at same
      exact spaced_inj hws hvs (List.append_cancel_left same)

end TrimEnd

/-! ## The words of a query -/

/-- What a condition is compared with, as a word. -/
def Fragment.operandWord : Fragment → String
  | .param name => "@" ++ name
  | .constant text => text
  | _ => ""

/-- The words of a written condition. -/
def Written.words (w : Written) : List String := [w.column, w.op.symbol, w.operand.operandWord]

/-- The words of conditions, with a keyword before each of them. -/
def conditionWords : (keyword : String) → List Written → List String
  | _, [] => []
  | keyword, w :: ws => keyword :: w.words ++ conditionWords "AND" ws

namespace Ledger

/-- The words of the ordering. -/
def orderWords (l : Ledger) : List String :=
  match l.order with
  | some (dir, column) => ["ORDER", "BY", column, dir.symbol]
  | none => []

/-- The words of a limit or an offset. -/
def pageWords (l : Ledger) (keyword : String) (pg : Paging) : List String :=
  if (l.count pg).isSome then [keyword, "@" ++ pg.paramName] else []

/-- The words behind the kind. -/
def words (l : Ledger) : List String :=
  conditionWords "WHERE" (Condition.written 0 l.conditions) ++ l.orderWords ++
    l.pageWords "LIMIT" .take ++ l.pageWords "OFFSET" .skip

end Ledger

theorem spaced_append (ws vs : List String) : spaced (ws ++ vs) = spaced ws ++ spaced vs :=
  List.flatMap_append

/-- The space behind a keyword is the one before the next word. -/
theorem spaced_keyword {keyword text : String} {ws : List String} {rest : List Char}
    (h : ' ' :: text.toList = spaced ws ++ rest) :
    (" " ++ keyword ++ " " ++ text).toList = spaced (keyword :: ws) ++ rest := by
  simp only [String.toList_append, spaced, List.flatMap_cons, List.append_assoc,
    List.cons_append] at h ⊢
  rw [← h]
  rfl

theorem requireText_eq_ok {fragment text written : String} :
    requireText fragment text = .ok written ↔ text ≠ "" ∧ written = text := by
  unfold requireText
  cases empty : text.isEmpty with
  | true => simp [String.isEmpty_iff.1 empty]
  | false =>
    have some : text ≠ "" := fun h => by simp [h] at empty
    simp [some, eq_comm]

namespace Condition

theorem map_column_written {n : Nat} {ks : List Condition} :
    (written n ks).map Written.column = ks.map Condition.column := by
  induction ks generalizing n with
  | nil => rfl
  | cons k ks ih => rw [written, List.map_cons, List.map_cons, ih]

/-- The condition as it is written with parameter number `n`. -/
def asWritten (k : Condition) (n : Nat) : Written :=
  ⟨k.column, k.op, if k.bindsParam then .param (Param.numberedName n) else .constant "NULL"⟩

/-- The word of an operand is what is written for it. -/
theorem inPlace_operand {k : Condition} {n : Nat} {text : String}
    (h : (k.asWritten n).operand.inPlace .named = .ok text) :
    text = (k.asWritten n).operand.operandWord := by
  unfold asWritten at h ⊢
  cases hb : k.bindsParam with
  | true =>
    rw [hb] at h
    obtain ⟨name, hname, h⟩ := bind_eq_ok.1 h
    obtain ⟨-, rfl⟩ := requireText_eq_ok.1 hname
    exact (Except.ok.inj h).symm
  | false =>
    rw [hb] at h
    exact (requireText_eq_ok.1 h).2

/-- A condition is written as its words, but for the space before the first
of them. -/
theorem pieces_fragments {k : Condition} {n : Nat} {rest : List Fragment} {text : String}
    (h : Fragment.Pieces .named (k.fragments n ++ rest) text) :
    ∃ text', Fragment.Pieces .named rest text' ∧
      ' ' :: text.toList = spaced (k.asWritten n).words ++ text'.toList := by
  obtain ⟨column, text₁, hcolumn, h₁, rfl⟩ := Fragment.pieces_cons_iff.1 h
  obtain ⟨symbol, text₂, hsymbol, h₂, rfl⟩ := Fragment.pieces_cons_iff.1 h₁
  obtain ⟨operand, text', hoperand, h', rfl⟩ := Fragment.pieces_cons_iff.1 h₂
  obtain ⟨-, rfl⟩ := requireText_eq_ok.1 hcolumn
  obtain rfl := Except.ok.inj hsymbol
  obtain rfl := inPlace_operand hoperand
  refine ⟨text', h', ?_⟩
  simp [Written.words, spaced, asWritten]

/-- **Conditions are written as their words**, with what joins them. -/
theorem pieces_clause {n : Nat} {k : Condition} {ks : List Condition} {join : Fragment}
    {keyword text : String} (hjoin : join.inPlace .named = .ok (" " ++ keyword ++ " "))
    (h : Fragment.Pieces .named (join :: clause n (k :: ks)) text) :
    text.toList = spaced (conditionWords keyword (written n (k :: ks))) := by
  induction ks generalizing n k join keyword text with
  | nil =>
    obtain ⟨first, text₁, hfirst, h₁, rfl⟩ := Fragment.pieces_cons_iff.1 h
    obtain rfl := Except.ok.inj (hjoin.symm.trans hfirst)
    rw [clause, ← List.append_nil (k.fragments _)] at h₁
    obtain ⟨rest, ⟨_, hrest, rfl⟩, words⟩ := pieces_fragments h₁
    cases hrest
    rw [spaced_keyword words]
    exact List.append_nil _
  | cons k' ks ih =>
    obtain ⟨first, text₁, hfirst, h₁, rfl⟩ := Fragment.pieces_cons_iff.1 h
    obtain rfl := Except.ok.inj (hjoin.symm.trans hfirst)
    rw [clause_cons (List.cons_ne_nil k' ks)] at h₁
    obtain ⟨rest, hrest, words⟩ := pieces_fragments h₁
    have later : rest.toList = spaced (conditionWords "AND"
        (written (if k.bindsParam then n + 1 else n) (k' :: ks))) := ih rfl hrest
    rw [spaced_keyword words, later, ← spaced_append]
    rfl

end Condition

namespace Draft.Keeps

variable {d : Draft} {l : Ledger}

theorem toList_clause {text : String} (h : Fragment.Pieces .named l.clause text) :
    text.toList = spaced (conditionWords "WHERE" (Condition.written 0 l.conditions)) := by
  unfold Ledger.clause at h
  cases hl : l.conditions with
  | nil =>
    rw [hl] at h
    obtain ⟨_, hpieces, rfl⟩ := h
    cases hpieces
    rfl
  | cons k ks =>
    rw [hl] at h
    exact Condition.pieces_clause rfl h

theorem toList_orderClause (h : d.Keeps l) {text : String} (ht : d.ast.orderClause = .ok text) :
    text.toList = spaced l.orderWords := by
  rw [Ast.orderClause, h.direction?_eq, h.orderedField?_eq] at ht
  unfold Ledger.orderWords
  cases hl : l.order with
  | none =>
    rw [hl] at ht
    cases ht
    rfl
  | some o =>
    rw [hl] at ht
    cases ht
    simp [spaced]

theorem toList_pagingClause (h : d.Keeps l) {pg : Paging} {keyword text : String}
    (ht : d.ast.pagingClause .named pg.fragment (" " ++ keyword ++ " ") pg.paramName = .ok text) :
    text.toList = spaced (l.pageWords keyword pg) := by
  rw [Ast.pagingClause, h.paging] at ht
  unfold Ledger.pageWords
  cases hl : (l.count pg).isSome with
  | false =>
    rw [hl] at ht
    cases ht
    rfl
  | true =>
    rw [hl] at ht
    obtain ⟨placeholder, hname, ht⟩ := bind_eq_ok.1 ht
    obtain ⟨name, hname, hplaceholder⟩ := bind_eq_ok.1 hname
    obtain ⟨-, rfl⟩ := requireText_eq_ok.1 hname
    cases hplaceholder
    cases ht
    simp [spaced]

/-- **What a query is written as**: its columns, its kind and its words. Only the
kind can end in blanks that are dropped. -/
theorem toList_render (h : d.Keeps l) {text : String} (ht : d.ast.render .named = .ok text) :
    text.toList = "SELECT ".toList ++ l.columns.toList ++ " FROM".toList ++
      trimEnd (' ' :: l.kind.toList ++ spaced l.words) := by
  simp only [Ast.render, bind_eq_ok] at ht
  obtain ⟨pieces, hpieces, order, horder, limit, hlimit, offset, hoffset, ht⟩ := ht
  have inPlace : Fragment.Pieces .named l.inPlace (String.join pieces) := by
    rw [← h.inPlace]
    exact (Fragment.pieces_iff.1 ⟨pieces, hpieces, rfl⟩).1
  obtain ⟨select, text₁, hselect, h₁, joined⟩ := Fragment.pieces_cons_iff.1 inPlace
  obtain ⟨columns, text₂, hcolumns, h₂, rfl⟩ := Fragment.pieces_cons_iff.1 h₁
  obtain ⟨source, text₃, hsource, h₃, rfl⟩ := Fragment.pieces_cons_iff.1 h₂
  obtain ⟨kind, clause, hkind, hclause, rfl⟩ := Fragment.pieces_cons_iff.1 h₃
  obtain rfl := Except.ok.inj hselect
  obtain ⟨-, rfl⟩ := requireText_eq_ok.1 hcolumns
  obtain rfl := Except.ok.inj hsource
  obtain ⟨-, rfl⟩ := requireText_eq_ok.1 hkind
  have words : clause.toList ++ (order.toList ++ (limit.toList ++ offset.toList)) =
      spaced l.words := by
    have take : limit.toList = spaced (l.pageWords "LIMIT" .take) := h.toList_pagingClause hlimit
    have skip : offset.toList = spaced (l.pageWords "OFFSET" .skip) := h.toList_pagingClause hoffset
    rw [toList_clause hclause, h.toList_orderClause horder, take, skip, Ledger.words, spaced_append,
      spaced_append, spaced_append, List.append_assoc, List.append_assoc]
  have spelled : (String.join pieces ++ order ++ limit ++ offset).toList =
      ("SELECT ".toList ++ l.columns.toList ++ " FRO".toList) ++
        'M' :: (' ' :: l.kind.toList ++ spaced l.words) := by
    simp [joined, ← words]
  have trimmed : ∀ rest,
      trimChars ("SELECT ".toList ++ rest) = trimEnd ("SELECT ".toList ++ rest) := fun _ => rfl
  rw [← Except.ok.inj ht, trim, String.toList_ofList, spelled, List.append_assoc, List.append_assoc,
    trimmed, ← List.append_assoc, ← List.append_assoc, trimEnd_append (by decide)]
  simp

end Draft.Keeps

/-! ## Reading -/

theorem isBlankChar_of_isDigit {c : Char} (h : c.isDigit = true) : isBlankChar c = false := by
  simp only [Char.isDigit, Bool.and_eq_true, decide_eq_true_eq] at h
  have low : 48 ≤ c.toNat := h.1
  have high : c.toNat ≤ 57 := h.2
  simp only [isBlankChar, Bool.or_eq_false_iff, Bool.and_eq_false_iff, decide_eq_false_iff_not,
    beq_eq_false_iff_ne]
  omega

theorem isWord_placeholder (n : Nat) : IsWord ("@" ++ Param.numberedName n) where
  ne_empty := by simp
  notBlank := by
    intro c hc
    have letters : ("@" ++ Param.numberedName n).toList = '@' :: 'p' :: Nat.toDigits 10 n := by
      simp [Param.numberedName, ← Nat.toList_repr]
    rw [letters] at hc
    rcases List.mem_cons.1 hc with rfl | hc
    · decide
    rcases List.mem_cons.1 hc with rfl | hc
    · decide
    · exact isBlankChar_of_isDigit (Nat.isDigit_of_mem_toDigits (by decide) (by decide) hc)

theorem isWord_conditionWords {n : Nat} {ks : List Condition} {keyword : String}
    (hk : IsWord keyword) (hks : ∀ k ∈ ks, IsWord k.column) :
    ∀ w ∈ conditionWords keyword (Condition.written n ks), IsWord w := by
  induction ks generalizing n keyword with
  | nil => exact fun _ hw => nomatch hw
  | cons k ks ih =>
    rw [List.forall_mem_cons] at hks
    have symbol : IsWord k.op.symbol := by
      cases k.op <;> decide
    have operand : IsWord (k.asWritten (n + 1)).operand.operandWord := by
      unfold Condition.asWritten
      cases k.bindsParam with
      | true => exact isWord_placeholder (n + 1)
      | false => exact (by decide : IsWord "NULL")
    have later := ih (n := if k.bindsParam then n + 1 else n) (by decide : IsWord "AND") hks.2
    intro w hw
    simp only [Condition.written, conditionWords, Written.words, List.mem_cons, List.cons_append,
      List.nil_append] at hw
    rcases hw with rfl | rfl | rfl | rfl | hw
    · exact hk
    · exact hks.1
    · exact symbol
    · exact operand
    · exact later w hw

namespace Ledger

variable {l l' : Ledger}

theorem isWord_orderWords (h : l.Refers IsWord) : ∀ w ∈ l.orderWords, IsWord w := by
  unfold orderWords
  cases ho : l.order with
  | none => exact fun _ hw => nomatch hw
  | some o =>
    have column : IsWord o.2 := h.order o ho
    have symbol : IsWord o.1.symbol := by
      cases o.1 <;> decide
    simpa using ⟨by decide, by decide, column, symbol⟩

theorem isWord_pageWords {keyword : String} (hk : IsWord keyword) (pg : Paging) :
    ∀ w ∈ l.pageWords keyword pg, IsWord w := by
  have name : IsWord ("@" ++ pg.paramName) := by
    cases pg <;> decide
  unfold pageWords
  split
  · simpa using ⟨hk, name⟩
  · exact fun _ hw => nomatch hw

theorem isWord_words (h : l.Refers IsWord) : ∀ w ∈ l.words, IsWord w := by
  simp only [words, List.forall_mem_append]
  exact ⟨⟨⟨isWord_conditionWords (by decide) h.conditions, isWord_orderWords h⟩,
    isWord_pageWords (by decide) .take⟩, isWord_pageWords (by decide) .skip⟩

/-- The words behind the conditions do not start like one more of them. -/
theorem head_rest (l : Ledger) :
    ∀ w ∈ (l.orderWords ++ l.pageWords "LIMIT" .take ++ l.pageWords "OFFSET" .skip).head?,
      w ≠ "WHERE" ∧ w ≠ "AND" := by
  unfold orderWords pageWords
  cases l.order <;> cases (l.count .take).isSome <;> cases (l.count .skip).isSome <;> simp

end Ledger

/-- Each condition is told by its keyword, and takes as many words. -/
theorem conditionWords_inj {keyword : String} {ws vs : List Written} {rest rest' : List String}
    (hk : keyword = "WHERE" ∨ keyword = "AND") (hr : ∀ w ∈ rest.head?, w ≠ "WHERE" ∧ w ≠ "AND")
    (hr' : ∀ w ∈ rest'.head?, w ≠ "WHERE" ∧ w ≠ "AND")
    (same : conditionWords keyword ws ++ rest = conditionWords keyword vs ++ rest') :
    ws.map Written.column = vs.map Written.column ∧ rest = rest' := by
  -- No words but those of a condition start with its keyword.
  have other : ∀ {keyword : String} {rest more : List String}, keyword = "WHERE" ∨ keyword = "AND" →
      (∀ w ∈ rest.head?, w ≠ "WHERE" ∧ w ≠ "AND") → rest ≠ keyword :: more := by
    rintro keyword rest more hk hr rfl
    rcases hk with rfl | rfl
    · exact (hr _ rfl).1 rfl
    · exact (hr _ rfl).2 rfl
  induction ws generalizing vs keyword with
  | nil =>
    cases vs with
    | nil => exact ⟨rfl, same⟩
    | cons v vs => exact absurd same (other hk hr)
  | cons w ws ih =>
    cases vs with
    | nil => exact absurd same.symm (other hk hr')
    | cons v vs =>
      simp only [conditionWords, Written.words, List.cons_append, List.nil_append,
        List.cons.injEq, true_and] at same
      obtain ⟨columns, rest⟩ := ih (.inr rfl) same.2.2.2
      exact ⟨by rw [List.map_cons, List.map_cons, same.1, columns], rest⟩

/-- An ordering is told by its first word. -/
theorem Ledger.order_eq_of_words {l l' : Ledger}
    (same : l.orderWords ++ l.pageWords "LIMIT" .take ++ l.pageWords "OFFSET" .skip =
      l'.orderWords ++ l'.pageWords "LIMIT" .take ++ l'.pageWords "OFFSET" .skip) :
    l.order = l'.order := by
  have none_first : ∀ (l : Ledger) more, l.pageWords "LIMIT" .take ++ l.pageWords "OFFSET" .skip ≠
      "ORDER" :: more := by
    intro l more
    unfold pageWords
    cases (l.count .take).isSome <;> cases (l.count .skip).isSome <;> simp
  rw [List.append_assoc, List.append_assoc] at same
  unfold orderWords at same
  cases ho : l.order with
  | none =>
    cases ho' : l'.order with
    | none => rfl
    | some o' =>
      rw [ho, ho'] at same
      exact absurd same (none_first l _)
  | some o =>
    cases ho' : l'.order with
    | none =>
      rw [ho, ho'] at same
      exact absurd same.symm (none_first l' _)
    | some o' =>
      rw [ho, ho'] at same
      obtain ⟨dir, column⟩ := o
      obtain ⟨dir', column'⟩ := o'
      simp only [List.cons_append, List.cons.injEq, true_and] at same
      obtain ⟨rfl, symbol, -⟩ := same
      cases dir <;> cases dir' <;> first | rfl | exact absurd symbol (by decide)

/-- The names that are written for the columns of a plan. -/
def Plan.shown (plan : Plan) : List String := if plan.selectsAll then ["*"] else plan.columns

theorem Plan.toList_columnText (plan : Plan) : plan.columnText.toList = listed plan.shown := by
  have names : ∀ names : List String, (String.intercalate ", " names).toList = listed names := by
    intro names
    induction names with
    | nil => rfl
    | cons name names ih =>
      cases names with
      | nil => rw [String.intercalate_singleton]; rfl
      | cons next names =>
        rw [String.intercalate_cons_cons, String.toList_append, String.toList_append, ih]
        simp [listed]
  unfold columnText shown
  split
  · rfl
  · exact names plan.columns

/-- The sign for all columns is no column. -/
theorem Plan.shown_inj {plan plan' : Plan} (hp : ∀ c ∈ plan.columns, IsColumnWord c)
    (hp' : ∀ c ∈ plan'.columns, IsColumnWord c) (same : plan.shown = plan'.shown) :
    plan.columns = plan'.columns := by
  have all : ∀ {plan plan' : Plan}, (∀ c ∈ plan'.columns, IsColumnWord c) →
      plan.selectsAll = true → plan.shown = plan'.shown → plan.columns = plan'.columns := by
    intro plan plan' words all same
    rw [shown, if_pos all] at same
    unfold shown at same
    split at same
    next all' => rw [List.isEmpty_iff.1 all, List.isEmpty_iff.1 all']
    next => exact absurd rfl (words "*" (by rw [← same]; exact List.mem_singleton_self _)).ne_all
  cases hs : plan.selectsAll with
  | true => exact all hp' hs same
  | false =>
    cases hs' : plan'.selectsAll with
    | true => exact (all hp hs' same.symm).symm
    | false => rwa [shown, shown, hs, hs'] at same

theorem Plan.shown_ne_nil (plan : Plan) : plan.shown ≠ [] := by
  intro none
  unfold shown at none
  split at none
  next => cases none
  next all => exact all (List.isEmpty_iff.2 none)

theorem Plan.undivided_shown {plan : Plan} (hp : ∀ c ∈ plan.columns, IsColumnWord c) :
    ∀ n ∈ plan.shown, ' ' ∉ n.toList ∧ ',' ∉ n.toList := by
  intro n hn
  unfold shown at hn
  split at hn
  next =>
    rw [List.mem_singleton.1 hn]
    decide
  next => exact ⟨(hp n hn).not_mem_space, (hp n hn).noComma⟩

/-- **A query is read back from its text.** -/
theorem Draft.Keeps.read_back {d d' : Draft} {l l' : Ledger} {plan plan' : Plan} {text : String}
    (h : d.Keeps l) (h' : d'.Keeps l') (ht : d.ast.render .named = .ok text)
    (ht' : d'.ast.render .named = .ok text) (columns : l.columns = plan.columnText)
    (columns' : l'.columns = plan'.columnText) (kind : l.kind = l'.kind)
    (refers : l.Refers IsWord) (refers' : l'.Refers IsWord)
    (hp : ∀ c ∈ plan.columns, IsColumnWord c) (hp' : ∀ c ∈ plan'.columns, IsColumnWord c) :
    plan.columns = plan'.columns ∧
      l.conditions.map Condition.column = l'.conditions.map Condition.column ∧
      l.order = l'.order := by
  have same := (h.toList_render ht).symm.trans (h'.toList_render ht')
  have source : " FROM".toList = ' ' :: "FROM".toList := by simp
  rw [columns, columns', Plan.toList_columnText, Plan.toList_columnText, ← kind, List.append_assoc,
    List.append_assoc, List.append_assoc, List.append_assoc, List.append_cancel_left_eq,
    source] at same
  obtain ⟨shown, rest⟩ := listed_inj (Plan.undivided_shown hp) (Plan.undivided_shown hp')
    plan.shown_ne_nil plan'.shown_ne_nil same
  have words : l.words = l'.words :=
    trimEnd_spaced_inj (Ledger.isWord_words refers) (Ledger.isWord_words refers')
      (List.append_cancel_left rest)
  unfold Ledger.words at words
  simp only [List.append_assoc] at words
  obtain ⟨conditions, rest⟩ := conditionWords_inj (.inl rfl)
    (by simpa only [List.append_assoc] using l.head_rest)
    (by simpa only [List.append_assoc] using l'.head_rest) words
  rw [Condition.map_column_written, Condition.map_column_written] at conditions
  exact ⟨Plan.shown_inj hp hp' shown, conditions,
    Ledger.order_eq_of_words (by simpa only [List.append_assoc] using rest)⟩

end KindQuery
