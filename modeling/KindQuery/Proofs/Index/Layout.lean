import KindQuery.Proofs.Index.Written
import KindQuery.Proofs.Query.Spelled
/-!
# The layout of index files

What is written to an index file is read again by the next process, which leaves
any other file alone. Names without line breaks keep to their lines
(`Index.lines_toYaml`), so that the lines of the text are those of its indexes.
From this follow both that the text is recognised, whatever the names look like,
and that no two lists of indexes have one text (`Index.toYaml_recognised`).
-/

namespace KindQuery

/-! ## Lines -/

/-- **A text that keeps to its line**: there is no line break in it. -/
structure KeepsLine (s : String) : Prop where
  noNewline : '\n' ∉ s.toList
  noReturn : '\r' ∉ s.toList

instance (s : String) : Decidable (KeepsLine s) :=
  decidable_of_iff ('\n' ∉ s.toList ∧ '\r' ∉ s.toList)
    ⟨fun h => ⟨h.1, h.2⟩, fun h => ⟨h.noNewline, h.noReturn⟩⟩

theorem KeepsLine.append {s t : String} (hs : KeepsLine s) (ht : KeepsLine t) :
    KeepsLine (s ++ t) where
  noNewline := by
    rw [String.toList_append, List.mem_append]
    exact not_or.2 ⟨hs.noNewline, ht.noNewline⟩
  noReturn := by
    rw [String.toList_append, List.mem_append]
    exact not_or.2 ⟨hs.noReturn, ht.noReturn⟩

/-- A newline ends a line that has no line break in it. -/
theorem lines_append_newline {line : List Char} (hn : '\n' ∉ line) (hr : '\r' ∉ line)
    (rest : List Char) : lines (line ++ '\n' :: rest) = line :: lines rest := by
  induction line with
  | nil => rfl
  | cons c line ih =>
    rw [List.mem_cons, not_or] at hn hr
    rw [List.cons_append, lines.eq_4 _ _ (fun h => hn.1 h.symm) (fun _ h _ => hr.1 h.symm),
      ih hn.2 hr.2]

/-- **The lines of a text** that is put together from lines. -/
theorem lines_join {ls : List String} (keep : ∀ l ∈ ls, KeepsLine l) :
    lines (String.join (ls.map (· ++ "\n"))).toList = ls.map String.toList := by
  induction ls with
  | nil => rfl
  | cons l ls ih =>
    rw [List.forall_mem_cons] at keep
    have text : (String.join ((l :: ls).map (· ++ "\n"))).toList =
        l.toList ++ '\n' :: (String.join (ls.map (· ++ "\n"))).toList := by
      simp [String.join_cons]
    rw [text, lines_append_newline keep.1.noNewline keep.1.noReturn, ih keep.2, List.map_cons]

namespace Index

variable {i j : Index} {is js : List Index}

/-- **An index that can be written**: its kind and its properties are not blank,
and have no line break in them. -/
structure IsWritable (i : Index) : Prop where
  kind : isBlank i.kind = false ∧ KeepsLine i.kind
  properties : ∀ p ∈ i.properties, isBlank p = false ∧ KeepsLine p

instance (i : Index) : Decidable i.IsWritable :=
  decidable_of_iff ((isBlank i.kind = false ∧ KeepsLine i.kind) ∧
      ∀ p ∈ i.properties, isBlank p = false ∧ KeepsLine p)
    ⟨fun h => ⟨h.1, h.2⟩, fun h => ⟨h.kind, h.properties⟩⟩

/-- The lines of an index file. -/
def fileLines (is : List Index) : List String := "indexes:" :: is.flatMap yamlLines

/-- What holds of the fixed lines, of those with the kinds and of those with the
properties holds of every line of an index file. -/
theorem forall_mem_fileLines {P : String → Prop} (first : P "indexes:")
    (no : P "  ancestor: no") (yes : P "  ancestor: yes") (list : P "  properties:")
    (kinds : ∀ i ∈ is, P ("- kind: " ++ i.kind))
    (names : ∀ i ∈ is, ∀ p ∈ i.properties, P ("  - name: " ++ p)) :
    ∀ l ∈ fileLines is, P l := by
  intro l hl
  rcases List.mem_cons.1 hl with rfl | hl
  · exact first
  obtain ⟨i, hi, hl⟩ := List.mem_flatMap.1 hl
  rcases List.mem_append.1 hl with hl | hl
  · simp only [List.mem_cons, List.not_mem_nil, or_false] at hl
    rcases hl with rfl | rfl | rfl
    · exact kinds i hi
    · cases i.ancestor with
      | false => exact no
      | true => exact yes
    · exact list
  · obtain ⟨p, hp, rfl⟩ := List.mem_map.1 hl
    exact names i hi p hp

/-- **The lines of an index file** are the lines of its indexes. -/
theorem lines_toYaml (writable : ∀ i ∈ is, i.IsWritable) :
    lines (toYaml is).toList = (fileLines is).map String.toList := by
  refine lines_join (forall_mem_fileLines (by decide) (by decide) (by decide) (by decide) ?_ ?_)
  · intro i hi
    exact .append (by decide) (writable i hi).kind.2
  · intro i hi p hp
    exact .append (by decide) ((writable i hi).properties p hp).2

/-! ## Recognition -/

theorem isGeneratedLine_kind {name : String} (some : isBlank name = false) :
    isGeneratedLine ("- kind: " ++ name).toList = true := by
  rw [isGeneratedLine, String.toList_append, dropStart?_append, Option.some_or,
    Bool.or_eq_true]
  refine .inr ?_
  rw [isBlank] at some
  simp only [some, Bool.not_false]

theorem isGeneratedLine_name {name : String} (some : isBlank name = false) :
    isGeneratedLine ("  - name: " ++ name).toList = true := by
  have other : dropStart? "- kind: ".toList ("  - name: " ++ name).toList = none := by
    rw [String.toList_append]
    rfl
  rw [isGeneratedLine, other, Option.none_or, String.toList_append, dropStart?_append,
    Bool.or_eq_true]
  refine .inr ?_
  rw [isBlank] at some
  simp only [some, Bool.not_false]

/-- **What is written is recognised**, also where a name looks like another line. -/
theorem isGenerated_toYaml (writable : ∀ i ∈ is, i.IsWritable) :
    isGenerated (toYaml is) = true := by
  have each : ∀ l ∈ fileLines is, isGeneratedLine l.toList = true :=
    forall_mem_fileLines (by decide) (by decide) (by decide) (by decide)
      (fun i hi => isGeneratedLine_kind (writable i hi).kind.1)
      fun i hi p hp => isGeneratedLine_name ((writable i hi).properties p hp).1
  rw [isGenerated, lines_toYaml writable, List.all_map, List.all_eq_true]
  intro l hl
  exact Bool.or_eq_true _ _ ▸ .inr (each l hl)

/-! ## Reading back -/

/-- Does a line name a property? -/
def namesProperty (line : String) : Bool := startsWith "  - name: ".toList line.toList

theorem namesProperty_name (p : String) : namesProperty ("  - name: " ++ p) = true := by
  rw [namesProperty, startsWith, String.toList_append, dropStart?_append]
  rfl

/-- The lines of the next index begin with its kind. -/
theorem namesProperty_head? : ∀ l ∈ (is.flatMap yamlLines).head?, namesProperty l = false := by
  intro l hl
  cases is with
  | nil => cases hl
  | cons i is =>
    cases hl
    rw [namesProperty, startsWith, String.toList_append]
    rfl

theorem yamlLines_append_inj (same : yamlLines i ++ is.flatMap yamlLines =
    yamlLines j ++ js.flatMap yamlLines) :
    i = j ∧ is.flatMap yamlLines = js.flatMap yamlLines := by
  simp only [yamlLines, List.cons_append, List.nil_append, List.cons.injEq, true_and] at same
  obtain ⟨kind, ancestor, named⟩ := same
  have names : ∀ {ps : List String}, ∀ l ∈ ps.map ("  - name: " ++ ·), namesProperty l = true := by
    intro ps l hl
    obtain ⟨p, -, rfl⟩ := List.mem_map.1 hl
    exact namesProperty_name p
  -- The names of an index end where the next index begins.
  obtain ⟨properties, rest⟩ :=
    span_inj names names namesProperty_head? namesProperty_head? named
  have sameKind : i.kind = j.kind := (String.append_right_inj _).1 kind
  have sameAncestor : i.ancestor = j.ancestor := by
    cases hi : i.ancestor <;> cases hj : j.ancestor <;> simp [hi, hj] at ancestor ⊢
  have sameProperties : i.properties = j.properties :=
    List.map_injective_iff.2 (fun p q h => (String.append_right_inj _).1 h) properties
  cases i
  cases j
  subst sameKind sameAncestor sameProperties
  exact ⟨rfl, rest⟩

theorem flatMap_yamlLines_inj (same : is.flatMap yamlLines = js.flatMap yamlLines) : is = js := by
  induction is generalizing js with
  | nil =>
    cases js with
    | nil => rfl
    | cons j js => cases same
  | cons i is ih =>
    cases js with
    | nil => cases same
    | cons j js =>
      rw [List.flatMap_cons, List.flatMap_cons] at same
      obtain ⟨rfl, rest⟩ := yamlLines_append_inj same
      rw [ih rest]

/-- **No two lists of indexes have one text.** -/
theorem toYaml_inj (hi : ∀ i ∈ is, i.IsWritable) (hj : ∀ j ∈ js, j.IsWritable)
    (same : toYaml is = toYaml js) : is = js := by
  have lines : (fileLines is).map String.toList = (fileLines js).map String.toList := by
    rw [← lines_toYaml hi, ← lines_toYaml hj, same]
  have texts : fileLines is = fileLines js :=
    List.map_injective_iff.2 (fun _ _ => String.toList_inj.1) lines
  exact flatMap_yamlLines_inj (List.cons.inj texts).2

end Index

/-! ## Later processes -/

namespace IndexFile

variable {c : Compiled} {f f' : IndexFile} {d d' : Disk} {result : Except Error Unit}

/-- What a call gives that leaves the file to whoever wrote it. -/
def refusal (path : String) : Except Error Unit :=
  Fault.raise (.invalidConfig (.foreignIndexFile path))

theorem accessError_ne_refusal (failure : FileFailure) (attempt path path' : String) :
    .error (accessError failure attempt path) ≠ refusal path' :=
  fun h => nomatch congrArg Error.fault (Except.error.inj h)

/-- The file may be replaced if it has been looked at, or if it was generated. -/
def IsOwn (f : IndexFile) (d : Disk) : Prop :=
  f.checked = true ∨ ∃ content, d.node = .text content ∧ Index.isGenerated content = true

/-- Looking at a generated file can fail, but does not refuse it. -/
theorem mayReplace_ne_refusal {content : String} (node : d.node = .text content)
    (generated : Index.isGenerated content = true) (path path' : String) :
    mayReplace path d.read.1 ≠ refusal path' := by
  cases met : d.nextFailure with
  | none =>
    have found : d.read.1 = .ok content := by simp only [Disk.read, met, node]
    rw [found, mayReplace, if_pos generated]
    intro refused
    cases refused
  | some mishap =>
    have found : d.read.1 = .error mishap.failure := by simp only [Disk.read, met]
    rw [found]
    cases mishap.failure with
    | absent message =>
      intro refused
      cases refused
    | other message => exact accessError_ne_refusal _ _ _ _

/-- One call is not refused, and the file stays one that may be replaced. -/
theorem Advises.of_isOwn (h : Advises c f d result f' d') (own : f.IsOwn d) :
    f'.IsOwn d' ∧ ∀ path, result ≠ refusal path := by
  cases h with
  | needless | known => exact ⟨own, fun _ => nofun⟩
  | refused _ _ unchecked refused =>
    rcases own with checked | ⟨content, node, generated⟩
    · exact absurd (unchecked.symm.trans checked) Bool.false_ne_true
    · refine ⟨.inr ⟨content, node, generated⟩, fun path => ?_⟩
      rw [← refused]
      exact mayReplace_ne_refusal node generated _ path
  | unopened | interrupted => exact ⟨.inl rfl, accessError_ne_refusal _ _ _⟩
  | written => exact ⟨.inl rfl, fun _ => nofun⟩

/-- **A run that is not refused**: none of its calls was, and none will be. -/
structure IsAccepted (results : List (Except Error Unit)) (f : IndexFile) (d : Disk) : Prop where
  own : f.IsOwn d
  passed : ∀ result ∈ results, ∀ path, result ≠ refusal path

theorem IsAccepted.step {results : List (Except Error Unit)} (h : IsAccepted results f d)
    (call : Advises c f d result f' d') :
    IsAccepted (results ++ if f.lacks c then [result] else []) f' d' := by
  obtain ⟨own, accepted⟩ := call.of_isOwn h.own
  refine ⟨own, fun r member => ?_⟩
  rcases List.mem_append.1 member with earlier | last
  · exact h.passed r earlier
  · split at last
    · exact List.mem_singleton.1 last ▸ accepted
    · cases last

/-- **A generated file is never refused**, however many queries come and whatever
else fails. -/
theorem isAccepted_adviseAll (cs : List Compiled) (own : f.IsOwn d) :
    IsAccepted (f.adviseAll d cs).1 (f.adviseAll d cs).2.1 (f.adviseAll d cs).2.2 := by
  have fresh : IsAccepted [] f d := ⟨own, fun _ member => nomatch member⟩
  have run := @adviseAll_invariant (fun _ => IsAccepted) (fun h call => IsAccepted.step h call) cs
    False [] f d fresh
  simpa only [List.nil_append] using run

end IndexFile

namespace Index

variable {is : List Index}

/-- **Index files are recognised and say everything.** The text of indexes with
names that are not blank and have no line break in them is recognised, so that no
later process refuses to replace it, and no other such indexes have this text. -/
theorem toYaml_recognised (writable : ∀ i ∈ is, i.IsWritable) :
    isGenerated (toYaml is) = true ∧
    (∀ path cs d, d.node = .text (toYaml is) →
      ∀ result ∈ ((IndexFile.ofPath path).adviseAll d cs).1, result ≠ IndexFile.refusal path) ∧
    ∀ js, (∀ j ∈ js, j.IsWritable) → toYaml is = toYaml js → is = js := by
  have generated := isGenerated_toYaml writable
  refine ⟨generated, fun path cs d node result member => ?_,
    fun js writable' same => toYaml_inj writable writable' same⟩
  exact (IndexFile.isAccepted_adviseAll cs (.inr ⟨_, node, generated⟩)).passed result member path

/-- Indexes of which some names look like lines of the layout. -/
def disguised : List Index :=
  [⟨"indexes:", ["  properties:", "- kind: Person"], true⟩, ⟨"- kind: A", [], false⟩]

theorem toYaml_disguised : (∀ i ∈ disguised, i.IsWritable) ∧
    isGenerated (toYaml disguised) = true ∧
    toYaml disguised ≠ toYaml [⟨"indexes:", ["  properties:"], true⟩, ⟨"Person", [], false⟩] := by
  have writable : ∀ i ∈ disguised, i.IsWritable := by decide
  obtain ⟨generated, -, injective⟩ := toYaml_recognised writable
  exact ⟨writable, generated, fun same => absurd (injective _ (by decide) same) (by decide)⟩

end Index

end KindQuery
