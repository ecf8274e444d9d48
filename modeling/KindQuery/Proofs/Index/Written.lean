import KindQuery.Index.File
/-!
# What is written to an index file

Queries come one after another, and reading and writing the file may fail
at any of them. `IndexFile.Advises` lists what one call can do. From it
follow, for runs of any length, that a file which was not generated is
never written to (`adviseAll_guards`), and when the file holds the indexes
that are known (`inSync_iff`): an index stays known when the file could not
be written, and a later query that needs it is let through. What the file
holds then is what it held before, or a part of what was to be written.
-/

namespace KindQuery

/-! ## The text of an index file -/

namespace Index

theorem toYaml_append (old new : List Index) :
    toYaml (old ++ new) =
      toYaml old ++ String.join ((new.flatMap yamlLines).map (· ++ "\n")) := by
  simp only [toYaml, List.flatMap_append, ← List.cons_append, List.map_append, String.join_append]

/-- Every index adds to the text. -/
theorem toYaml_append_eq_self_iff {old new : List Index} :
    toYaml (old ++ new) = toYaml old ↔ new = [] := by
  constructor
  · intro same
    cases new with
    | nil => rfl
    | cons i new =>
      have added := congrArg String.length same
      simp [toYaml_append, yamlLines] at added
  · rintro rfl
    rw [List.append_nil]

theorem utf8ByteSize_toYaml_le (old new : List Index) :
    (toYaml old).utf8ByteSize ≤ (toYaml (old ++ new)).utf8ByteSize := by
  rw [toYaml_append, String.utf8ByteSize_append]
  exact Nat.le_add_right _ _

theorem toYaml_ne_empty (is : List Index) : toYaml is ≠ "" := by
  intro empty
  have written := utf8ByteSize_toYaml_le [] is
  rw [List.nil_append, empty] at written
  exact absurd written (by decide)

end Index

namespace FileNode

theorem utf8ByteSize_of_fromUTF8? {bytes : ByteArray} {content : String}
    (h : String.fromUTF8? bytes = some content) : content.utf8ByteSize = bytes.size := by
  rw [String.fromUTF8?] at h
  split at h
  next =>
    cases h
    rfl
  next => cases h

/-- What an interrupted write leaves is shorter than what was to be written. -/
theorem utf8ByteSize_lt_of_cut {content rest : String} {bytes : Nat}
    (some : content ≠ "") (h : cut content bytes = .text rest) :
    rest.utf8ByteSize < content.utf8ByteSize := by
  have shorter : (content.toUTF8.data.toList.dropLast.take bytes).toByteArray.size <
      content.utf8ByteSize := by
    have size : content.toUTF8.data.toList.length = content.utf8ByteSize := rfl
    have written : content.utf8ByteSize ≠ 0 := mt String.utf8ByteSize_eq_zero_iff.1 some
    rw [List.size_toByteArray, List.length_take, List.length_dropLast, size]
    omega
  rw [cut, ofBytes] at h
  split at h
  next decoded =>
    cases h
    rw [utf8ByteSize_of_fromUTF8? decoded]
    exact shorter
  next => cases h

/-- It is not the text of an index file with the same indexes, or more. -/
theorem cut_toYaml_ne (old new : List Index) (bytes : Nat) :
    cut (Index.toYaml old) bytes ≠ .text (Index.toYaml (old ++ new)) := fun whole =>
  absurd (utf8ByteSize_lt_of_cut (Index.toYaml_ne_empty old) whole)
    (Nat.not_lt.2 (Index.utf8ByteSize_toYaml_le old new))

end FileNode

/-! ## One call -/

namespace Disk

variable {d : Disk} {content : String}

theorem read_snd : d.read.2 = d.accessed := rfl

/-- Does a write get as far as to open the file? -/
def opens (d : Disk) : Bool :=
  match d.nextFailure, d.node.openFailure? with
  | some (.unopened _), _ => false
  | _, openFailure => openFailure.isNone

/-- A write leaves the file as it is if it cannot be opened. Otherwise it
replaces the file, if it is not interrupted. -/
theorem write_cases (d : Disk) (content : String) :
    (d.opens = false ∧ ∃ failure, d.write content = (.error failure, d.accessed)) ∨
      d.opens = true ∧
        ((∃ failure bytes, d.write content =
            (.error failure, { d.accessed with node := .cut content bytes })) ∨
          d.write content = (.ok (), { d.accessed with node := .text content })) := by
  rw [write, opens]
  cases d.nextFailure with
  | none =>
    cases d.node.openFailure? with
    | none => exact .inr ⟨rfl, .inr rfl⟩
    | some => exact .inl ⟨rfl, _, rfl⟩
  | some mishap =>
    cases mishap with
    | unopened => exact .inl ⟨rfl, _, rfl⟩
    | interrupted =>
      cases d.node.openFailure? with
      | none => exact .inr ⟨rfl, .inl ⟨_, _, rfl⟩⟩
      | some => exact .inl ⟨rfl, _, rfl⟩

end Disk

namespace IndexFile

variable {c : Compiled} {f f' : IndexFile} {d d' : Disk} {i : Index}
  {result : Except Error Unit}

/-- Does a query need an index that is not known? -/
def lacks (f : IndexFile) (c : Compiled) : Bool :=
  c.requiredIndex?.any fun i => !f.known.knows i

/-- The file with one more index known. -/
def adding (f : IndexFile) (i : Index) : IndexFile :=
  { f with known := ⟨f.known.indexes ++ [i]⟩ }

/-- The path after the file has been looked at, which happens once only. -/
def looked (f : IndexFile) (d : Disk) : Disk := if f.checked then d else d.accessed

/-- What is in the file may be replaced, as far as can be told. -/
def Allows (f : IndexFile) (d : Disk) : Prop :=
  f.checked = true ∨ mayReplace f.path d.read.1 = .ok ()

/-- **What one call can do.** It changes nothing if the query needs no index or
a known one. Otherwise the index is known from then on, whatever becomes of
the file: that it may not be replaced, that it cannot be opened, that it is
cut off, or that it holds all known indexes. -/
inductive Advises (c : Compiled) (f : IndexFile) (d : Disk) :
    Except Error Unit → IndexFile → Disk → Prop
  | needless : c.requiredIndex? = none → Advises c f d (.ok ()) f d
  | known {i : Index} : c.requiredIndex? = some i → f.known.knows i = true →
      Advises c f d (.ok ()) f d
  | refused {i : Index} {e : Error} : c.requiredIndex? = some i → f.known.knows i = false →
      f.checked = false → mayReplace f.path d.read.1 = .error e →
      Advises c f d (.error e) (f.adding i) d.accessed
  | unopened {i : Index} {failure : FileFailure} :
      c.requiredIndex? = some i → f.known.knows i = false → f.Allows d →
      (f.looked d).opens = false →
      Advises c f d (.error (accessError failure "writing" f.path))
        { f.adding i with checked := true } (f.looked d).accessed
  | interrupted {i : Index} {failure : FileFailure} {bytes : Nat} :
      c.requiredIndex? = some i → f.known.knows i = false → f.Allows d →
      (f.looked d).opens = true →
      Advises c f d (.error (accessError failure "writing" f.path))
        { f.adding i with checked := true }
        { (f.looked d).accessed with
          node := .cut (Index.toYaml (f.adding i).known.indexes) bytes }
  | written {i : Index} : c.requiredIndex? = some i → f.known.knows i = false → f.Allows d →
      (f.looked d).opens = true →
      Advises c f d (.ok ()) { f.adding i with checked := true }
        { (f.looked d).accessed with node := .text (Index.toYaml (f.adding i).known.indexes) }

/-- Once the file may be replaced, a call does what the write does. -/
theorem advises_of_allows (needs : c.requiredIndex? = some i) (new : f.known.knows i = false)
    (allowed : f.Allows d)
    (run : f.advise c d =
      let (written, d') := (f.looked d).write (Index.toYaml (f.adding i).known.indexes)
      (written.mapError fun failure => accessError failure "writing" f.path,
        { f.adding i with checked := true }, d')) :
    Advises c f d (f.advise c d).1 (f.advise c d).2.1 (f.advise c d).2.2 := by
  rw [run]
  rcases (f.looked d).write_cases (Index.toYaml (f.adding i).known.indexes) with
    ⟨shut, _, h⟩ | ⟨opened, ⟨_, _, h⟩ | h⟩
  · rw [h]
    exact .unopened needs new allowed shut
  · rw [h]
    exact .interrupted needs new allowed opened
  · rw [h]
    exact .written needs new allowed opened

/-- A call does nothing but that. -/
theorem advises (c : Compiled) (f : IndexFile) (d : Disk) :
    Advises c f d (f.advise c d).1 (f.advise c d).2.1 (f.advise c d).2.2 := by
  cases needs : c.requiredIndex? with
  | none =>
    simp only [advise, needs]
    exact .needless needs
  | some i =>
    cases new : f.known.knows i with
    | true =>
      simp only [advise, needs, KnownIndexes.record, new, if_true]
      exact .known needs new
    | false =>
      have recorded : f.advise c d = (f.adding i).write d := by
        simp only [advise, needs, KnownIndexes.record, new, Bool.false_eq_true, if_false, adding]
      cases checked : f.checked with
      | true =>
        refine advises_of_allows needs new (.inl checked) ?_
        rw [recorded]
        simp only [write, adding, looked, checked, if_true]
      | false =>
        cases allowed : mayReplace f.path d.read.1 with
        | error e =>
          have run : f.advise c d = (.error e, f.adding i, d.accessed) := by
            rw [recorded]
            simp only [write, adding, checked, Bool.false_eq_true, if_false, allowed, Disk.read_snd]
          rw [run]
          exact .refused needs new checked allowed
        | ok =>
          refine advises_of_allows needs new (.inr allowed) ?_
          rw [recorded]
          simp only [write, adding, looked, checked, Bool.false_eq_true, if_false, allowed,
            Disk.read_snd]

theorem lacks_eq_false (needs : c.requiredIndex? = some i) (known : f.known.knows i = true) :
    f.lacks c = false := by
  simp only [lacks, needs, Option.any_some, known, Bool.not_true]

theorem lacks_eq_true (needs : c.requiredIndex? = some i) (new : f.known.knows i = false) :
    f.lacks c = true := by
  simp only [lacks, needs, Option.any_some, new, Bool.not_false]

theorem lacks_of_needless (needless : c.requiredIndex? = none) : f.lacks c = false := by
  simp only [lacks, needless, Option.any_none]

/-- A call that adds no index changes nothing. -/
theorem Advises.of_not_lacks (h : Advises c f d result f' d') (settled : f.lacks c = false) :
    result = .ok () ∧ f' = f ∧ d' = d := by
  cases h with
  | needless | known => exact ⟨rfl, rfl, rfl⟩
  | refused needs new | unopened needs new | interrupted needs new | written needs new =>
    exact absurd (lacks_eq_true needs new) (by rw [settled]; exact Bool.false_ne_true)

/-- What is refused once may not be replaced. -/
theorem not_allows {e : Error} (unchecked : f.checked = false)
    (refused : mayReplace f.path d.read.1 = .error e) : ¬ f.Allows d := by
  rintro (checked | allowed)
  · exact Bool.false_ne_true (unchecked.symm.trans checked)
  · cases refused.symm.trans allowed

/-- Does a call open the file for a write? What was in the file is gone then,
whatever becomes of the write. -/
def Opens (f : IndexFile) (c : Compiled) (d : Disk) : Prop :=
  f.lacks c = true ∧ f.Allows d ∧ (f.looked d).opens = true

theorem not_opens_of_not_lacks (settled : f.lacks c = false) : ¬ f.Opens c d :=
  fun opens => Bool.false_ne_true (settled.symm.trans opens.1)

/-! ## Calls one after another -/

/-- Advises on queries one after another, and tells what the calls gave that
added an index. A call that fails does not stop the ones after it. -/
def adviseAll (f : IndexFile) (d : Disk) :
    List Compiled → List (Except Error Unit) × IndexFile × Disk
  | [] => ([], f, d)
  | c :: cs =>
    let (result, f', d') := f.advise c d
    let (results, last) := f'.adviseAll d' cs
    (if f.lacks c then result :: results else results, last)

/-- Does one of several calls open the file for a write? -/
def Opened (f : IndexFile) (d : Disk) : List Compiled → Prop
  | [] => False
  | c :: cs => f.Opens c d ∨ (f.advise c d).2.1.Opened (f.advise c d).2.2 cs

/-- **An invariant of runs**: what one call preserves, given what it adds to
the results and whether it opens the file, every run does. -/
theorem adviseAll_invariant {Holds : Prop → List (Except Error Unit) → IndexFile → Disk → Prop}
    (step : ∀ {opened results c f d result f' d'}, Holds opened results f d →
      Advises c f d result f' d' →
      Holds (opened ∨ f.Opens c d) (results ++ if f.lacks c then [result] else []) f' d')
    (cs : List Compiled) {opened : Prop} {results : List (Except Error Unit)} {f : IndexFile}
    {d : Disk} (start : Holds opened results f d) :
    Holds (opened ∨ f.Opened d cs) (results ++ (f.adviseAll d cs).1) (f.adviseAll d cs).2.1
      (f.adviseAll d cs).2.2 := by
  induction cs generalizing opened results f d with
  | nil =>
    simp only [adviseAll, Opened, or_false, List.append_nil]
    exact start
  | cons c cs ih =>
    have next := ih (step start (f.advises c d))
    rw [or_assoc] at next
    simp only [adviseAll, Opened]
    cases hl : f.lacks c with
    | true => simpa only [hl, if_true, List.append_assoc, List.singleton_append] using next
    | false => simpa only [hl, Bool.false_eq_true, if_false, List.append_nil] using next

/-! ## A file that was not generated -/

end IndexFile

namespace Disk

variable {d : Disk} {n : Nat}

/-- None of the next `n` reads finds anything that may be replaced. -/
def Guards (d : Disk) : Nat → Prop
  | 0 => True
  | n + 1 => (∀ path, ∃ e, IndexFile.mayReplace path d.read.1 = .error e) ∧ d.accessed.Guards n

/-- The next `n` reads fail, and not because there is no such file. -/
def Unreadable (d : Disk) : Nat → Prop
  | 0 => True
  | n + 1 => (∃ message, d.read.1 = .error (.other message)) ∧ d.accessed.Unreadable n

/-- There is text in the file that was not generated, and no access to it says
that there is no such file. -/
def IsForeign (d : Disk) : Prop :=
  (∃ content, d.node = .text content ∧ Index.isGenerated content = false) ∧
    ∀ mishap message, some mishap ∈ d.failures → mishap.failure ≠ .absent message

theorem Guards.of_succ (h : d.Guards (n + 1)) : d.Guards n := by
  induction n generalizing d with
  | zero => trivial
  | succ n ih => exact ⟨h.1, ih h.2⟩

theorem Unreadable.guards (h : d.Unreadable n) : d.Guards n := by
  induction n generalizing d with
  | zero => trivial
  | succ n ih =>
    obtain ⟨⟨message, found⟩, later⟩ := h
    refine ⟨fun path => ?_, ih later⟩
    rw [found]
    exact ⟨_, rfl⟩

theorem IsForeign.accessed (h : d.IsForeign) : d.accessed.IsForeign :=
  ⟨h.1, fun mishap message member => h.2 mishap message (List.mem_of_mem_tail member)⟩

theorem IsForeign.mayReplace (h : d.IsForeign) (path : String) :
    ∃ e, IndexFile.mayReplace path d.read.1 = .error e := by
  obtain ⟨⟨content, node, foreign⟩, present⟩ := h
  cases met : d.nextFailure with
  | none =>
    have found : d.read.1 = .ok content := by simp only [read, met, node]
    rw [found, IndexFile.mayReplace, foreign]
    exact ⟨_, rfl⟩
  | some mishap =>
    have found : d.read.1 = .error mishap.failure := by simp only [read, met]
    rw [found]
    cases said : mishap.failure with
    | other message => exact ⟨_, rfl⟩
    | absent message =>
      rw [nextFailure, Option.join_eq_some_iff] at met
      exact absurd said (present mishap message (List.mem_of_mem_head? met))

theorem IsForeign.guards (h : d.IsForeign) (n : Nat) : d.Guards n := by
  induction n generalizing d with
  | zero => trivial
  | succ n ih => exact ⟨h.mayReplace, ih h.accessed⟩

end Disk

namespace IndexFile

/-- What a call does to a file that guards itself: an index that it adds cannot
be written, so the call fails, the file is as it was and will be looked at
again. -/
theorem Advises.of_guards {n : Nat} (h : Advises c f d result f' d') (unchecked : f.checked = false)
    (guards : d.Guards (n + 1)) :
    d'.node = d.node ∧ f'.checked = false ∧ d'.Guards n ∧
      (f.lacks c = true → ∃ e, result = .error e) := by
  obtain ⟨e, refused⟩ := guards.1 f.path
  cases h with
  | needless needs =>
    refine ⟨rfl, unchecked, guards.of_succ, fun lacks => ?_⟩
    rw [lacks_of_needless needs] at lacks
    cases lacks
  | known needs known =>
    refine ⟨rfl, unchecked, guards.of_succ, fun lacks => ?_⟩
    rw [lacks_eq_false needs known] at lacks
    cases lacks
  | refused => exact ⟨rfl, unchecked, guards.2, fun _ => ⟨_, rfl⟩⟩
  | unopened _ _ allowed | interrupted _ _ allowed | written _ _ allowed =>
    exact absurd allowed (not_allows unchecked refused)

theorem adviseAll_guards (cs : List Compiled) {f : IndexFile} {d : Disk}
    (unchecked : f.checked = false) (guards : d.Guards cs.length) :
    (f.adviseAll d cs).2.2.node = d.node ∧
      ∀ result ∈ (f.adviseAll d cs).1, ∃ e, result = .error e := by
  induction cs generalizing f d with
  | nil => exact ⟨rfl, fun _ member => nomatch member⟩
  | cons c cs ih =>
    obtain ⟨node, unchecked', guards', fails⟩ := (f.advises c d).of_guards unchecked guards
    obtain ⟨node', later⟩ := ih unchecked' guards'
    simp only [adviseAll]
    refine ⟨node'.trans node, ?_⟩
    cases lacks : f.lacks c with
    | true =>
      rw [if_pos rfl]
      exact List.forall_mem_cons.2 ⟨fails lacks, later⟩
    | false => exact later

/-- **A file that was not generated is never overwritten**, nor is one that
cannot be read. However many queries come: what is in the file stays, and
each call that adds an index fails. -/
theorem adviseAll_foreign {path : String} {cs : List Compiled} {d d' : Disk} {f : IndexFile}
    {added : List (Except Error Unit)} (foreign : d.IsForeign ∨ d.Unreadable cs.length)
    (run : (ofPath path).adviseAll d cs = (added, f, d')) :
    d'.node = d.node ∧ ∀ result ∈ added, ∃ e, result = .error e := by
  have guards : d.Guards cs.length := by
    rcases foreign with handwritten | unreadable
    · exact handwritten.guards _
    · exact unreadable.guards
  simpa only [run] using adviseAll_guards cs (f := ofPath path) rfl guards

/-- A query that needs an index: adults by age. -/
def adultsByAge : Pipeline where
  schema := ⟨"Person", [⟨"Adult", .bool, .normal⟩, ⟨"Age", .int32, .normal⟩]⟩
  stages := [.filter (.field "Adult"), .orderBy (.field "Age") .asc]

/-- A file that somebody wrote by hand. -/
def handwritten : Disk := .ofNode (.text "# by hand")

theorem adviseAll_handwritten :
    ∃ q e f d, adultsByAge.compile.after [] = (.ok q, []) ∧ handwritten.IsForeign ∧
      (ofPath "index.yaml").adviseAll handwritten [q, q] = ([.error e], f, d) ∧
      d.node = handwritten.node := by
  obtain ⟨q, r, f, d, compiled, run⟩ : ∃ q r f d, adultsByAge.compile.after [] = (.ok q, []) ∧
      (ofPath "index.yaml").adviseAll handwritten [q, q] = ([r], f, d) :=
    ⟨_, _, _, _, rfl, rfl⟩
  have foreign : handwritten.IsForeign := ⟨⟨_, rfl, by decide⟩, nofun⟩
  obtain ⟨node, fails⟩ := adviseAll_foreign (.inl foreign) run
  obtain ⟨e, rfl⟩ := fails r (List.mem_singleton_self r)
  exact ⟨q, e, f, d, compiled, foreign, run, node⟩

/-! ## A file that is written to -/

/-- The file holds the known indexes and nothing else. -/
def InSync (f : IndexFile) (d : Disk) : Prop := d.node = .text (Index.toYaml f.known.indexes)

/-- **How the file stands** in a run that started at a node, by what the calls
gave that added indexes, and by whether one of them has opened the file. If
none has, the node is still there. Otherwise the file holds the indexes up to
one that was written: all of them just if the last one was. Or a part of
such a text is all that it holds. -/
inductive Stands (node : FileNode) (opened : Prop) (added : List (Except Error Unit))
    (f : IndexFile) (d : Disk) : Prop
  | untouched : ¬ opened → .ok () ∉ added → d.node = node → Stands node opened added f d
  | replaced {old new : List Index} : opened → f.known.indexes = old ++ new →
      d.node = .text (Index.toYaml old) → (added.getLast? = some (.ok ()) ↔ new = []) →
      Stands node opened added f d
  | cutOff {old new : List Index} {bytes : Nat} : opened → f.known.indexes = old ++ new →
      d.node = .cut (Index.toYaml old) bytes → added.getLast? ≠ some (.ok ()) →
      Stands node opened added f d

variable {node : FileNode} {opened : Prop} {added : List (Except Error Unit)}

/-- A call that adds an index, and fails before it opens the file, leaves the
file behind what is known. -/
theorem Stands.failed {e : Error} (h : Stands node opened added f d)
    (known : f'.known = (f.adding i).known) (same : d'.node = d.node) :
    Stands node opened (added ++ [.error e]) f' d' := by
  have grown : ∀ {old new}, f.known.indexes = old ++ new →
      f'.known.indexes = old ++ (new ++ [i]) := by
    intro old new split
    rw [known, ← List.append_assoc, ← split]
    rfl
  cases h with
  | untouched closed none start =>
    refine .untouched closed ?_ (same.trans start)
    simpa using none
  | replaced opened split stored _ =>
    exact .replaced opened (grown split) (same.trans stored) (by simp)
  | cutOff opened split stored _ =>
    exact .cutOff opened (grown split) (same.trans stored) (by simp)

theorem Stands.step (h : Stands node opened added f d) (call : Advises c f d result f' d') :
    Stands node (opened ∨ f.Opens c d) (added ++ if f.lacks c then [result] else []) f' d' := by
  have looked_node : (f.looked d).accessed.node = d.node := by
    simp only [Disk.accessed, looked]
    split <;> rfl
  cases call with
  | needless needs =>
    have settled := lacks_of_needless (f := f) needs
    rw [or_iff_left (not_opens_of_not_lacks settled), settled]
    simpa using h
  | known needs known =>
    have settled := lacks_eq_false needs known
    rw [or_iff_left (not_opens_of_not_lacks settled), settled]
    simpa using h
  | refused needs new unchecked refused =>
    rw [or_iff_left fun opens => not_allows unchecked refused opens.2.1, lacks_eq_true needs new]
    exact h.failed rfl rfl
  | unopened needs new _ shut =>
    rw [or_iff_left fun opens => Bool.false_ne_true (shut.symm.trans opens.2.2),
      lacks_eq_true needs new]
    exact h.failed rfl looked_node
  | interrupted needs new allowed opens =>
    have lacks := lacks_eq_true needs new
    rw [lacks]
    exact .cutOff (.inr ⟨lacks, allowed, opens⟩) (List.append_nil _).symm rfl (by simp)
  | written needs new allowed opens =>
    have lacks := lacks_eq_true needs new
    rw [lacks]
    exact .replaced (.inr ⟨lacks, allowed, opens⟩) (List.append_nil _).symm rfl (by simp)

theorem Stands.inSync (h : Stands node opened added f d) :
    f.InSync d ↔ added.getLast? = some (.ok ()) ∨
      (¬ opened ∧ node = .text (Index.toYaml f.known.indexes)) := by
  cases h with
  | untouched closed none start =>
    have last : added.getLast? ≠ some (.ok ()) := fun last => none (List.mem_of_getLast? last)
    simp only [InSync, start, last, closed, not_false_iff, true_and, false_or]
  | @replaced old new opened split stored last =>
    have holds : f.InSync d ↔ new = [] := by
      rw [InSync, stored, split, FileNode.text.injEq, eq_comm, Index.toYaml_append_eq_self_iff]
    simp only [holds, last, opened, not_true_eq_false, false_and, or_false]
  | cutOff opened split stored last =>
    have behind : ¬ f.InSync d := by
      rw [InSync, stored, split]
      exact FileNode.cut_toYaml_ne _ _ _
    simp only [behind, last, opened, not_true_eq_false, false_and, or_false]

/-- A run from a fresh file, by what its calls gave. -/
theorem stands_adviseAll (path : String) (start : Disk) (cs : List Compiled) :
    Stands start.node ((ofPath path).Opened start cs) ((ofPath path).adviseAll start cs).1
      ((ofPath path).adviseAll start cs).2.1 ((ofPath path).adviseAll start cs).2.2 := by
  have fresh : Stands start.node False [] (ofPath path) start :=
    .untouched not_false List.not_mem_nil rfl
  have run := adviseAll_invariant (fun h call => Stands.step h call) cs fresh
  simpa only [List.nil_append, false_or] using run

/-- A file that no call has opened for a write is as it was. -/
theorem node_adviseAll_of_not_opened {path : String} {start : Disk} {cs : List Compiled}
    (closed : ¬ (ofPath path).Opened start cs) :
    ((ofPath path).adviseAll start cs).2.2.node = start.node := by
  cases stands_adviseAll path start cs with
  | untouched _ _ same => exact same
  | replaced opened | cutOff opened => exact absurd opened closed

/-- **When the file is in sync** after a call that succeeded for a query that
needs an index, whatever came before. It is if the call added the index. A
call for a known index always succeeds and does nothing, so the file is in
sync only if it was before: if the last call that added an index wrote it,
or if no call has opened the file for a write and it held just these indexes
from the start. -/
theorem inSync_iff {path : String} {start d d' : Disk} {before : List Compiled} {c : Compiled}
    {added : List (Except Error Unit)} {f f' : IndexFile}
    (run : (ofPath path).adviseAll start before = (added, f, d))
    (passed : f.advise c d = (.ok (), f', d')) (needs : c.requiredIndex? ≠ none) :
    (f.lacks c = true → f'.InSync d') ∧
      (f.lacks c = false → (f', d') = (f, d) ∧
        (f'.InSync d' ↔ added.getLast? = some (.ok ()) ∨
          (¬ (ofPath path).Opened start before ∧
            start.node = .text (Index.toYaml f'.known.indexes)))) := by
  have stands : Stands start.node ((ofPath path).Opened start before) added f d := by
    simpa only [run] using stands_adviseAll path start before
  have call : Advises c f d (.ok ()) f' d' := by
    simpa only [passed] using f.advises c d
  refine ⟨fun new => ?_, fun settled => ?_⟩
  · cases call with
    | needless needless => exact absurd needless needs
    | known needs known => exact absurd new (by rw [lacks_eq_false needs known]; decide)
    | written => rfl
  · obtain ⟨-, rfl, rfl⟩ := call.of_not_lacks settled
    exact ⟨rfl, stands.inSync⟩

/-- A file with the index that `adultsByAge` needs. It can be read, but a write
is interrupted. -/
def interruptedFile : Disk where
  node := .text (Index.toYaml [⟨"Person", ["Adult", "Age"], false⟩])
  failures := [none, some (.interrupted (.other "No space left on device (os error 28)") 3)]

/-- The second call for a query finds its index known. The first one has written
it, or has cut off the file that held it. -/
theorem inSync_second_query :
    ∃ q, adultsByAge.compile.after [] = (.ok q, []) ∧ q.requiredIndex? ≠ none ∧
      (∃ f d, (ofPath "index.yaml").adviseAll (.ofNode .absent) [q] = ([.ok ()], f, d) ∧
        f.advise q d = (.ok (), f, d) ∧ f.InSync d) ∧
      ∃ e f d, (ofPath "index.yaml").adviseAll interruptedFile [q] = ([.error e], f, d) ∧
        f.advise q d = (.ok (), f, d) ∧ f.InSync interruptedFile ∧ ¬ f.InSync d := by
  obtain ⟨q, compiled, needs⟩ :
      ∃ q, adultsByAge.compile.after [] = (.ok q, []) ∧ q.requiredIndex? ≠ none :=
    ⟨_, rfl, Option.some_ne_none _⟩
  refine ⟨q, compiled, needs, ?_, ?_⟩
  · obtain ⟨f, d, run, passed, settled⟩ :
        ∃ f d, (ofPath "index.yaml").adviseAll (.ofNode .absent) [q] = ([.ok ()], f, d) ∧
          f.advise q d = (.ok (), f, d) ∧ f.lacks q = false := by
      cases compiled
      exact ⟨_, _, rfl, rfl, rfl⟩
    obtain ⟨-, inSync⟩ := (inSync_iff run passed needs).2 settled
    exact ⟨f, d, run, passed, inSync.2 (.inl rfl)⟩
  · obtain ⟨e, f, d, run, passed, settled, held, opened⟩ :
        ∃ e f d, (ofPath "index.yaml").adviseAll interruptedFile [q] = ([.error e], f, d) ∧
          f.advise q d = (.ok (), f, d) ∧ f.lacks q = false ∧ f.InSync interruptedFile ∧
          (ofPath "index.yaml").Opened interruptedFile [q] := by
      cases compiled
      exact ⟨_, _, _, rfl, rfl, rfl, rfl, .inl ⟨rfl, .inr rfl, rfl⟩⟩
    obtain ⟨-, inSync⟩ := (inSync_iff run passed needs).2 settled
    refine ⟨e, f, d, run, passed, held, fun stored => ?_⟩
    rcases inSync.1 stored with last | ⟨closed, -⟩
    · cases last
    · exact closed opened

/-- A failed call is followed by one for the same query that passes, and the
index has not been written. -/
theorem passes_unwritten :
    ∃ q e f d, adultsByAge.compile.after [] = (.ok q, []) ∧ q.requiredIndex? ≠ none ∧
      (ofPath "index.yaml").advise q handwritten = (.error e, f, d) ∧
      f.advise q d = (.ok (), f, d) ∧ f.known.indexes ≠ [] ∧ d.node = handwritten.node ∧
      ¬ f.InSync d := by
  refine ⟨_, _, _, _, rfl, Option.some_ne_none _, rfl, rfl, List.cons_ne_nil _ _, rfl, ?_⟩
  simp only [InSync, handwritten, Disk.ofNode]
  decide

end IndexFile

end KindQuery
