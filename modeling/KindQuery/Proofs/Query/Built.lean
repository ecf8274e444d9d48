import KindQuery.Proofs.Query.Grammar
import Mathlib.Data.List.Induction
/-!
# Fragments that stay

A query under construction changes by pushes, and by removals of its condition.
What is there in the end is told by the steps that led there: which push a
singleton comes from (`mem_run_iff`), what has come in between two removals
(`fragments_run_append`), and what a removal takes away
(`removeCondition_fst_iff`). `Ast.disciplined_build` has all three. A singleton
is recognised by its kind alone, so that its text is the one of the first push;
only a removal makes room for another one.
-/

namespace KindQuery

/-! ## Fragments that are kept -/

namespace Fragment

/-- A fragment that is kept where kinds have been seen. Of a kind of singletons
only the first one is. -/
def IsKept (seen : List Kind) (f : Fragment) : Prop := f.isSingleton = true → f.kindOf ∉ seen

instance (seen : List Kind) (f : Fragment) : Decidable (f.IsKept seen) :=
  inferInstanceAs (Decidable (_ → _))

/-- **Those of several fragments that are kept**, in their order. -/
def kept (seen : List Kind) : List Fragment → List Fragment
  | [] => []
  | f :: fs => (if f.IsKept seen then [f] else []) ++ kept (f.kindOf :: seen) fs

variable {seen seen' : List Kind} {f : Fragment}

theorem isKept_of_not_isSingleton (hf : f.isSingleton = false) : f.IsKept seen :=
  fun h => nomatch hf.symm.trans h

/-- It matters which kinds have been seen, not how often. -/
theorem kept_congr (same : ∀ k, k ∈ seen ↔ k ∈ seen') (fs : List Fragment) :
    kept seen fs = kept seen' fs := by
  induction fs generalizing seen seen' with
  | nil => rfl
  | cons f fs ih =>
    have rest : kept (f.kindOf :: seen) fs = kept (f.kindOf :: seen') fs :=
      ih fun k => by rw [List.mem_cons, List.mem_cons, same]
    have keeps : f.IsKept seen ↔ f.IsKept seen' := by rw [IsKept, IsKept, same]
    exact congrArg₂ (· ++ ·) (if_congr keeps rfl rfl) rest

/-- **All fragments that may repeat are kept.** -/
theorem filter_kept (seen : List Kind) (fs : List Fragment) :
    ((kept seen fs).filter fun f => !f.isSingleton) = fs.filter fun f => !f.isSingleton := by
  induction fs generalizing seen with
  | nil => rfl
  | cons f fs ih =>
    rw [kept, List.filter_append, ih]
    cases hf : f.isSingleton with
    | true =>
      have none : ((if f.IsKept seen then [f] else []).filter fun f => !f.isSingleton) = [] := by
        split <;> simp [hf]
      rw [none, List.filter_cons_of_neg (by simp [hf]), List.nil_append]
    | false =>
      rw [if_pos (isKept_of_not_isSingleton hf), ← List.filter_append, List.singleton_append]

/-- Only the mark of the condition is of its kind. -/
theorem eq_condition (h : f.kindOf = Kind.condition) : f = .condition := by
  cases f <;> first | rfl | cases h

end Fragment

namespace Ast

open Fragment (kept eq_condition)

variable {a b : Ast} {f g : Fragment}

/-! ## Pushes and removals -/

/-- The kinds of the fragments that are there. -/
def kinds (a : Ast) : List Fragment.Kind := a.fragments.map Fragment.kindOf

theorem contains_iff : a.contains f = true ↔ f.kindOf ∈ a.kinds := by
  simp only [contains, kinds, List.any_eq_true, beq_iff_eq, List.mem_map]

theorem contains_of_mem (h : f ∈ a.fragments) : a.contains f = true :=
  contains_iff.2 (List.mem_map_of_mem h)

/-- **What a push adds.** -/
theorem fragments_push_eq (a : Ast) (f : Fragment) :
    (a.push f).fragments = a.fragments ++ if f.IsKept a.kinds then [f] else [] := by
  have drops : (f.isSingleton && a.contains f) = true ↔ ¬ f.IsKept a.kinds := by
    rw [Fragment.IsKept, Classical.not_imp, not_not, Bool.and_eq_true, contains_iff]
  unfold push
  split
  next h => rw [if_neg (drops.1 h), List.append_nil]
  next h => rw [if_pos (not_not.1 (mt drops.2 h))]

theorem mem_push : g ∈ (a.push f).fragments ↔ g ∈ a.fragments ∨ g = f ∧ f.IsKept a.kinds := by
  rw [fragments_push_eq, List.mem_append]
  refine or_congr_right ?_
  split
  next h => rw [List.mem_singleton, and_iff_left h]
  next h => simp [h]

/-- Afterwards there is a fragment of the kind that is pushed, kept or not. -/
theorem mem_kinds_push {k : Fragment.Kind} :
    k ∈ (a.push f).kinds ↔ k ∈ f.kindOf :: a.kinds := by
  rw [kinds, fragments_push_eq, List.map_append, List.mem_append, List.mem_cons, or_comm]
  split
  next => rw [List.map_singleton, List.mem_singleton]; rfl
  next dropped =>
    have seen : f.kindOf ∈ a.kinds := by
      rw [Fragment.IsKept, Classical.not_imp, not_not] at dropped
      exact dropped.2
    constructor
    · rintro (h | h)
      · cases h
      · exact .inr h
    · rintro (rfl | h)
      · exact .inr seen
      · exact .inr h

/-- A fragment that has its kind to itself is there if one of the kind is. -/
theorem contains_iff_mem (alone : ∀ g : Fragment, g.kindOf = f.kindOf → g = f) :
    a.contains f = true ↔ f ∈ a.fragments := by
  rw [contains_iff, kinds, List.mem_map]
  constructor
  · rintro ⟨g, hg, kind⟩
    rwa [← alone g kind]
  · exact fun h => ⟨f, h, rfl⟩

theorem hasCondition_iff : a.hasCondition = true ↔ .condition ∈ a.fragments :=
  contains_iff_mem fun _ => eq_condition

/-- **A condition is removed** just if there is one, and it refers to no
property. -/
theorem removeCondition_fst_iff :
    a.removeCondition.1 = true ↔ .condition ∈ a.fragments ∧ ∀ name, .member name ∉ a.fragments := by
  have unreferred : a.fragments.any Fragment.isMember = false ↔
      ∀ name, .member name ∉ a.fragments := by
    rw [List.any_eq_false]
    constructor
    · exact fun h name mem => h _ mem rfl
    · intro h f hf member
      cases f with
      | member name => exact h name hf
      | _ => cases member
  rw [← hasCondition_iff, ← unreferred, removeCondition]
  cases a.hasCondition <;> cases a.fragments.any Fragment.isMember <;> simp

/-- **What a removal leaves**: all singletons but the mark of the condition. -/
theorem fragments_removeCondition (h : a.removeCondition.1 = true) :
    a.removeCondition.2.fragments =
      a.fragments.filter fun f => f.isSingleton && f != .condition := by
  unfold removeCondition at h ⊢
  split at h
  next c => rw [if_pos c]
  next => cases h

/-- Otherwise nothing changes. -/
theorem removeCondition_snd (h : a.removeCondition.1 = false) : a.removeCondition.2 = a := by
  unfold removeCondition at h ⊢
  split at h
  next => cases h
  next c => rw [if_neg c]

theorem removeCondition_sublist (a : Ast) :
    a.removeCondition.2.fragments.Sublist a.fragments := by
  cases h : a.removeCondition.1 with
  | true =>
    rw [fragments_removeCondition h]
    exact List.filter_sublist
  | false => rw [removeCondition_snd h]

/-! ## Steps -/

/-- A call that changes a query under construction. -/
inductive Change where
  | push (f : Fragment)
  | extend (fs : List Fragment)
  | removeCondition
deriving DecidableEq, Repr

/-- A change that concerns one fragment, or the condition. -/
inductive Step where
  | push (f : Fragment)
  | removeCondition
deriving DecidableEq, Repr

/-- The fragment that a step pushes. -/
def Step.pushed? : Step → Option Fragment
  | .push f => some f
  | .removeCondition => none

/-- Several fragments are pushed one by one. -/
def Change.steps : Change → List Step
  | .push f => [.push f]
  | .extend fs => fs.map .push
  | .removeCondition => [.removeCondition]

/-- The query after a change. -/
def change (a : Ast) : Change → Ast
  | .push f => a.push f
  | .extend fs => a.extend fs
  | .removeCondition => a.removeCondition.2

/-- The query after a step. -/
def step (a : Ast) : Step → Ast
  | .push f => a.push f
  | .removeCondition => a.removeCondition.2

/-- The query that changes make out of nothing. -/
def build (changes : List Change) : Ast := changes.foldl change .empty

/-- The query that steps make out of nothing. -/
def run (steps : List Step) : Ast := steps.foldl step .empty

variable {st : Step} {steps before after : List Step}

theorem build_eq_run (changes : List Change) :
    build changes = run (changes.flatMap Change.steps) := by
  have each : ∀ a c, change a c = (Change.steps c).foldl step a := by
    intro a c
    cases c with
    | push f | removeCondition => rfl
    | extend fs =>
      rw [Change.steps, List.foldl_map]
      rfl
  rw [build, run, List.foldl_flatMap]
  congr
  funext a c
  exact each a c

theorem run_concat (steps : List Step) (st : Step) : run (steps ++ [st]) = (run steps).step st := by
  rw [run, List.foldl_append]
  rfl

/-- A singleton that is there stays, as long as there is one of its kind. -/
theorem mem_step (hf : f.isSingleton = true) (h : f ∈ a.fragments)
    (there : (a.step st).contains f = true) : f ∈ (a.step st).fragments := by
  cases st with
  | push g => exact mem_push.2 (.inl h)
  | removeCondition =>
    change a.removeCondition.2.contains f = true at there
    change f ∈ a.removeCondition.2.fragments
    cases removed : a.removeCondition.1 with
    | false => rwa [removeCondition_snd removed]
    | true =>
      rw [contains_iff, kinds, fragments_removeCondition removed] at there
      rw [fragments_removeCondition removed, List.mem_filter, hf, Bool.true_and, bne_iff_ne]
      refine ⟨h, ?_⟩
      -- The kind that is removed has gone, so the singleton is of another one.
      rintro rfl
      obtain ⟨g, hg, kind⟩ := List.mem_map.1 there
      obtain rfl := eq_condition kind
      simp at hg

/-- A singleton that a step brings is pushed where there is none of its kind. -/
theorem eq_push_of_mem_step (hf : f.isSingleton = true) (h : f ∈ (a.step st).fragments)
    (new : f ∉ a.fragments) : st = .push f ∧ a.contains f = false := by
  cases st with
  | removeCondition => exact absurd ((removeCondition_sublist a).subset h) new
  | push g =>
    obtain ⟨rfl, keeps⟩ := (mem_push.1 h).resolve_left new
    exact ⟨rfl, Bool.eq_false_iff.2 fun there => keeps hf (contains_iff.1 there)⟩

/-! ## Singletons -/

theorem Singular.of_sublist (h : a.Singular) (hb : b.fragments.Sublist a.fragments) :
    b.Singular := fun f hf => hb.countP_le.trans (h f hf)

/-- **There is one singleton of a kind at most**, whatever has been done. -/
theorem singular_run (steps : List Step) : (run steps).Singular := by
  induction steps using List.reverseRecOn with
  | nil => exact fun _ _ => Nat.zero_le 1
  | append_singleton steps st ih =>
    rw [run_concat]
    cases st with
    | push f => exact ih.push f
    | removeCondition => exact ih.of_sublist (removeCondition_sublist _)

/-- **The push that a singleton comes from**: it was the first one since there had
been none of the kind, and since then there has always been one. -/
structure Brings (steps : List Step) (f : Fragment) (before after : List Step) : Prop where
  split : steps = before ++ .push f :: after
  absent : (run before).contains f = false
  present : ∀ mid, mid <+: after → (run (before ++ .push f :: mid)).contains f = true

/-- **A singleton that is there** is the fragment of such a push, and each such
push has its fragment there. -/
theorem mem_run_iff (hf : f.isSingleton = true) :
    f ∈ (run steps).fragments ↔ ∃ before after, Brings steps f before after := by
  induction steps using List.reverseRecOn with
  | nil =>
    constructor
    · nofun
    · rintro ⟨before, after, split, -, -⟩
      cases before <;> cases split
  | append_singleton steps st ih =>
    have assoc : ∀ (before after : List Step) (last : Step),
        before ++ .push f :: (after ++ [last]) = (before ++ .push f :: after) ++ [last] := by simp
    rw [run_concat]
    constructor
    · intro h
      by_cases old : f ∈ (run steps).fragments
      · obtain ⟨before, after, rfl, absent, present⟩ := ih.1 old
        refine ⟨before, after ++ [st], (assoc _ _ _).symm, absent, fun mid hmid => ?_⟩
        rcases List.prefix_concat_iff.1 hmid with rfl | hmid
        · rw [assoc, run_concat]
          exact contains_of_mem h
        · exact present mid hmid
      · obtain ⟨rfl, absent⟩ := eq_push_of_mem_step hf h old
        refine ⟨steps, [], rfl, absent, fun mid hmid => ?_⟩
        obtain rfl := List.prefix_nil.1 hmid
        rw [run_concat]
        exact contains_of_mem h
    · rintro ⟨before, after, split, absent, present⟩
      rcases List.eq_nil_or_concat after with rfl | ⟨after, last, rfl⟩
      · -- The last step is the push.
        obtain ⟨rfl, same⟩ := List.append_inj' split rfl
        obtain rfl := List.singleton_inj.1 same
        exact mem_push.2 (.inr ⟨rfl, fun _ seen => by simp [contains_iff.2 seen] at absent⟩)
      · rw [List.concat_eq_append] at split present
        obtain ⟨rfl, same⟩ := List.append_inj' (split.trans (assoc _ _ _)) rfl
        obtain rfl := List.singleton_inj.1 same
        have old := ih.2 ⟨before, after, rfl, absent, fun mid hmid =>
          present mid (hmid.trans (List.prefix_append _ _))⟩
        have there := present _ List.prefix_rfl
        rw [assoc, run_concat] at there
        exact mem_step hf old there

/-! ## Between removals -/

/-- No removal among later steps does anything. -/
def RemovesNothing (before after : List Step) : Prop :=
  ∀ front back, after = front ++ .removeCondition :: back →
    (run (before ++ front)).removeCondition.1 = false

theorem RemovesNothing.tail (h : RemovesNothing before (st :: after)) :
    RemovesNothing (before ++ [st]) after := by
  rintro front back rfl
  rw [List.append_assoc]
  exact h (st :: front) back rfl

/-- **Between removals a query grows** by those of the pushed fragments that are
kept, in the order in which they are pushed. -/
theorem fragments_run_append (h : RemovesNothing before after) :
    (run (before ++ after)).fragments =
      (run before).fragments ++ kept (run before).kinds (after.filterMap Step.pushed?) := by
  induction after generalizing before with
  | nil => simp [kept]
  | cons st after ih =>
    rw [List.append_cons, ih h.tail, run_concat]
    cases st with
    | removeCondition =>
      have idle : (run before).step .removeCondition = run before :=
        removeCondition_snd (by simpa using h [] after rfl)
      rw [idle]
      rfl
    | push f =>
      change ((run before).push f).fragments ++ kept ((run before).push f).kinds _ = _
      rw [Fragment.kept_congr fun _ => mem_kinds_push, fragments_push_eq, List.append_assoc]
      rfl

/-- **What a query has kept** of the steps that have led to it. -/
structure Disciplined (steps : List Step) (a : Ast) : Prop where
  /-- No kind of singletons has two fragments. -/
  singular : a.Singular
  /-- A singleton is that of its first push since there was none of its kind. -/
  first : ∀ f : Fragment, f.isSingleton = true →
    (f ∈ a.fragments ↔ ∃ before after, Brings steps f before after)
  /-- As long as nothing is removed, the pushed fragments that are kept come in
  behind those that were there. -/
  grows : ∀ before after, steps = before ++ after → RemovesNothing before after →
    a.fragments =
      (run before).fragments ++ kept (run before).kinds (after.filterMap Step.pushed?)
  /-- So do all those that may repeat. -/
  repeats : ∀ before after, steps = before ++ after → RemovesNothing before after →
    (a.fragments.filter fun f => !f.isSingleton) =
      ((run before).fragments.filter fun f => !f.isSingleton) ++
        (after.filterMap Step.pushed?).filter fun f => !f.isSingleton
  /-- The condition can be removed if there is one that refers to no property. -/
  removes : a.removeCondition.1 = true ↔
    .condition ∈ a.fragments ∧ ∀ name, .member name ∉ a.fragments
  /-- Its mark goes then, and everything that may repeat. -/
  leaves : a.removeCondition.1 = true → a.removeCondition.2.fragments =
    a.fragments.filter fun f => f.isSingleton && f != .condition
  /-- Otherwise nothing goes. -/
  keeps : a.removeCondition.1 = false → a.removeCondition.2 = a

/-- **Whatever calls build a query, its fragments follow from them.** There is one
singleton of a kind, from the first push since there was none; all else that is
pushed stays until the condition is removed, and everything in the order in
which it was pushed. -/
theorem disciplined_build (changes : List Change) :
    Disciplined (changes.flatMap Change.steps) (build changes) := by
  rw [build_eq_run]
  generalize changes.flatMap Change.steps = steps
  refine ⟨singular_run steps, fun f hf => mem_run_iff hf, ?_, ?_, removeCondition_fst_iff,
    fragments_removeCondition, removeCondition_snd⟩
  · rintro before after rfl quiet
    exact fragments_run_append quiet
  · rintro before after rfl quiet
    rw [fragments_run_append quiet, List.filter_append, Fragment.filter_kept]

/-- The condition goes, and the conjunctions with it. The first kind stays. -/
example :
    (build [.extend [.kind "Note", .condition, .and, .kind "Tag"], .removeCondition,
      .extend [.and, .condition]]).fragments = [.kind "Note", .and, .condition] := by
  decide

end Ast

end KindQuery
