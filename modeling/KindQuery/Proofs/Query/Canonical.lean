import KindQuery.Proofs.Query.Built
import KindQuery.Proofs.Query.Shown
/-!
# The canonical text

What a query is written as depends on the fragments that are written in place,
in their order, and on which marks there are: not on where the marks stand. It
can be written just if no text in it is empty, the two marks of an ordering come
together, and the policy has something for every parameter
(`Singular.render_eq_ok_iff`). Queries that are built call by call have each
mark at most once, so that this holds of them (`Ast.canonical_build`).
-/

namespace KindQuery

variable {p : Placeholder} {text : String}

/-! ## In place -/

namespace Fragment

variable {f : Fragment} {fs : List Fragment}

/-- **A fragment can be written** if its text is not empty, and the policy writes
its segment. -/
theorem inPlace_eq_ok_iff :
    f.inPlace p = .ok text ↔ f.Writable ∧ f.segment.write p = .ok text := by
  cases f with
  | param name =>
    constructor
    · intro h
      obtain ⟨_, hname, written⟩ := bind_eq_ok.1 h
      obtain ⟨some, rfl⟩ := requireText_eq_ok.1 hname
      exact ⟨some, written⟩
    · rintro ⟨some, written⟩
      exact bind_eq_ok.2 ⟨name, requireText_eq_ok.2 ⟨some, rfl⟩, written⟩
  | orderByField name =>
    constructor
    · intro h
      obtain ⟨_, hname, written⟩ := bind_eq_ok.1 h
      exact ⟨(requireText_eq_ok.1 hname).1, written⟩
    · rintro ⟨some, written⟩
      exact bind_eq_ok.2 ⟨name, requireText_eq_ok.2 ⟨some, rfl⟩, written⟩
  | projection t | kind t | member t | constant t =>
    refine requireText_eq_ok.trans (and_congr_right fun _ => ?_)
    exact ⟨fun h => congrArg _ h.symm, fun h => (Except.ok.inj h).symm⟩
  | select | source | condition | and | operator | take | skip | orderBy =>
    exact (and_iff_right trivial).symm

/-- The segments of fragments, one after the other, as a policy writes them. -/
def WrittenAs (p : Placeholder) (fs : List Fragment) (parts : List String) : Prop :=
  List.Forall₂ (fun f part => f.segment.write p = .ok part) fs parts

theorem pieces_iff_writtenAs : Pieces p fs text ↔
    (∀ f ∈ fs, f.Writable) ∧ ∃ parts, WrittenAs p fs parts ∧ String.join parts = text := by
  have each : ∀ parts, List.Forall₂ (fun f part => f.inPlace p = .ok part) fs parts ↔
      (∀ f ∈ fs, f.Writable) ∧ WrittenAs p fs parts := by
    intro parts
    simp only [inPlace_eq_ok_iff, WrittenAs]
    rw [List.forall₂_and_left]
  simp only [Pieces, mapM_eq_ok_iff, each, and_assoc, exists_and_left]

/-- Marks are not written in place, whatever the policy; a property that orders
must have a name. -/
theorem pieces_iff_unmarked : Pieces p fs text ↔ (∀ f ∈ fs, f.Writable) ∧
    ∃ parts, WrittenAs p (fs.filter fun f => !f.isMark) parts ∧ String.join parts = text := by
  have order : ∀ f ∈ fs.filter isOrder, f.inPlace p = .ok "" ↔ f.Writable := by
    intro f hf
    have segment : f.segment.write p = .ok "" := by
      have ordering := (List.mem_filter.1 hf).2
      cases f <;> first | rfl | cases ordering
    rw [inPlace_eq_ok_iff, and_iff_left segment]
  have all : (∀ f ∈ fs, f.Writable) ↔
      (∀ f ∈ fs.filter fun f => !f.isMark, f.Writable) ∧ ∀ f ∈ fs.filter isOrder, f.Writable := by
    constructor
    · exact fun h => ⟨fun f hf => h f (List.mem_filter.1 hf).1,
        fun f hf => h f (List.mem_filter.1 hf).1⟩
    · rintro ⟨unmarked, ordering⟩ f hf
      cases f with
      | take | skip => trivial
      | orderBy | orderByField => exact ordering _ (List.mem_filter.2 ⟨hf, rfl⟩)
      | _ => exact unmarked _ (List.mem_filter.2 ⟨hf, rfl⟩)
  rw [pieces_iff, pieces_iff_writtenAs, forall₂_congr order, all, and_right_comm]

end Fragment

open Fragment (WrittenAs)

namespace Ast

variable {a b : Ast}

/-! ## At the end -/

/-- **What an ordering is written as.** -/
inductive OrderText (a : Ast) : String → Prop
  | ordered {dir : Direction} {name : String} :
      .orderBy dir ∈ a.fragments → .orderByField name ∈ a.fragments →
      OrderText a (" ORDER BY " ++ name ++ " " ++ dir.symbol)
  | unordered : (∀ f ∈ a.fragments, f.isOrder = false) → OrderText a ""

/-- **What a limit or an offset is written as.** -/
inductive PageText (a : Ast) (p : Placeholder) (pg : Paging) (keyword : String) : String → Prop
  | paged {count : String} :
      pg.fragment ∈ a.fragments → p pg.paramName = .ok count →
      PageText a p pg keyword (keyword ++ count)
  | unpaged : pg.fragment ∉ a.fragments → PageText a p pg keyword ""

/-- **The canonical text of a query**: what is written in place, and behind it the
ordering, the limit and the offset. Blanks at both ends are dropped. -/
inductive CanonicalText (a : Ast) (p : Placeholder) : String → Prop
  | intro {parts : List String} {order limit offset : String} :
      WrittenAs p (a.fragments.filter fun f => !f.isMark) parts → OrderText a order →
      PageText a p .take " LIMIT " limit → PageText a p .skip " OFFSET " offset →
      CanonicalText a p (trim (String.join parts ++ order ++ limit ++ offset))

/-- **A query that can be written** under a policy. -/
structure WritableUnder (a : Ast) (p : Placeholder) : Prop where
  /-- No text in it is empty. -/
  texts : ∀ f ∈ a.fragments, f.Writable
  /-- A direction comes with a property, and the other way round. -/
  ordering : (∃ dir, .orderBy dir ∈ a.fragments) ↔ ∃ name, .orderByField name ∈ a.fragments
  /-- The policy has something for the parameters of conditions. -/
  params : ∀ name, .param name ∈ a.fragments → ∃ text, p name = .ok text
  /-- And for those of the limit and the offset. -/
  counts : ∀ pg : Paging, pg.fragment ∈ a.fragments → ∃ text, p pg.paramName = .ok text

/-- The same fragments with the marks in other places. -/
structure MovesMarks (a b : Ast) : Prop where
  perm : a.fragments.Perm b.fragments
  inPlace : (a.fragments.filter fun f => !f.isMark) = b.fragments.filter fun f => !f.isMark

/-! ## Marks that are there once -/

/-- A query has one singleton of a kind. -/
theorem Singular.eq_of_kindOf_eq (h : a.Singular) {f g : Fragment} (single : f.isSingleton = true)
    (hf : f ∈ a.fragments) (hg : g ∈ a.fragments) (kind : g.kindOf = f.kindOf) : g = f := by
  have mem : ∀ x ∈ a.fragments, x.kindOf = f.kindOf →
      x ∈ a.fragments.filter fun x => x.kindOf == f.kindOf :=
    fun x hx kind => List.mem_filter.2 ⟨hx, beq_iff_eq.2 kind⟩
  have atMost := h f single
  rw [List.countP_eq_length_filter] at atMost
  obtain ⟨x, only⟩ := List.length_eq_one_iff.1
    (le_antisymm atMost (List.length_pos_of_mem (mem f hf rfl)))
  rw [only] at mem
  exact (List.mem_singleton.1 (mem g hg kind)).trans (List.mem_singleton.1 (mem f hf rfl)).symm

namespace Singular

/-- What is picked first from a query is what is there, if only fragments of one
singleton kind can be picked. -/
theorem findSome?_eq_some_iff {β : Type} (h : a.Singular) (make : β → Fragment)
    {pick : Fragment → Option β} (picks : ∀ {f c}, pick f = some c ↔ f = make c)
    (single : ∀ c, (make c).isSingleton = true) (kind : ∀ c d, (make c).kindOf = (make d).kindOf)
    {c : β} : a.fragments.findSome? pick = some c ↔ make c ∈ a.fragments := by
  constructor
  · intro found
    obtain ⟨f, hf, picked⟩ := List.exists_of_findSome?_eq_some found
    rwa [← picks.1 picked]
  · intro mem
    cases first : a.fragments.findSome? pick with
    | none => cases (picks.2 rfl).symm.trans (List.findSome?_eq_none_iff.1 first _ mem)
    | some d =>
      obtain ⟨f, hf, picked⟩ := List.exists_of_findSome?_eq_some first
      obtain rfl := picks.1 picked
      rw [← picked, h.eq_of_kindOf_eq (single c) mem hf (kind d c)]
      exact picks.2 rfl

theorem direction?_eq_some_iff (h : a.Singular) {dir : Direction} :
    a.direction? = some dir ↔ .orderBy dir ∈ a.fragments := by
  refine h.findSome?_eq_some_iff .orderBy ?_ (fun _ => rfl) fun _ _ => rfl
  intro f c
  cases f <;> simp

theorem orderedField?_eq_some_iff (h : a.Singular) {name : String} :
    a.orderedField? = some name ↔ .orderByField name ∈ a.fragments := by
  refine h.findSome?_eq_some_iff .orderByField ?_ (fun _ => rfl) fun _ _ => rfl
  intro f c
  cases f <;> simp

theorem orderClause_eq_ok_iff (h : a.Singular) : a.orderClause = .ok text ↔ a.OrderText text := by
  unfold orderClause
  constructor
  · intro written
    split at written
    next dir name hdir hname =>
      cases written
      exact .ordered (h.direction?_eq_some_iff.1 hdir) (h.orderedField?_eq_some_iff.1 hname)
    next hdir hname =>
      cases written
      refine .unordered fun f hf => ?_
      cases f with
      | orderBy dir => cases hdir.symm.trans (h.direction?_eq_some_iff.2 hf)
      | orderByField name => cases hname.symm.trans (h.orderedField?_eq_some_iff.2 hf)
      | _ => rfl
    next => cases written
  · rintro (⟨hdir, hname⟩ | unordered)
    · rw [h.direction?_eq_some_iff.2 hdir, h.orderedField?_eq_some_iff.2 hname]
    · have hdir : a.direction? = none := by
        rw [Option.eq_none_iff_forall_ne_some]
        exact fun dir found => nomatch unordered _ (h.direction?_eq_some_iff.1 found)
      have hname : a.orderedField? = none := by
        rw [Option.eq_none_iff_forall_ne_some]
        exact fun name found => nomatch unordered _ (h.orderedField?_eq_some_iff.1 found)
      rw [hdir, hname]

end Singular

theorem pagingClause_eq_ok_iff (pg : Paging) {keyword : String} :
    a.pagingClause p pg.fragment keyword pg.paramName = .ok text ↔
      a.PageText p pg keyword text := by
  have alone : ∀ g : Fragment, g.kindOf = pg.fragment.kindOf → g = pg.fragment := by
    intro g kind
    cases pg <;> cases g <;> first | rfl | cases kind
  have some : pg.paramName ≠ "" := by cases pg <;> decide
  unfold pagingClause
  cases there : a.contains pg.fragment with
  | true =>
    have mem := (contains_iff_mem alone).1 there
    rw [if_pos rfl, Placeholder.write, requireText_of_ne_empty some]
    constructor
    · intro h
      obtain ⟨count, written, joined⟩ := bind_eq_ok.1 h
      rw [← Except.ok.inj joined]
      exact .paged mem written
    · rintro (⟨-, written⟩ | absent)
      · exact bind_eq_ok.2 ⟨_, written, rfl⟩
      · exact absurd mem absent
  | false =>
    have absent : pg.fragment ∉ a.fragments := fun mem => by
      simp [contains_of_mem mem] at there
    rw [if_neg Bool.false_ne_true]
    constructor
    · rintro ⟨⟩
      exact .unpaged absent
    · rintro (⟨mem, -⟩ | -)
      · exact absurd mem absent
      · rfl

/-! ## Queries -/

/-- **What a query is written as**, and that its texts are not empty, is all that
writing it depends on. -/
theorem Singular.render_eq_ok_iff (h : a.Singular) :
    a.render p = .ok text ↔ (∀ f ∈ a.fragments, f.Writable) ∧ a.CanonicalText p text := by
  have take : ∀ {limit}, a.pagingClause p .take " LIMIT " Param.takeName = .ok limit ↔
      a.PageText p .take " LIMIT " limit := pagingClause_eq_ok_iff .take
  have skip : ∀ {offset}, a.pagingClause p .skip " OFFSET " Param.skipName = .ok offset ↔
      a.PageText p .skip " OFFSET " offset := pagingClause_eq_ok_iff .skip
  simp only [render, bind_eq_ok, h.orderClause_eq_ok_iff, take, skip]
  constructor
  · rintro ⟨pieces, written, order, horder, limit, hlimit, offset, hoffset, joined⟩
    obtain ⟨texts, parts, hparts, join⟩ := Fragment.pieces_iff_unmarked.1 ⟨pieces, written, rfl⟩
    rw [← Except.ok.inj joined, ← join]
    exact ⟨texts, .intro hparts horder hlimit hoffset⟩
  · rintro ⟨texts, ⟨hparts, horder, hlimit, hoffset⟩⟩
    obtain ⟨pieces, written, join⟩ := Fragment.pieces_iff_unmarked.2 ⟨texts, _, hparts, rfl⟩
    exact ⟨pieces, written, _, horder, _, hlimit, _, hoffset, by rw [join]⟩

theorem exists_orderText_iff : (∃ order, a.OrderText order) ↔
    ((∃ dir, .orderBy dir ∈ a.fragments) ↔ ∃ name, .orderByField name ∈ a.fragments) := by
  constructor
  · rintro ⟨_, ⟨hdir, hname⟩ | unordered⟩
    · exact iff_of_true ⟨_, hdir⟩ ⟨_, hname⟩
    · exact iff_of_false (fun ⟨_, h⟩ => nomatch unordered _ h) fun ⟨_, h⟩ => nomatch unordered _ h
  · intro together
    by_cases hdir : ∃ dir, .orderBy dir ∈ a.fragments
    · obtain ⟨name, hname⟩ := together.1 hdir
      exact ⟨_, .ordered hdir.choose_spec hname⟩
    · refine ⟨_, .unordered fun f hf => ?_⟩
      cases f with
      | orderBy dir => exact absurd ⟨dir, hf⟩ hdir
      | orderByField name => exact absurd (together.2 ⟨name, hf⟩) hdir
      | _ => rfl

theorem exists_pageText_iff {pg : Paging} {keyword : String} :
    (∃ t, a.PageText p pg keyword t) ↔ (pg.fragment ∈ a.fragments → ∃ t, p pg.paramName = .ok t) := by
  constructor
  · rintro ⟨_, ⟨-, written⟩ | absent⟩ mem
    · exact ⟨_, written⟩
    · exact absurd mem absent
  · intro written
    by_cases mem : pg.fragment ∈ a.fragments
    · exact ⟨_, .paged mem (written mem).choose_spec⟩
    · exact ⟨_, .unpaged mem⟩

theorem exists_forall₂_iff {α β : Type} {R : α → β → Prop} {xs : List α} :
    (∃ ys, List.Forall₂ R xs ys) ↔ ∀ x ∈ xs, ∃ y, R x y := by
  induction xs with
  | nil => exact iff_of_true ⟨[], .nil⟩ nofun
  | cons x xs ih =>
    constructor
    · rintro ⟨_, _ | ⟨hx, hxs⟩⟩
      exact List.forall_mem_cons.2 ⟨⟨_, hx⟩, ih.1 ⟨_, hxs⟩⟩
    · intro h
      obtain ⟨⟨y, hy⟩, rest⟩ := List.forall_mem_cons.1 h
      obtain ⟨ys, hys⟩ := ih.2 rest
      exact ⟨y :: ys, .cons hy hys⟩

/-- Only parameters are left to the policy. -/
theorem exists_writtenAs_iff {fs : List Fragment} : (∃ parts, WrittenAs p fs parts) ↔
    ∀ name, .param name ∈ fs → ∃ t, p name = .ok t := by
  unfold WrittenAs
  rw [exists_forall₂_iff]
  constructor
  · exact fun h name mem => h _ mem
  · intro resolved f hf
    cases f with
    | param name => exact resolved name hf
    | _ => exact ⟨_, rfl⟩

/-- **When a query can be written.** -/
theorem Singular.exists_render_iff (h : a.Singular) :
    (∃ text, a.render p = .ok text) ↔ a.WritableUnder p := by
  have params : (∃ parts, WrittenAs p (a.fragments.filter fun f => !f.isMark) parts) ↔
      ∀ name, .param name ∈ a.fragments → ∃ t, p name = .ok t := by
    rw [exists_writtenAs_iff]
    refine forall_congr' fun name => imp_congr_left ?_
    exact List.mem_filter.trans (and_iff_left rfl)
  simp only [h.render_eq_ok_iff]
  constructor
  · rintro ⟨text, texts, ⟨parts, order, limit, offset⟩⟩
    refine ⟨texts, exists_orderText_iff.1 ⟨_, order⟩, params.1 ⟨_, parts⟩, ?_⟩
    rintro (_ | _)
    · exact exists_pageText_iff.1 ⟨_, limit⟩
    · exact exists_pageText_iff.1 ⟨_, offset⟩
  · rintro ⟨texts, ordering, resolved, counts⟩
    obtain ⟨parts, hparts⟩ := params.2 resolved
    obtain ⟨order, horder⟩ := exists_orderText_iff.2 ordering
    obtain ⟨limit, hlimit⟩ := exists_pageText_iff.2 (counts .take)
    obtain ⟨offset, hoffset⟩ := exists_pageText_iff.2 (counts .skip)
    exact ⟨_, texts, .intro hparts horder hlimit hoffset⟩

namespace MovesMarks

theorem symm (h : MovesMarks a b) : MovesMarks b a := ⟨h.perm.symm, h.inPlace.symm⟩

theorem mem_iff (h : MovesMarks a b) {f : Fragment} : f ∈ a.fragments ↔ f ∈ b.fragments :=
  h.perm.mem_iff

theorem singular (h : MovesMarks a b) (once : a.Singular) : b.Singular :=
  fun f hf => (h.perm.countP_eq _).symm.le.trans (once f hf)

/-- **The canonical text does not move** with the marks. -/
theorem canonicalText (h : MovesMarks a b) (written : a.CanonicalText p text) :
    b.CanonicalText p text := by
  have page : ∀ {pg keyword t}, a.PageText p pg keyword t → b.PageText p pg keyword t := by
    rintro pg keyword t (⟨mem, count⟩ | absent)
    · exact .paged (h.mem_iff.1 mem) count
    · exact .unpaged (mt h.mem_iff.2 absent)
  have ordering : ∀ {t}, a.OrderText t → b.OrderText t := by
    rintro t (⟨hdir, hname⟩ | unordered)
    · exact .ordered (h.mem_iff.1 hdir) (h.mem_iff.1 hname)
    · exact .unordered fun f hf => unordered f (h.mem_iff.2 hf)
  obtain ⟨parts, order, limit, offset⟩ := written
  rw [h.inPlace] at parts
  exact .intro parts (ordering order) (page limit) (page offset)

theorem render_of_singular (h : MovesMarks a b) (once : a.Singular) (written : a.render p = .ok text) :
    b.render p = .ok text := by
  obtain ⟨texts, canonical⟩ := once.render_eq_ok_iff.1 written
  exact (h.singular once).render_eq_ok_iff.2
    ⟨fun f hf => texts f (h.mem_iff.2 hf), h.canonicalText canonical⟩

end MovesMarks

/-- **A query that is built call by call has a canonical text.** It can be written
if no text in it is empty, its ordering is complete and the policy has something
for each parameter. What it is written as does not depend on where its marks
stand, and neither does whether it can be. -/
theorem canonical_build (changes : List Change) (p : Placeholder) :
    ((∃ text, (build changes).render p = .ok text) ↔ (build changes).WritableUnder p) ∧
    (∀ text, (build changes).render p = .ok text ↔
      (build changes).WritableUnder p ∧ (build changes).CanonicalText p text) ∧
    ∀ b, MovesMarks (build changes) b →
      ∀ text, (build changes).render p = .ok text ↔ b.render p = .ok text := by
  have once : (build changes).Singular := build_eq_run changes ▸ singular_run _
  refine ⟨once.exists_render_iff, fun text => ⟨fun h => ⟨once.exists_render_iff.1 ⟨text, h⟩,
    (once.render_eq_ok_iff.1 h).2⟩, fun h => once.render_eq_ok_iff.2 ⟨h.1.texts, h.2⟩⟩,
    fun b moved text => ⟨moved.render_of_singular once,
      moved.symm.render_of_singular (moved.singular once)⟩⟩

/-- Persons over some age, with the marks in front of the condition. -/
def agedChanges : List Change :=
  [.extend [.select, .projection "*", .source, .kind "Person", .skip, .take], .push (.orderBy .desc),
    .push .skip, .extend [.orderByField "Age", .condition],
    .extend [.member "Age", .operator .gt, .param "p1"]]

/-- The same query with its marks in other places. -/
def aged : Ast :=
  ⟨[.orderByField "Age", .select, .projection "*", .source, .take, .kind "Person", .condition,
    .member "Age", .orderBy .desc, .operator .gt, .param "p1", .skip]⟩

/-- Both are the same text. A direction without a property cannot be written. -/
theorem canonical_build_aged :
    MovesMarks (build agedChanges) aged ∧
    aged.render .named =
      .ok "SELECT * FROM Person WHERE Age > @p1 ORDER BY Age DESC LIMIT @qlim OFFSET @qoffset" ∧
    ¬ ∃ text, (build [.push (.orderBy .desc)]).render .named = .ok text := by
  have moved : MovesMarks (build agedChanges) aged := ⟨by decide, by decide⟩
  refine ⟨moved, ((canonical_build agedChanges .named).2.2 aged moved _).1 rfl, fun written => ?_⟩
  obtain ⟨name, mem⟩ := ((canonical_build _ _).1.1 written).ordering.1 ⟨.desc, by decide⟩
  cases mem with
  | tail _ mem => cases mem

end Ast

end KindQuery
