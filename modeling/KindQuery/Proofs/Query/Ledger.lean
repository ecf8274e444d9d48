import KindQuery.Query.Translate
import Mathlib.Data.List.Nodup
/-!
# The ledger of a draft

While the stages of a pipeline are walked, fragments that are written in
place are mixed with marks for what is written at the end, and parameters
of conditions with those of counts. A *ledger* is what has been collected
in plain form. `Draft.Keeps` says that a draft is the record of a ledger,
and each way of adding to a draft adds to its ledger: what a translated
query looks like is read off the last ledger.
-/

namespace KindQuery

/-! ## Conditions among fragments -/

/-- A condition as it is written: a column, a comparison and the fragment
for what the column is compared with. -/
structure Written where
  column : String
  op : Comparison
  operand : Fragment
deriving DecidableEq, Repr

namespace Fragment

/-- The condition that three fragments are: a member, an operator, and a
parameter or a constant. -/
def triple? : Fragment → Fragment → Fragment → Option Written
  | .member column, .operator op, .param name => some ⟨column, op, .param name⟩
  | .member column, .operator op, .constant text => some ⟨column, op, .constant text⟩
  | _, _, _ => none

/-- The condition that stands at the start of a sequence. -/
def written? : List Fragment → Option Written
  | f :: g :: h :: _ => triple? f g h
  | _ => none

/-- All conditions of a sequence, from left to right. -/
def written : List Fragment → List Written
  | [] => []
  | f :: fs => (written? (f :: fs)).toList ++ written fs

/-- A kind of fragments that mark what is written at the end. -/
def Kind.isMark : Kind → Bool
  | .take | .skip | .orderBy | .orderByField => true
  | _ => false

/-- A kind of fragments that belong to the ordering. -/
def Kind.isOrder : Kind → Bool
  | .orderBy | .orderByField => true
  | _ => false

/-- Does the fragment mark what is written at the end? -/
def isMark (f : Fragment) : Bool := f.kindOf.isMark

/-- Does the fragment belong to the ordering? -/
def isOrder (f : Fragment) : Bool := f.kindOf.isOrder

/-- Does the fragment continue a condition that has begun before it? -/
def continues : Fragment → Bool
  | .operator _ | .param _ | .constant _ => true
  | _ => false

/-- The name of a placeholder. -/
def paramName? : Fragment → Option String
  | .param name => some name
  | _ => none

theorem isMark_of_isOrder {f : Fragment} (h : f.isOrder = true) : f.isMark = true := by
  unfold isOrder at h
  unfold isMark
  generalize f.kindOf = k at h
  cases k <;> first | rfl | cases h

theorem triple?_of_snd {f g h : Fragment} (hg : g.continues = false) : triple? f g h = none := by
  unfold triple?
  split <;> first | rfl | cases hg

theorem triple?_of_trd {f g h : Fragment} (hh : h.continues = false) : triple? f g h = none := by
  unfold triple?
  split <;> first | rfl | cases hh

theorem triple?_of_fst {f g h : Fragment} (hf : f.isMember = false) : triple? f g h = none := by
  unfold triple?
  split <;> first | rfl | cases hf

/-- A condition starts with its member. -/
theorem written_cons {f : Fragment} {l : List Fragment} (hf : f.isMember = false) :
    written (f :: l) = written l := by
  have hn : written? (f :: l) = none := by
    match l with
    | [] | [_] => rfl
    | g :: h :: _ => exact triple?_of_fst hf
  rw [written, hn]
  rfl

theorem written?_append {l r : List Fragment} (hl : l ≠ [])
    (hr : ∀ f ∈ r.head?, f.continues = false) : written? (l ++ r) = written? l := by
  match l, r with
  | l, [] => rw [List.append_nil]
  | f :: g :: h :: l, r => rfl
  | [f, g], h :: r => exact triple?_of_trd (hr h rfl)
  | [f], [g] => rfl
  | [f], g :: h :: r => exact triple?_of_snd (hr g rfl)

/-- No condition reaches over a boundary that nothing continues. -/
theorem written_append {l r : List Fragment} (hr : ∀ f ∈ r.head?, f.continues = false) :
    written (l ++ r) = written l ++ written r := by
  induction l with
  | nil => rfl
  | cons f l ih =>
    -- What stands at `f` is the same, since `r` continues nothing before it.
    have hf : written? (f :: (l ++ r)) = written? (f :: l) :=
      written?_append (l := f :: l) (by simp) hr
    rw [List.cons_append, written, written, hf, ih, List.append_assoc]

end Fragment

namespace Ast

/-- All conditions that are written in a query. -/
def written (a : Ast) : List Written := Fragment.written a.fragments

variable {a : Ast} {f : Fragment}

/-- A mark belongs to no condition. -/
theorem written_push (hf : f.isMark = true) : (a.push f).written = a.written := by
  have hc : f.continues = false := by cases f <;> first | rfl | cases hf
  rcases fragments_push a f with h | h
  · rw [written, h, written]
  · have hm : f.isMember = false := by cases f <;> first | rfl | cases hf
    rw [written, h, Fragment.written_append (by simpa using hc), Fragment.written_cons hm, written]
    exact List.append_nil _

theorem filter_isMark_push (hf : f.isMark = true) :
    ((a.push f).fragments.filter fun g => !g.isMark) = a.fragments.filter fun g => !g.isMark := by
  rcases fragments_push a f with h | h <;> simp [h, hf]

theorem filter_isOrder_push (hf : f.isOrder = false) :
    (a.push f).fragments.filter Fragment.isOrder = a.fragments.filter Fragment.isOrder := by
  rcases fragments_push a f with h | h <;> simp [h, hf]

/-- Fragments of one kind can be looked for among those that share a
property of kinds. -/
theorem contains_eq_any_filter (a : Ast) {p : Fragment.Kind → Bool} (hf : p f.kindOf = true) :
    a.contains f = (a.fragments.filter fun g => p g.kindOf).any (·.kindOf == f.kindOf) := by
  rw [List.any_filter, contains]
  congr 1
  funext g
  by_cases hg : g.kindOf = f.kindOf
  · simp [hg, hf]
  · simp [hg]

end Ast

namespace Condition

/-- Conditions as they are written when `n` parameters have been bound
before. -/
def written (n : Nat) : List Condition → List Written
  | [] => []
  | c :: cs =>
    ⟨c.column, c.op,
      if c.bindsParam then .param (Param.numberedName (n + 1)) else .constant "NULL"⟩ ::
      written (if c.bindsParam then n + 1 else n) cs

theorem written_append {n : Nat} {xs ys : List Condition} :
    written n (xs ++ ys) = written n xs ++ written (n + xs.countP bindsParam) ys := by
  induction xs generalizing n with
  | nil => rfl
  | cons x xs ih => rw [List.cons_append, written, ih, countP_bindsParam_cons]; rfl

/-- A clause has its conditions written in it, and no others. -/
theorem written_clause {n : Nat} {cs : List Condition} :
    Fragment.written (clause n cs) = written n cs := by
  have hone : ∀ m (c : Condition), Fragment.written (c.fragments m) =
      [⟨c.column, c.op,
        if c.bindsParam then .param (Param.numberedName m) else .constant "NULL"⟩] := by
    intro m c
    cases hb : c.bindsParam <;>
      simp [fragments, hb, Fragment.written, Fragment.written?, Fragment.triple?]
  induction cs generalizing n with
  | nil => rfl
  | cons c cs ih =>
    by_cases hcs : cs = []
    · subst hcs
      rw [clause, hone]
      rfl
    · rw [clause_cons hcs, Fragment.written_append (by simp [Fragment.continues]), hone, written,
        Fragment.written_cons rfl, ih]
      rfl

/-- The placeholders of a clause are those of the parameters it binds. -/
theorem filterMap_paramName?_clause {n : Nat} {cs : List Condition} :
    (clause n cs).filterMap Fragment.paramName? = (params n cs).map Param.name := by
  have hone : ∀ m (c : Condition), (c.fragments m).filterMap Fragment.paramName? =
      if c.bindsParam then [Param.numberedName m] else [] := by
    intro m c
    cases hb : c.bindsParam <;> simp only [fragments, hb, Bool.false_eq_true, if_true, if_false] <;> rfl
  induction cs generalizing n with
  | nil => rfl
  | cons c cs ih =>
    by_cases hcs : cs = []
    · subst hcs
      rw [clause, hone]
      cases hc : c.operand <;> simp [params, hc, bindsParam]
    · rw [clause_cons hcs, List.filterMap_append, hone, List.filterMap_cons, ih]
      cases hc : c.operand <;> simp [params, hc, bindsParam, Fragment.paramName?]

/-- The parameters of conditions are numbered without a gap. -/
theorem map_name_params {n : Nat} {cs : List Condition} :
    (params n cs).map Param.name =
      (List.range' (n + 1) (cs.countP bindsParam)).map Param.numberedName := by
  induction cs generalizing n with
  | nil => rfl
  | cons c cs ih =>
    cases hc : c.operand with
    | none => simp [params, hc, bindsParam, ih]
    | some v => simp [params, hc, bindsParam, ih, List.range'_succ]

theorem isReserved_of_mem_params {n : Nat} {cs : List Condition} {p : Param}
    (h : p ∈ params n cs) : p.isReserved = false := by
  induction cs generalizing n with
  | nil => simp [params] at h
  | cons c cs ih =>
    cases hc : c.operand with
    | none => exact ih (by simpa [params, hc] using h)
    | some v =>
      simp only [params, hc, List.mem_cons] at h
      rcases h with rfl | h
      · exact Param.isReserved_numberedName
      · exact ih h

end Condition

/-! ## Ledgers -/

/-- What has been collected while stages were walked. -/
structure Ledger where
  /-- The projected columns as query text. -/
  columns : String
  kind : String
  /-- The conditions in order. -/
  conditions : List Condition
  /-- The column that inequalities have compared. -/
  inequality : Option String
  shape : Shape
  order : Option (Direction × String)
  count : Paging → Option Int64

namespace Ledger

/-- The ledger before the first stage. -/
def start (s : Schema) (plan : Plan) : Ledger where
  columns := plan.columnText
  kind := s.name
  conditions := []
  inequality := none
  shape := .empty
  order := none
  count _ := none

/-- With what a predicate amounts to. -/
def require (l : Ledger) (c : Conjunction) : Ledger :=
  { l with
    conditions := l.conditions ++ c.conditions
    inequality := c.inequality
    shape := l.shape.union c.shape }

/-- With an ordering. -/
def setOrder (l : Ledger) (dir : Direction) (column : String) : Ledger :=
  { l with order := some (dir, column) }

/-- With a count. -/
def setCount (l : Ledger) (pg : Paging) (k : Int64) : Ledger :=
  { l with count := fun q => if q = pg then some k else l.count q }

/-- With the limit and the marks of a terminal stage. -/
def close (l : Ledger) (kind : Terminal) : Ledger :=
  { l with shape := l.shape.union (.ofMarks (Draft.terminalMarks kind)) }.setCount .take
    kind.fetchLimit

/-- The fragments of the `WHERE` clause. -/
def clause (l : Ledger) : List Fragment :=
  if l.conditions.isEmpty then [] else .condition :: Condition.clause 0 l.conditions

/-- The fragments that are written in place. -/
def inPlace (l : Ledger) : List Fragment :=
  [.select, .projection l.columns, .source, .kind l.kind] ++ l.clause

/-- The marks of the ordering. -/
def ordering (l : Ledger) : List Fragment :=
  match l.order with
  | some (dir, column) => [.orderBy dir, .orderByField column]
  | none => []

/-- The parameters that hold a count. -/
def pageParams (l : Ledger) (pg : Paging) : List Param :=
  (l.count pg).toList.map fun k => ⟨pg.paramName, .int64 k⟩

/-- The parameters of the conditions and of the counts. -/
def params (l : Ledger) : List Param :=
  Condition.params 0 l.conditions ++ l.pageParams .take ++ l.pageParams .skip

theorem nodup_names (l : Ledger) : (l.params.map Param.name).Nodup := by
  have hnum : ((Condition.params 0 l.conditions).map Param.name).Nodup := by
    rw [Condition.map_name_params]
    exact List.Nodup.map (fun _ _ h => Param.numberedName_inj.1 h) List.nodup_range'
  have hpage : ∀ pg, (l.pageParams pg).map Param.name =
      if (l.count pg).isSome then [pg.paramName] else [] := by
    intro pg
    cases hc : l.count pg <;> simp [pageParams, hc]
  have hfree : ∀ pg : Paging, pg.paramName ∉ (Condition.params 0 l.conditions).map Param.name := by
    intro pg hmem
    obtain ⟨p, hp, hn⟩ := List.mem_map.1 hmem
    have hr := Condition.isReserved_of_mem_params hp
    cases pg <;> simp [Param.isReserved, hn, Paging.paramName] at hr
  -- Numbers keep the names of conditions apart, and none of them is reserved.
  rw [params, List.map_append, List.map_append, hpage, hpage, List.append_assoc,
    List.nodup_append']
  refine ⟨hnum, ?_, ?_⟩
  · cases (l.count .take).isSome <;> cases (l.count .skip).isSome <;> decide
  · intro name hname hpaged
    rw [List.mem_append] at hpaged
    rcases hpaged with hp | hp
    all_goals
      split at hp
      · exact hfree _ (List.mem_singleton.1 hp ▸ hname)
      · cases hp

end Ledger

namespace Draft

/-- **The record of a ledger.** -/
structure Keeps (d : Draft) (l : Ledger) : Prop where
  /-- The conditions can be read back. -/
  written : d.ast.written = Condition.written 0 l.conditions
  /-- What is not a mark is written in place. -/
  inPlace : (d.ast.fragments.filter fun f => !f.isMark) = l.inPlace
  /-- The marks of the ordering come together. -/
  ordering : d.ast.fragments.filter Fragment.isOrder = l.ordering
  /-- The marks for counts are there with the counts. -/
  paging : ∀ pg : Paging, d.ast.contains pg.fragment = (l.count pg).isSome
  /-- Of the parameters, those that are not reserved belong to conditions. -/
  numbered : (d.params.filter fun p => !p.isReserved) = Condition.params 0 l.conditions
  /-- The reserved ones hold the counts. -/
  counts : ∀ pg : Paging, (d.params.filter fun p => p.name == pg.paramName) =
    l.pageParams pg
  /-- The number of parameters bound for conditions. -/
  bound : d.bound = l.conditions.countP Condition.bindsParam
  inequality : d.inequality = l.inequality
  shape : d.shape = l.shape

variable {s : Schema} {d : Draft} {l : Ledger}

theorem keeps_start {plan : Plan} : (start s plan).Keeps (.start s plan) where
  written := rfl
  inPlace := rfl
  ordering := rfl
  paging pg := by cases pg <;> rfl
  numbered := rfl
  counts _ := rfl
  bound := rfl
  inequality := rfl
  shape := rfl

/-- A predicate with conditions appends their clause. -/
theorem fragments_require {c : Conjunction} (hc : c.conditions ≠ []) :
    (d.require c).ast.fragments = d.ast.fragments ++
      (if d.ast.hasCondition then .and else .condition) ::
        Condition.clause d.bound c.conditions := by
  have hj : (d.ast.push (if d.ast.hasCondition then .and else .condition)).fragments =
      d.ast.fragments ++ [if d.ast.hasCondition then .and else .condition] := by
    cases hw : d.ast.hasCondition with
    | true => simp [Ast.push_of_not_isSingleton (f := .and) rfl]
    | false => simp [Ast.push_of_not_contains (f := .condition) hw]
  simp only [require, List.isEmpty_iff, hc, if_false]
  rw [Ast.extend_of_not_isSingleton fun f hf => Condition.isSingleton_of_mem_clause hf, hj]
  simp

/-- Nothing of what a predicate appends is a mark. -/
theorem isMark_of_mem_appended {b : Bool} {n : Nat} {cs : List Condition} {f : Fragment}
    (hf : f ∈ (if b then Fragment.and else .condition) :: Condition.clause n cs) :
    f.isMark = false := by
  rcases List.mem_cons.1 hf with rfl | hf
  · cases b <;> rfl
  · have hs := Condition.isSingleton_of_mem_clause hf
    cases f <;> first | rfl | cases hs

namespace Keeps

/-- The query has a `WHERE` when there is a condition. -/
theorem hasCondition_eq (h : d.Keeps l) : d.ast.hasCondition = !l.conditions.isEmpty := by
  rw [Ast.hasCondition, Ast.contains_eq_any_filter (p := fun k => !k.isMark) _ rfl]
  change (d.ast.fragments.filter fun f => !f.isMark).any _ = _
  rw [h.inPlace, Ledger.inPlace, Ledger.clause]
  cases l.conditions <;> simp [Fragment.kindOf]

/-- A `WHERE` has a member, so that the last draft never loses it. -/
theorem removeCondition_eq (h : d.Keeps l) : d.ast.removeCondition = (false, d.ast) := by
  cases hw : d.ast.hasCondition with
  | false => simp [Ast.removeCondition, hw]
  | true =>
    -- The column of the first condition is written in place.
    have hm : d.ast.fragments.any Fragment.isMember = true := by
      rw [h.hasCondition_eq] at hw
      obtain ⟨x, xs, hl⟩ : ∃ x xs, l.conditions = x :: xs :=
        List.exists_cons_of_ne_nil (by simpa using hw)
      have hx : Fragment.member x.column ∈ l.inPlace := by
        cases xs <;>
          simp [Ledger.inPlace, Ledger.clause, hl, Condition.clause, Condition.fragments]
      rw [← h.inPlace] at hx
      exact List.any_eq_true.2 ⟨_, (List.mem_filter.1 hx).1, rfl⟩
    simp [Ast.removeCondition, hm]

theorem finalAst_eq (h : d.Keeps l) : d.finalAst = d.ast := by
  rw [finalAst, h.removeCondition_eq]
  split <;> rfl

/-- And the marks of an ordering when one has been entered. -/
theorem contains_order (h : d.Keeps l) {f : Fragment} (hf : f.isOrder = true) :
    d.ast.contains f = l.order.isSome := by
  rw [Ast.contains_eq_any_filter (p := Fragment.Kind.isOrder) _ hf]
  change (d.ast.fragments.filter Fragment.isOrder).any _ = _
  rw [h.ordering, Ledger.ordering]
  rcases l.order with _ | ⟨dir, column⟩
  · rfl
  · cases f with
    | orderBy | orderByField => simp [Fragment.kindOf]
    | _ => cases hf

/-- The first ordering leaves its two marks. -/
theorem setOrder (h : d.Keeps l) (ho : l.order = none) (dir : Direction) (column : String) :
    Keeps { d with ast := (d.ast.push (.orderBy dir)).push (.orderByField column) }
      (l.setOrder dir column) where
  written := by rw [Ast.written_push rfl, Ast.written_push rfl]; exact h.written
  inPlace := by rw [Ast.filter_isMark_push rfl, Ast.filter_isMark_push rfl]; exact h.inPlace
  ordering := by
    have hd : d.ast.contains (.orderBy dir) = false := by rw [h.contains_order rfl, ho]; rfl
    have hc : (d.ast.push (.orderBy dir)).contains (.orderByField column) = false := by
      rw [Ast.contains_push, h.contains_order rfl, ho]
      rfl
    rw [Ast.push_of_not_contains hc, Ast.push_of_not_contains hd]
    simp [h.ordering, Ledger.ordering, ho, Ledger.setOrder, Fragment.isOrder, Fragment.kindOf,
      Fragment.Kind.isOrder]
  paging pg := by
    have hd : ((Fragment.orderBy dir).kindOf == pg.fragment.kindOf) = false := by cases pg <;> rfl
    have hc : ((Fragment.orderByField column).kindOf == pg.fragment.kindOf) = false := by
      cases pg <;> rfl
    rw [Ast.contains_push, Ast.contains_push, hd, hc, Bool.or_false, Bool.or_false]
    exact h.paging pg
  numbered := h.numbered
  counts := h.counts
  bound := h.bound
  inequality := h.inequality
  shape := h.shape

/-- A count is entered under the paging that it belongs to. -/
theorem bindCount (h : d.Keeps l) {pg : Paging} (k : Int64) (hn : l.count pg = none) :
    (d.bindCount pg k).Keeps (l.setCount pg k) where
  written := (Ast.written_push (by cases pg <;> rfl)).trans h.written
  inPlace := (Ast.filter_isMark_push (by cases pg <;> rfl)).trans h.inPlace
  ordering := (Ast.filter_isOrder_push (by cases pg <;> rfl)).trans h.ordering
  paging q := by
    rw [Draft.bindCount, Ast.contains_push, h.paging q]
    cases pg <;> cases q <;> simp [Ledger.setCount, Paging.fragment, Fragment.kindOf]
  numbered := by
    rw [Draft.bindCount, List.filter_append, h.numbered]
    cases pg <;> simp [Param.isReserved, Paging.paramName, Ledger.setCount]
  counts q := by
    rw [Draft.bindCount, List.filter_append, h.counts q]
    by_cases hq : q = pg
    · subst hq
      simp [hn, Ledger.setCount, Ledger.pageParams]
    · have hne : (pg.paramName == q.paramName) = false := by
        cases pg <;> cases q <;> first | rfl | exact absurd rfl hq
      simp [Ledger.setCount, Ledger.pageParams, hq, hne]
  bound := h.bound
  inequality := h.inequality
  shape := h.shape

/-- A terminal stage enters its limit. -/
theorem close (h : d.Keeps l) (kind : Terminal) (hn : l.count .take = none) :
    (d.close kind).Keeps (l.close kind) := by
  let d₁ := { d with shape := d.shape.union (.ofMarks (Draft.terminalMarks kind)) }
  let l₁ := { l with shape := l.shape.union (.ofMarks (Draft.terminalMarks kind)) }
  have h₁ : d₁.Keeps l₁ := { h with shape := by simp only [d₁, l₁, h.shape] }
  exact h₁.bindCount kind.fetchLimit hn

/-- The conditions of a predicate are entered at the end. -/
theorem require (h : d.Keeps l) (c : Conjunction) : (d.require c).Keeps (l.require c) := by
  by_cases hc : c.conditions = []
  · -- Nothing is written for a predicate without conditions.
    have hd : d.require c = { d with shape := d.shape.union c.shape, inequality := c.inequality } := by
      simp [Draft.require, hc]
    have hl : l.require c = { l with shape := l.shape.union c.shape, inequality := c.inequality } := by
      simp [Ledger.require, hc]
    rw [hd, hl]
    exact { h with inequality := rfl, shape := by simp only [h.shape] }
  have hfrags := fragments_require (d := d) hc
  have hmarks : ∀ f ∈ (if d.ast.hasCondition then Fragment.and else .condition) ::
      Condition.clause d.bound c.conditions, f.isMark = false :=
    fun f hf => isMark_of_mem_appended hf
  have hparams : (d.require c).params = d.params ++ Condition.params d.bound c.conditions := by
    simp [Draft.require, hc]
  constructor
  case written =>
    have hj : ∀ fs, Fragment.written
        ((if d.ast.hasCondition then Fragment.and else .condition) :: fs) = Fragment.written fs := by
      intro fs
      cases d.ast.hasCondition <;> exact Fragment.written_cons rfl
    have hw : Fragment.written d.ast.fragments = _ := h.written
    rw [Ast.written, hfrags, Fragment.written_append (by split <;> simp [Fragment.continues]), hj,
      hw, Condition.written_clause, h.bound, Ledger.require, Condition.written_append, Nat.zero_add]
  case inPlace =>
    rw [hfrags, List.filter_append, h.inPlace,
      List.filter_eq_self.2 fun f hf => by simp [hmarks f hf], h.hasCondition_eq, h.bound]
    -- The first clause opens the `WHERE`, and a later one is joined to it.
    cases hl : l.conditions with
    | nil => simp [Ledger.inPlace, Ledger.clause, Ledger.require, hl, hc]
    | cons x xs =>
      have happ := Condition.clause_append (n := 0) (List.cons_ne_nil x xs) hc
      rw [List.cons_append, Nat.zero_add] at happ
      simp [Ledger.inPlace, Ledger.clause, Ledger.require, hl, happ]
  case ordering =>
    rw [hfrags, List.filter_append, h.ordering, List.filter_eq_nil_iff.2, List.append_nil]
    · rfl
    · intro f hf ho
      exact Bool.false_ne_true ((hmarks f hf).symm.trans (Fragment.isMark_of_isOrder ho))
  case paging =>
    intro pg
    rw [Ast.contains, hfrags, List.any_append, ← Ast.contains, h.paging, List.any_eq_false.2,
      Bool.or_false]
    · rfl
    · intro f hf hk
      have hm := hmarks f hf
      rw [Fragment.isMark, eq_of_beq hk] at hm
      cases pg <;> cases hm
  case numbered =>
    have hall : ((Condition.params d.bound c.conditions).filter fun p => !p.isReserved) =
        Condition.params d.bound c.conditions :=
      List.filter_eq_self.2 fun p hp => by simp [Condition.isReserved_of_mem_params hp]
    rw [hparams, List.filter_append, h.numbered, hall, h.bound, Ledger.require,
      Condition.params_append, Nat.zero_add]
  case counts =>
    intro pg
    -- No condition binds a reserved name.
    have hnone : ((Condition.params d.bound c.conditions).filter fun p => p.name == pg.paramName) =
        [] := by
      refine List.filter_eq_nil_iff.2 fun p hp hn => ?_
      have hr := Condition.isReserved_of_mem_params hp
      cases pg <;> simp_all [Param.isReserved, Paging.paramName]
    rw [hparams, List.filter_append, hnone, List.append_nil]
    exact h.counts pg
  case bound => simp [Draft.require, hc, h.bound, Ledger.require]
  case inequality => simp [Draft.require, hc, Ledger.require]
  case shape => simp [Draft.require, hc, h.shape, Ledger.require]

/-- **The parameters** are those of the conditions and those that hold
counts, and no others. -/
theorem params_perm (h : d.Keeps l) : d.params.Perm l.params := by
  have hpage : ((d.params.filter fun p => p.isReserved).filter fun p => p.name == Param.takeName) =
      l.pageParams .take := by
    rw [List.filter_filter, ← h.counts .take]
    congr 1
    funext p
    cases ht : p.name == Param.takeName <;> simp [ht, Param.isReserved, Paging.paramName]
  have hskip : ((d.params.filter fun p => p.isReserved).filter
      fun p => !(p.name == Param.takeName)) = l.pageParams .skip := by
    rw [List.filter_filter, ← h.counts .skip]
    congr 1
    funext p
    cases ht : p.name == Param.takeName with
    | false => simp [ht, Param.isReserved, Paging.paramName]
    | true => simp [eq_of_beq ht, Paging.paramName, Param.takeName, Param.skipName]
  -- First what is not reserved is put in front, then of the rest the limit.
  refine (List.filter_append_perm (fun p => !p.isReserved) d.params).symm.trans ?_
  rw [h.numbered, Ledger.params, List.append_assoc]
  refine List.Perm.append_left _ ?_
  simp only [Bool.not_not]
  rw [← hpage, ← hskip]
  exact (List.filter_append_perm _ _).symm

/-- **No two parameters share a name.** -/
theorem nodup_names (h : d.Keeps l) : (d.params.map Param.name).Nodup :=
  (h.params_perm.map _).nodup_iff.2 l.nodup_names

/-- So that a parameter is found under its name. -/
theorem find?_name (h : d.Keeps l) {p : Param} (hp : p ∈ d.params) :
    Param.find? p.name d.params = some p.value :=
  Param.find?_of_mem h.nodup_names hp

end Keeps

end Draft

end KindQuery
