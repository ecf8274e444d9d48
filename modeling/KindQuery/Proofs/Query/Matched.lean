import KindQuery.Proofs.Codec.Unpersisted
import KindQuery.Proofs.Query.Evaluated
import KindQuery.Proofs.Query.Meaning
import KindQuery.Proofs.Query.Parameters
/-!
# Comparisons find what is stored

A value takes two ways to the store: in a record it becomes the property of
a field, and in a comparison the argument of a parameter. The two meet if a
record is to be found by the value that it holds. `compares_stored` says
that they do: the comparisons of a pipeline are written one for one, and the
argument of each is what any record that holds the constant is stored with.
-/

namespace KindQuery

/-! ## Comparisons -/

/-- A comparison of a member with a constant. -/
structure Compared where
  member : Member
  op : Comparison
  value : Value

/-- The constant that an operand is when some values have been read before. -/
def Expr.constantAfter? (log : ReadLog) : Expr → Option Value
  | .value v => some v
  | .captured c => some (c.next log)
  | _ => none

/-- The log after the captured values of an expression have been read. -/
def Expr.logAfter (log : ReadLog) (e : Expr) : ReadLog := log ++ e.captures.map Captured.id

mutual

/-- **The comparisons of a predicate** from left to right, when some values
have been read before. A boolean field is compared with the value it is to
have; a comparison whose constant comes first is turned round. -/
def Expr.compared (log : ReadLog) : Expr → List Compared
  | .member m => [⟨m, .eq, .bool true⟩]
  | .negation (.member m) => [⟨m, .eq, .bool false⟩]
  | .comparison (.member m) op rhs => (rhs.constantAfter? log).toList.map (⟨m, op, ·⟩)
  | .comparison lhs op (.member m) => (lhs.constantAfter? log).toList.map (⟨m, op.reverse, ·⟩)
  | .conjunction es => Expr.comparedOfAll log es
  | _ => []

/-- Those of several predicates one after the other. -/
def Expr.comparedOfAll (log : ReadLog) : List Expr → List Compared
  | [] => []
  | e :: es => e.compared log ++ Expr.comparedOfAll (e.logAfter log) es

end

/-- The comparisons of a stage. -/
def Stage.compared (log : ReadLog) (st : Stage) : List Compared :=
  (st.predicate?.map (Expr.compared log)).getD []

/-- Those of stages one after the other. -/
def Stage.comparedOfAll (log : ReadLog) : List Stage → List Compared
  | [] => []
  | st :: stages =>
    st.compared log ++ Stage.comparedOfAll (log ++ st.evaluated.map Captured.id) stages

/-- The comparisons of a pipeline. -/
def Pipeline.compared (p : Pipeline) (log : ReadLog) : List Compared :=
  Stage.comparedOfAll log p.stages

/-- The condition that a comparison amounts to. -/
def Compared.condition (s : Schema) (c : Compared) : Condition where
  column := s.columnOf c.member
  op := c.op
  operand := if c.value.isNull then none else some (s.readBeside (.member c.member) c.value)

/-! ## Conditions -/

variable {s : Schema} {i : Option String} {c : Conjunction} {m : Member} {v : Value}

theorem Schema.operandFor_eq {operand : Option Value} (h : s.operandFor m v = .ok operand) :
    operand = if v.isNull then none else some (s.readBeside (.member m) v) := by
  have read := Schema.getD_operandFor h
  rcases Schema.operandFor_eq_ok.1 h with
    ⟨rfl, rfl⟩ | ⟨present, -, rfl⟩ | ⟨-, ⟨name, rfl, rfl⟩ | ⟨k, rfl, rfl⟩⟩
  · rfl
  · rw [if_neg (by rw [present]; exact Bool.false_ne_true), ← read]
    rfl
  · exact congrArg some read
  · exact congrArg some read

theorem boolCondition_compared {wanted : Bool} (h : boolCondition s i m wanted = .ok c) :
    c.conditions = [Compared.condition s ⟨m, .eq, .bool wanted⟩] := by
  obtain ⟨column, hcolumn, -, rfl⟩ := boolCondition_eq_ok.1 h
  rw [← Schema.columnOf_eq hcolumn]
  rfl

theorem comparisonCondition_compared {op : Comparison}
    (h : comparisonCondition s i m op v = .ok c) :
    c.conditions = [Compared.condition s ⟨m, op, v⟩] := by
  obtain ⟨column, i', operand, hcolumn, -, hoperand, rfl⟩ := comparisonCondition_eq_ok.1 h
  rw [← Schema.columnOf_eq hcolumn, Schema.operandFor_eq hoperand]
  rfl

namespace Expr

variable {log log' : ReadLog}

theorem operand_eq_constant {e : Expr} (h : e.operand.after log = (.ok (.constant v), log')) :
    e.constantAfter? log = some v := by
  cases e with
  | captured c =>
    cases h
    rfl
  | _ => cases h <;> rfl

/-- What a comparison amounts to. -/
theorem conditions_comparison {lhs rhs : Expr} {op : Comparison} {l r : Operand} {log₁ : ReadLog}
    (hl : lhs.operand.after log = (.ok l, log₁)) (hr : rhs.operand.after log₁ = (.ok r, log'))
    (h : operandsCondition s i op l r = .ok c) :
    c.conditions = ((Expr.comparison lhs op rhs).compared log).map (Compared.condition s) := by
  rcases operandsCondition_eq_ok.1 h with ⟨m, v, rfl, rfl, h⟩ | ⟨m, v, rfl, rfl, h⟩
  · obtain ⟨rfl, rfl⟩ := operand_eq_member hl
    rw [comparisonCondition_compared h, compared, operand_eq_constant hr]
    rfl
  · obtain ⟨rfl, rfl⟩ := operand_eq_member hr
    have constant := operand_eq_constant hl
    rw [comparisonCondition_compared h]
    cases lhs with
    | value | captured =>
      rw [compared, constant]
      · rfl
      · nofun
    | _ => cases constant

mutual

/-- **A predicate amounts to its comparisons**, in their order. -/
theorem conditions_eq_compared : ∀ (e : Expr) {i : Option String} {c : Conjunction}
    {log log' : ReadLog}, (e.conditions s i).after log = (.ok c, log') →
    c.conditions = (e.compared log).map (Compared.condition s)
  | .value v, _, _, _, _, h => by
    obtain ⟨-, rfl⟩ := constantCondition_eq_ok.1 (Prod.mk.inj h).1
    rfl
  | .captured k, _, _, _, _, h => by
    obtain ⟨v, _, -, h⟩ := Reading.after_bind_eq_ok.1 h
    obtain ⟨-, rfl⟩ := constantCondition_eq_ok.1 (Prod.mk.inj h).1
    rfl
  | .member m, _, _, _, _, h => boolCondition_compared (Prod.mk.inj h).1
  | .negation (.member m), _, _, _, _, h => boolCondition_compared (Prod.mk.inj h).1
  | .negation (.value (.bool b)), _, _, _, _, h => by
    obtain ⟨-, rfl⟩ := constantCondition_eq_ok.1 (Prod.mk.inj h).1
    rfl
  | .negation (.captured k), _, _, _, _, h => by
    obtain ⟨v, _, -, h⟩ := Reading.after_bind_eq_ok.1 h
    obtain ⟨-, rfl⟩ := negatedConstant_eq_ok.1 (Prod.mk.inj h).1
    rfl
  | .conjunction es, _, _, _, _, h => conditionsOfAll_eq_compared es h
  | .comparison lhs op rhs, _, _, _, _, h => by
    cases op
    case ne => cases h
    all_goals
      obtain ⟨l, log₁, hl, h⟩ := Reading.after_bind_eq_ok.1 h
      obtain ⟨r, log₂, hr, h⟩ := Reading.after_bind_eq_ok.1 h
      exact conditions_comparison hl hr (Prod.mk.inj h).1

theorem conditionsOfAll_eq_compared : ∀ (es : List Expr) {i : Option String} {c : Conjunction}
    {log log' : ReadLog}, (conditionsOfAll s i es).after log = (.ok c, log') →
    c.conditions = (comparedOfAll log es).map (Compared.condition s)
  | [], _, _, _, _, h => by
    cases h
    rfl
  | e :: es, i, _, log, _, h => by
    obtain ⟨a, log₁, ha, h⟩ := Reading.after_bind_eq_ok.1 h
    obtain ⟨b, log₂, hb, h⟩ := Reading.after_bind_eq_ok.1 h
    cases h
    -- The operands that follow read what is captured after the first one has.
    have read : log₁ = e.logAfter log := logs_conditions s e i log a log₁ ha
    rw [comparedOfAll, List.map_append, ← read, ← conditions_eq_compared e ha,
      ← conditionsOfAll_eq_compared es hb]
    rfl

end

end Expr

namespace Ledger

variable {mode : Mode} {l l' : Ledger} {log log' : ReadLog}

/-- A stage adds its comparisons to the conditions. -/
theorem Step.conditions_eq {st : Stage} (h : Step s mode l log st l' log') :
    l'.conditions = l.conditions ++ (st.compared log).map (Compared.condition s) := by
  have none_added : l.conditions = l.conditions ++ [] := (List.append_nil _).symm
  cases h with
  | filter h | filterClose h =>
    exact congrArg (l.conditions ++ ·) (Expr.conditions_eq_compared _ h)
  | project | orderBy | close => exact none_added
  | page hst | repeated hst => cases st <;> cases hst <;> exact none_added

/-- In strict mode it reads what is evaluated in it. -/
theorem Step.log_eq {st : Stage} (h : Step s .strict l log st l' log') :
    log' = log ++ st.evaluated.map Captured.id := by
  cases h with
  | filter h | filterClose h => exact Expr.logs_conditions s _ _ log _ _ h
  | project | orderBy | close => exact (List.append_nil log).symm
  | page hst _ h => cases st <;> cases hst <;> exact Draft.logs_count _ _ log _ _ h
  | repeated _ hmode => cases hmode

/-- And so does a run. -/
theorem Run.conditions_eq {stages : List Stage} (h : Run s .strict l log stages l' log') :
    l'.conditions =
      l.conditions ++ (Stage.comparedOfAll log stages).map (Compared.condition s) := by
  induction h with
  | nil => exact (List.append_nil _).symm
  | cons step _ ih =>
    rw [ih, step.conditions_eq, Stage.comparedOfAll, step.log_eq, List.map_append,
      List.append_assoc]

end Ledger

/-! ## Arguments -/

namespace Condition

theorem length_written {n : Nat} {cs : List Condition} : (written n cs).length = cs.length := by
  induction cs generalizing n with
  | nil => rfl
  | cons c cs ih => rw [written, List.length_cons, ih, List.length_cons]

/-- A condition with a constant is written with a parameter, which holds the
constant. -/
theorem exists_param {n j : Nat} {cs : List Condition} {k : Condition} (h : cs[j]? = some k)
    (hv : k.operand = some v) :
    ∃ name, (written n cs)[j]? = some ⟨k.column, k.op, .param name⟩ ∧ ⟨name, v⟩ ∈ params n cs := by
  induction cs generalizing n j with
  | nil => cases h
  | cons c cs ih =>
    cases j with
    | zero =>
      cases h
      refine ⟨Param.numberedName (n + 1), ?_, ?_⟩
      · simp [written, bindsParam, hv]
      · simp [params, hv]
    | succ j =>
      have later : cs[j]? = some k := h
      cases hc : c.operand with
      | none => simpa [written, params, bindsParam, hc] using ih (n := n) later
      | some w =>
        obtain ⟨name, hwritten, hparam⟩ := ih (n := n + 1) later
        refine ⟨name, ?_, ?_⟩
        · simpa [written, bindsParam, hc] using hwritten
        · rw [params, hc]
          exact List.mem_cons_of_mem _ hparam

end Condition

/-- An argument is found where its parameter is. -/
theorem Compiled.exists_argument {q : Compiled} {b : BoundQuery} {name : String}
    (h : q.bind = .ok b) (hv : Param.find? name q.params = some v) :
    ∃ w, v.toWire = .ok w ∧ b.argument? name = some w := by
  have find : ∀ {ps : List Param} {args : List (String × Wire)}, Param.bindAll ps = .ok args →
      Param.find? name ps = some v →
      ∃ w, v.toWire = .ok w ∧ (args.find? fun a => a.1 == name).map Prod.snd = some w := by
    intro ps
    induction ps with
    | nil => exact fun _ hv => nomatch hv
    | cons x ps ih =>
      intro args hargs hv
      simp only [Param.bindAll, bind_eq_ok, Except.ok.injEq] at hargs
      obtain ⟨w, hw, ws, hws, rfl⟩ := hargs
      rw [Param.find?, List.find?_cons] at hv
      rw [List.find?_cons]
      cases hx : x.name == name with
      | true =>
        rw [hx] at hv
        cases hv
        exact ⟨w, hw, rfl⟩
      | false =>
        rw [hx] at hv
        exact ih hws hv
  simp only [bind, bind_eq_ok, Except.ok.injEq] at h
  obtain ⟨args, hargs, rfl⟩ := h
  exact find hargs hv

/-! ## What is stored -/

section Stored

variable {catalog : Catalog} {f : Field} {r : Record} {e : Entity} {place : Nat}

theorem Entries.mem_names_ofPairs {α : Type} {pairs : List (String × α)} {name : String} :
    name ∈ (Entries.ofPairs pairs).names ↔ name ∈ pairs.map Prod.fst := by
  have fold : ∀ (pairs : List (String × α)) (es : Entries α),
      name ∈ Entries.names (pairs.foldl (fun es (n, a) => Entries.insert n a es) es) ↔
        name ∈ es.names ∨ name ∈ pairs.map Prod.fst := by
    intro pairs
    induction pairs with
    | nil => simp
    | cons p pairs ih =>
      intro es
      rw [List.foldl_cons, ih, mem_names_insert, List.map_cons, List.mem_cons]
      tauto
  exact (fold pairs []).trans (by simp [names])

/-- A name under which only one thing is put has this in the end. -/
theorem Entries.find?_ofPairs {α : Type} {pairs : List (String × α)} {name : String} {a : α}
    (put : (name, a) ∈ pairs) (only : ∀ x ∈ pairs, x.1 = name → x.2 = a) :
    Entries.find? name (Entries.ofPairs pairs) = some a := by
  have fold : ∀ (pairs : List (String × α)) (es : Entries α),
      (∀ x ∈ pairs, x.1 = name → x.2 = a) → (name, a) ∈ pairs ∨ find? name es = some a →
      find? name (pairs.foldl (fun es (n, b) => insert n b es) es) = some a := by
    intro pairs
    induction pairs with
    | nil =>
      rintro es - (put | there)
      · cases put
      · exact there
    | cons x pairs ih =>
      intro es only put
      obtain ⟨onlyHere, onlyLater⟩ := List.forall_mem_cons.1 only
      refine ih _ onlyLater ?_
      rw [find?_insert]
      split
      next same => exact .inr (congrArg some (onlyHere same))
      next other =>
        rcases put with put | there
        · rcases List.mem_cons.1 put with rfl | put
          · exact absurd rfl other
          · exact .inl put
        · exact .inr there
  exact fold pairs [] only (.inl put)

/-- A field without parts is stored as one property, which holds its value as
it travels. -/
theorem encodeField_scalar {here : List (String × Property)} (scalar : f.type.isScalar = true)
    (present : v.isNull = false) (h : encodeField catalog f v = .ok here) :
    ∃ x : Property, v.toWire = .ok x.value ∧ here = [(f.name, x)] := by
  cases encodeField_encodes h with
  | null => cases present
  | whole _ _ hx => exact ⟨_, encodeWhole_eq_ok hx, rfl⟩
  | noItems htype | items htype | entries htype | record htype =>
    rw [htype] at scalar
    cases scalar

namespace Schema

/-- **A field that is stored and is not the key is written.** Under the name of
a field that does not hold maps nothing else is. -/
theorem exists_encodeField_of_encode (names : (s.fields.map Field.name).Nodup)
    (hf : s.fields[place]? = some f) (persisted : f.isPersisted = true)
    (notKey : s.keyIndex? ≠ some place) (h : s.encode catalog r = .ok e)
    (hr : r[place]? = some v) :
    ∃ here, encodeField catalog f v = .ok here ∧ (∀ x ∈ here, x.1 ∈ e.properties.names) ∧
      ((∀ item, f.type ≠ .map item) → ∀ x ∈ here, e.get? x.1 = some x.2) := by
  obtain ⟨check, pairs, hpairs, rfl⟩ := encode_eq_ok h
  have stored : (s.storedFields s.keyIndex?)[place]? = some (some f) :=
    getElem?_storedFields_eq_some_iff.2 ⟨hf, persisted, notKey⟩
  obtain ⟨here, hhere, sub⟩ := Record.exists_part_of_mem_slots hpairs
    (Record.mem_slots_iff.2 ⟨place, stored, by rw [hr, Option.getD_some]⟩)
  refine ⟨here, hhere, fun x hx => ?_, fun unflattened x hx => ?_⟩
  · exact Entries.mem_names_ofPairs.2 (List.mem_map_of_mem (sub hx))
  obtain ⟨p, rfl⟩ : ∃ p, here = [(f.name, p)] := by
    rcases encodeField_cases hhere with rfl | single | ⟨item, entries, htype, -⟩
    · cases hx
    · exact single
    · exact absurd htype (unflattened item)
  cases List.mem_singleton.1 hx
  refine Entries.find?_ofPairs (sub List.mem_cons_self) fun y hy same => ?_
  -- What is under the name belongs to a field of the name, so it is of this place.
  obtain ⟨⟨g, w⟩, hslot, there, hthere, hy⟩ := Record.exists_slot_of_mem hpairs hy
  obtain ⟨j, hg, hw⟩ := Record.mem_slots_iff.1 hslot
  have hg' : s.fields[j]? = some g := (getElem?_storedFields_eq_some_iff.1 hg).1
  have name : g.name = f.name := by
    rcases encodeField_isStoredAs hthere y hy with own | ⟨item, entry, -, -, flat⟩
    · exact own.symm.trans same
    · exact absurd (flat.symm.trans same)
        (flattenedName_ne_of_check check (List.mem_of_getElem? hf) g.name entry)
  have found := field?_of_getElem? names hg'
  rw [name, field?_of_getElem? names hf] at found
  cases found
  cases hg.symm.trans stored
  rw [hr, Option.getD_some] at hw
  cases hw
  cases hthere.symm.trans hhere
  rw [List.mem_singleton.1 hy]

/-- **A scalar field is stored under its name** and nothing else is. -/
theorem exists_get?_of_encode (names : (s.fields.map Field.name).Nodup)
    (hf : s.fields[place]? = some f) (persisted : f.isPersisted = true)
    (scalar : f.type.isScalar = true) (notKey : s.keyIndex? ≠ some place)
    (h : s.encode catalog r = .ok e) (hr : r[place]? = some v) (present : v.isNull = false) :
    ∃ x, e.get? f.name = some x ∧ v.toWire = .ok x.value := by
  obtain ⟨here, hhere, -, stored⟩ :=
    exists_encodeField_of_encode names hf persisted notKey h hr
  obtain ⟨x, travels, rfl⟩ := encodeField_scalar scalar present hhere
  have unflattened : ∀ item, f.type ≠ .map item := by
    intro item htype
    rw [htype] at scalar
    cases scalar
  exact ⟨x, stored unflattened _ (List.mem_singleton_self _), travels⟩

/-- With distinct names, the name of the key field is that of no other
field. -/
theorem isKey_iff (names : (s.fields.map Field.name).Nodup) (hf : s.fields[place]? = some f) :
    s.isKey f.name = true ↔ s.keyIndex? = some place := by
  refine ⟨fun h => ?_, isKey_of_keyIndex? hf⟩
  unfold isKey at h
  split at h
  next i g hkey =>
    have found := field?_of_getElem? names (getElem?_of_keyField? hkey)
    rw [eq_of_beq h, field?_of_getElem? names hf] at found
    cases found
    exact keyIndex?_of_keyField? hkey
  next => cases h

/-- **How a record that holds a value in a field is stored**: under the name of
a scalar field with this wire value, and if it is the key field and the value
names a key, under this key. -/
def StoresWith (catalog : Catalog) (s : Schema) (m : Member) (v : Value) (w : Wire) : Prop :=
  ∀ place f r e, s.fields[place]? = some f → m = ⟨[f.name]⟩ → s.encode catalog r = .ok e →
    r[place]? = some v →
    (f.isPersisted = true → f.type.isScalar = true → s.keyIndex? ≠ some place →
      ∃ x, e.get? f.name = some x ∧ x.value = w) ∧
    (s.keyIndex? = some place → ∀ t, v = .text t → isBlank t = false →
      ∃ k, e.key = some k ∧ w = .key k)

/-- A value that is read beside a member travels as it is stored. -/
theorem storesWith (names : (s.fields.map Field.name).Nodup) (present : v.isNull = false) {w : Wire}
    (hw : (s.readBeside (.member m) v).toWire = .ok w) (catalog : Catalog) :
    s.StoresWith catalog m v w := by
  rintro place f r e hf rfl h hr
  have key : s.isKeyMember ⟨[f.name]⟩ = true ↔ s.keyIndex? = some place := isKey_iff names hf
  refine ⟨fun persisted scalar notKey => ?_, fun hkey t text named => ?_⟩
  · obtain ⟨x, stored, travels⟩ :=
      exists_get?_of_encode names hf persisted scalar notKey h hr present
    have asIs : s.readBeside (.member ⟨[f.name]⟩) v = v := by
      have notKeyMember : s.isKeyMember ⟨[f.name]⟩ = false :=
        Bool.eq_false_iff.2 fun isKey => notKey (key.1 isKey)
      cases v <;> simp [readBeside, notKeyMember]
    rw [asIs, travels] at hw
    exact ⟨x, stored, Except.ok.inj hw⟩
  · subst text
    rw [readBeside, if_pos (key.2 hkey)] at hw
    exact ⟨_, key_of_encode hkey h hr named, (Except.ok.inj hw).symm⟩

end Schema

end Stored

/-! ## Pipelines -/

namespace Pipeline

variable {p : Pipeline} {log log' : ReadLog} {q : Compiled} {b : BoundQuery}

/-- **A stored value is found by its own comparison.** The conditions that are
written are the comparisons of the pipeline, one for one. The argument of each
is what every record that holds the constant in the field is stored with. -/
theorem compares_stored (names : (p.schema.fields.map Field.name).Nodup)
    (compiled : p.compile.after log = (.ok q, log')) (bound : q.bind = .ok b) :
    q.ast.written.length = (p.compared log).length ∧
      ∀ (j : Nat) m op v, (p.compared log)[j]? = some ⟨m, op, v⟩ → v.isNull = false →
        ∃ name w, q.ast.written[j]? = some ⟨p.schema.columnOf m, op, .param name⟩ ∧
          b.argument? name = some w ∧ ∀ catalog, p.schema.StoresWith catalog m v w := by
  obtain ⟨plan, d, l, behind⟩ := exists_behind compiled
  have conditions : l.conditions = (p.compared log).map (Compared.condition p.schema) :=
    behind.run.conditions_eq
  have written : q.ast.written =
      Condition.written 0 ((p.compared log).map (Compared.condition p.schema)) := by
    rw [behind.ast, behind.keeps.written, conditions]
  refine ⟨by rw [written, Condition.length_written, List.length_map], fun j m op v hj present => ?_⟩
  have condition : ((p.compared log).map (Compared.condition p.schema))[j]? =
      some (Compared.condition p.schema ⟨m, op, v⟩) := by
    rw [List.getElem?_map, hj]
    rfl
  obtain ⟨name, place, numbered⟩ := Condition.exists_param (n := 0) condition
    (if_neg (by rw [present]; exact Bool.false_ne_true))
  have param : ⟨name, p.schema.readBeside (.member m) v⟩ ∈ q.params := by
    rw [behind.params]
    refine List.mem_of_mem_filter (p := fun x => !x.isReserved) ?_
    rwa [behind.keeps.numbered, conditions]
  have value : Param.find? name q.params = some (p.schema.readBeside (.member m) v) := by
    rw [behind.params] at param ⊢
    exact behind.keeps.find?_name param
  obtain ⟨w, travels, argument⟩ := Compiled.exists_argument bound value
  refine ⟨name, w, ?_, argument, Schema.storesWith names present travels⟩
  rw [written, place]
  rfl

theorem sample_compares_stored :
    ∃ q log' b e name k x, sample.compile.after [] = (.ok q, log') ∧ q.bind = .ok b ∧
      sample.schema.encode ⟨[]⟩ [.text "ada", .bool true, .int32 5] = .ok e ∧
      q.ast.written[1]? = some ⟨keyColumn, .eq, .param name⟩ ∧
      b.argument? name = some (.key k) ∧ e.key = some k ∧
      b.argument? "p3" = some x ∧ (e.get? "Age").map Property.value = some x := by
  obtain ⟨q, log', b, e, compiled, bound, encoded⟩ :
      ∃ q log' b e, sample.compile.after [] = (.ok q, log') ∧ q.bind = .ok b ∧
        sample.schema.encode ⟨[]⟩ [.text "ada", .bool true, .int32 5] = .ok e :=
    ⟨_, _, _, _, rfl, rfl, rfl⟩
  obtain ⟨-, stored⟩ := compares_stored (by decide) compiled bound
  obtain ⟨name, w, written, argument, key⟩ := stored 1 _ _ _ rfl rfl
  obtain ⟨name', w', written', argument', age⟩ := stored 2 _ _ _ rfl rfl
  obtain ⟨k, hk, rfl⟩ := (key ⟨[]⟩ 0 _ _ e rfl rfl encoded rfl).2 rfl _ rfl (by decide)
  obtain ⟨x, hx, rfl⟩ := (age ⟨[]⟩ 2 _ _ e rfl rfl encoded rfl).1 rfl rfl (by decide)
  refine ⟨q, log', b, e, name, k, x.value, compiled, bound, encoded, written, argument, hk, ?_,
    congrArg (Option.map Property.value) hx⟩
  have third : q.ast.written[2]? = some ⟨"Age", .gt, .param "p3"⟩ := by
    cases compiled
    rfl
  rw [written'] at third
  cases third
  exact argument'

end Pipeline

end KindQuery
