import KindQuery.Proofs.Codec.Decimal
import KindQuery.Proofs.Codec.Typed
/-!
# Settled records

A record is loaded with its decimals settled. It is the same record as the
one with the decimals that were stored (`normalizeFieldsBy_sameEachBy`),
whatever doubles are compared by.
-/

namespace KindQuery

variable {catalog : Catalog} {nullable : FieldType → Prop} {eq : Double → Double → Bool}

theorem FieldType.zero_sameBy (he : ∀ x, eq x x = true) (type : FieldType) :
    type.zero.sameBy eq type.zero = true := by
  cases type with
  | enum variants =>
    rw [zero]
    split <;> simp [Value.sameBy]
  | double => simp [zero, Value.sameBy, he]
  | decimal =>
    simp only [zero, Value.sameBy]
    rfl
  | _ => simp [zero, Value.sameBy, Value.sameEachBy, Value.sameNamedBy]

theorem normalizeNamedBy_eq_map {onDecimal : Decimal → Decimal} {item : FieldType}
    {entries : List (String × Value)} :
    normalizeNamedBy catalog onDecimal entries item =
      entries.map fun e => (e.1, e.2.normalizeBy catalog onDecimal item) := by
  induction entries with
  | nil => rfl
  | cons e entries ih => rw [normalizeNamedBy, ih]; rfl

mutual

/-- **Settled decimals make no difference** between values. -/
theorem normalizeBy_sameBy (he : ∀ x, eq x x = true) : ∀ (v : Value) {type : FieldType},
    v.Conforms catalog nullable type →
    (v.normalizeBy catalog Decimal.settled type).sameBy eq (v.normalizeBy catalog id type) = true
  | .null, type, _ => type.zero_sameBy he
  | .decimal d, _, hv => by
    cases hv
    exact d.same_settled
  | .double x, _, hv => by
    cases hv
    exact he x
  | .list items, _, hv => by
    cases hv with
    | list hitems => exact normalizeEachBy_sameEachBy he items hitems
  | .map entries, _, hv => by
    cases hv with
    | @map item _ hnodup hentries =>
      rw [Value.normalizeBy, Value.normalizeBy, Value.sameBy, Bool.and_eq_true, beq_iff_eq]
      refine ⟨by simp [normalizeNamedBy_eq_map], normalizeNamedBy_sameNamedBy he entries hentries ?_⟩
      -- Names are not touched, so that an entry is found under its own.
      intro e hmem
      rw [normalizeNamedBy_eq_map]
      have hnames : (entries.map fun e => (e.1, e.2.normalizeBy catalog id item)).map Prod.fst =
          entries.map Prod.fst := by simp [Function.comp_def]
      refine Entries.find?_of_mem (e := (e.1, e.2.normalizeBy catalog id item)) ?_ ?_
      · rw [Entries.names, hnames]
        exact hnodup
      · exact List.mem_map_of_mem (f := fun e => (e.1, e.2.normalizeBy catalog id item)) hmem
  | .record fields, _, hv => by
    cases hv with
    | @record ref _ hl hvs =>
      refine normalizeFieldsBy_sameEachBy he fields ?_
      rw [Schema.map_fst_marked]
      exact hvs
  | .bool _, _, hv | .int16 _, _, hv | .int32 _, _, hv | .int64 _, _, hv | .text _, _, hv
  | .instant _, _, hv | .bytes _, _, hv | .variant _, _, hv => by
    cases hv
    simp [Value.normalizeBy, Value.sameBy]
  | .key _, _, hv => by cases hv

theorem normalizeEachBy_sameEachBy (he : ∀ x, eq x x = true) : ∀ (vs : List Value)
    {item : FieldType}, (∀ v ∈ vs, v.Conforms catalog nullable item) →
    Value.sameEachBy eq (normalizeEachBy catalog Decimal.settled vs item)
      (normalizeEachBy catalog id vs item) = true
  | [], _, _ => rfl
  | v :: vs, item, hvs => by
    rw [List.forall_mem_cons] at hvs
    rw [normalizeEachBy, normalizeEachBy, Value.sameEachBy, normalizeBy_sameBy he v hvs.1,
      normalizeEachBy_sameEachBy he vs hvs.2]
    rfl

theorem normalizeNamedBy_sameNamedBy (he : ∀ x, eq x x = true) :
    ∀ (entries : List (String × Value)) {item : FieldType} {others : Entries Value},
    (∀ e ∈ entries, e.2.Conforms catalog nullable item) →
    (∀ e ∈ entries, others.find? e.1 = some (e.2.normalizeBy catalog id item)) →
    Value.sameNamedBy eq others (normalizeNamedBy catalog Decimal.settled entries item) = true
  | [], _, _, _, _ => rfl
  | (name, v) :: entries, item, others, hvs, hothers => by
    rw [List.forall_mem_cons] at hvs hothers
    rw [normalizeNamedBy, Value.sameNamedBy, hothers.1,
      normalizeNamedBy_sameNamedBy he entries hvs.2 hothers.2]
    simp only [normalizeBy_sameBy he v hvs.1, Bool.and_true]

theorem normalizeFieldsBy_sameEachBy (he : ∀ x, eq x x = true) : ∀ (vs : List Value)
    {marks : List (Field × Bool)},
    (∀ p ∈ (marks.map Prod.fst).zip vs, p.2.Conforms catalog nullable p.1.type) →
    Value.sameEachBy eq (normalizeFieldsBy catalog Decimal.settled vs marks)
      (normalizeFieldsBy catalog id vs marks) = true
  | [], _, _ => rfl
  | v :: vs, [], _ => rfl
  | v :: vs, (f, stored) :: marks, hvs => by
    rw [List.map_cons, List.zip_cons_cons, List.forall_mem_cons] at hvs
    rw [normalizeFieldsBy, normalizeFieldsBy, Value.sameEachBy,
      normalizeFieldsBy_sameEachBy he vs hvs.2, Bool.and_true]
    cases stored with
    | true => exact normalizeBy_sameBy he v hvs.1
    | false => exact f.type.zero_sameBy he

end

theorem Value.sameEachBy_set {as bs : List Value} (h : sameEachBy eq as bs = true) {i : Nat}
    {a b : Value} (hab : a.sameBy eq b = true) : sameEachBy eq (as.set i a) (bs.set i b) = true := by
  induction as generalizing bs i with
  | nil =>
    cases bs with
    | nil => rfl
    | cons => cases h
  | cons x as ih =>
    cases bs with
    | nil => cases h
    | cons y bs =>
      rw [sameEachBy, Bool.and_eq_true] at h
      cases i with
      | zero => simp [sameEachBy, hab, h.2]
      | succ i => simp [sameEachBy, h.1, ih h.2]

end KindQuery
