import KindQuery.Codec.Decode
import KindQuery.Query.Projection
import KindQuery.Reading
/-!
# Projecting rows

Each row that the store returns is read with the selector of a plan. Rows
are read one at a time, when they are asked for; a row that cannot be read
gives an error in its own place and does not disturb the others.
-/

namespace KindQuery

/-- A wire value as the value of a projected column. The store may send a
moment as milliseconds since the start of 1970. -/
def Wire.toColumn (catalog : Catalog) (type : FieldType) (v : Wire) : Except Error Value :=
  match type, v with
  | .instant, .integer millis =>
    match Instant.ofMillis? millis.toInt with
    | some t => .ok (.instant t)
    | none => Fault.raise (.conversion (toString millis.toInt) "DateTime<Utc>")
  | type, v => v.toValue catalog type

/-- The value of a member in a row. The key field is read from the key of
the entity, and a map is gathered from all its entries. -/
def Schema.memberValue (catalog : Catalog) (s : Schema) (row : Entity) (m : Member) :
    Except Error Value :=
  match m.name?.bind s.field? with
  | none => Fault.raise (.invalidResult (.unknownColumn m.dotted s.name))
  | some (i, f) =>
    if s.isKey f.name then
      match row.key with
      | some k => .ok (.text k.name)
      | none => Fault.raise (.invalidResult (.keyAbsent s.name))
    else
      match f.type with
      | .map _ => do .ok (Record.take (← s.decode catalog row) i).1
      | type =>
        match row.get? f.name with
        | none => Fault.raise (.invalidResult (.columnAbsent f.name))
        | some p => p.value.toColumn catalog type

mutual

/-- The value of a selector for a row. -/
def Expr.project (catalog : Catalog) (s : Schema) (row : Entity) : Expr → Reading Value
  | .row => .ofExcept ((s.decode catalog row).map .record)
  | .value v => pure v
  | .captured c => c.read
  | .member m => .ofExcept (s.memberValue catalog row m)
  | .record fields => do pure (.record (← Expr.projectAll catalog s row fields))
  | _ => .fail (.unsupportedShape .projection)

/-- The values of several selectors for a row, from left to right. -/
def Expr.projectAll (catalog : Catalog) (s : Schema) (row : Entity) :
    List Expr → Reading (List Value)
  | [] => pure []
  | e :: es => do
    let v ← Expr.project catalog s row e
    let vs ← Expr.projectAll catalog s row es
    pure (v :: vs)

end

/-- Rows that are still to be read, and the plan to read them with. -/
structure Projector where
  catalog : Catalog
  schema : Schema
  plan : Plan
  rows : List Entity

namespace Projector

/-- The least and the greatest number of rows that are still to come. -/
def sizeHint (p : Projector) : Nat × Nat := (p.rows.length, p.rows.length)

/-- The value of the next row, and what remains. -/
def next? (p : Projector) : StateM ReadLog (Option (Except Error Value × Projector)) :=
  match p.rows with
  | [] => pure none
  | row :: rows => do
    let v ← (p.plan.selector.project p.catalog p.schema row).run
    pure (some (v, { p with rows := rows }))

/-- The values of all rows. -/
def drain (p : Projector) : StateM ReadLog (List (Except Error Value)) :=
  p.rows.mapM fun row => (p.plan.selector.project p.catalog p.schema row).run

end Projector

end KindQuery
