import KindQuery.Error
import KindQuery.Expr
/-!
# Reading captured values

A computation that reads captured values may fail, and leaves a log of
what it has read in either case: a query that fails half-way has read the
values before the failure, and the next translation goes on from there.
-/

namespace KindQuery

/-- A computation that may read captured values and may fail. -/
abbrev Reading (α : Type) := ExceptT Error (StateM ReadLog) α

namespace Reading

/-- A result that needs no captured value. -/
def ofExcept {α : Type} (r : Except Error α) : Reading α := fun log => (r, log)

/-- Fails with a fault. -/
def fail {α : Type} (fault : Fault) : Reading α := ofExcept fault.raise

end Reading

/-- Reads a captured value. -/
def Captured.read (c : Captured) : Reading Value := fun log => (.ok (c.next log), log ++ [c.id])

/-! ## What a computation gives -/

namespace Reading

variable {α β : Type} {log log' : ReadLog}

/-- What a computation gives after the readings of a log, and the log that
it leaves. -/
def after (x : Reading α) (log : ReadLog) : Except Error α × ReadLog := x log

@[simp] theorem after_pure (a : α) : after (pure a) log = (.ok a, log) := rfl

@[simp] theorem after_ofExcept (r : Except Error α) : (ofExcept r).after log = (r, log) := rfl

@[simp] theorem after_fail (fault : Fault) :
    (fail fault : Reading α).after log = (fault.raise, log) := rfl

@[simp] theorem after_read (c : Captured) :
    after c.read log = (.ok (c.next log), log ++ [c.id]) := rfl

theorem after_bind (x : Reading α) (f : α → Reading β) :
    after (x >>= f) log =
      match x.after log with
      | (.ok a, log₁) => (f a).after log₁
      | (.error e, log₁) => (.error e, log₁) := by
  change (ExceptT.bindCont f (x log).1).run (x log).2 = _
  unfold after
  rcases x log with ⟨_ | _, _⟩ <;> rfl

/-- Computations that give the same after every log are the same. -/
theorem ext {x y : Reading α} (h : ∀ log, x.after log = y.after log) : x = y := funext h

/-- Chains are the same when their first steps are, and their second ones
after what the first step gives. -/
theorem after_bind_congr {x y : Reading α} {f g : α → Reading β} (h : x.after log = y.after log)
    (hf : ∀ a log', x.after log = (.ok a, log') → (f a).after log' = (g a).after log') :
    after (x >>= f) log = after (y >>= g) log := by
  rw [after_bind, after_bind, ← h]
  split
  next a log₁ ha => exact hf a log₁ ha
  next => rfl

/-- A chain of two steps succeeds when both do, the second one after what
the first one has read. -/
theorem after_bind_eq_ok {x : Reading α} {f : α → Reading β} {b : β} :
    after (x >>= f) log = (.ok b, log') ↔
      ∃ a log₁, x.after log = (.ok a, log₁) ∧ (f a).after log₁ = (.ok b, log') := by
  rw [after_bind]
  split
  next a log₁ h =>
    constructor
    · exact fun hf => ⟨a, log₁, h, hf⟩
    · rintro ⟨_, _, ha, hf⟩
      rw [h] at ha
      cases ha
      exact hf
  next e log₁ h => simp [h]

end Reading

/-- A constant captured value is read as the same value every time. -/
theorem Captured.IsConstant.next {c : Captured} (h : c.IsConstant) (log : ReadLog) :
    c.next log = c.first :=
  answer_of_isConstant h _

/-! ## Settled computations -/

namespace Reading

variable {α β : Type} {x : Reading α} {log : ReadLog}

/-- What a computation gives when nothing has been read before. -/
def now (x : Reading α) : Except Error α := (x.after []).1

/-- **A settled computation** gives the same whatever has been read
before, as it does when its captured values are constant. -/
def Settled (x : Reading α) : Prop := ∀ log, (x.after log).1 = x.now

@[simp] theorem now_pure (a : α) : now (pure a) = .ok a := rfl

@[simp] theorem now_ofExcept (r : Except Error α) : (ofExcept r).now = r := rfl

@[simp] theorem now_fail (fault : Fault) : (fail fault : Reading α).now = fault.raise := rfl

theorem settled_pure (a : α) : Settled (pure a) := fun _ => rfl

theorem settled_ofExcept (r : Except Error α) : (ofExcept r).Settled := fun _ => rfl

theorem settled_fail (fault : Fault) : (fail fault : Reading α).Settled := fun _ => rfl

namespace Settled

/-- A settled computation that succeeds does so after any log. -/
theorem after_eq (h : x.Settled) (log : ReadLog) : x.after log = (x.now, (x.after log).2) :=
  Prod.ext (h log) rfl

theorem exists_after_eq_ok (h : x.Settled) {a : α} :
    (∃ log', x.after log = (.ok a, log')) ↔ x.now = .ok a := by
  rw [h.after_eq log]
  constructor
  · rintro ⟨log', h'⟩
    exact (Prod.mk.inj h').1
  · intro h'
    exact ⟨_, by rw [h']⟩

/-- A chain of settled steps is the chain of what they give. -/
theorem bind {f : α → Reading β} (hx : x.Settled) (hf : ∀ a, (f a).Settled) :
    Settled (x >>= f) ∧ now (x >>= f) = x.now >>= fun a => (f a).now := by
  have h : ∀ log, (after (x >>= f) log).1 = x.now >>= fun a => (f a).now := by
    intro log
    rw [after_bind, hx.after_eq log]
    cases x.now with
    | error e => rfl
    | ok a => exact hf a _
  exact ⟨fun log => (h log).trans (h []).symm, h []⟩

end Settled

/-- Reading a constant captured value is settled. -/
theorem settled_read {c : Captured} (h : c.IsConstant) : Settled c.read := by
  intro log
  rw [now, after_read, after_read, h.next, h.next]

theorem now_read (c : Captured) : now c.read = .ok c.first := by
  rw [now, after_read]
  cases c with
  | mk id first later => cases later <;> rfl

end Reading

end KindQuery
