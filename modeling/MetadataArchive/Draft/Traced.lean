import MetadataArchive.Draft.Event

/-!
# Traced outcomes

A `Traced` computation ends with a value or a rejection, and in either case with the events that
were logged on the way. What follows a rejection is not done and logs nothing.
-/

namespace MetadataArchive

/-- The outcome of a computation and the events that it logged, in order. -/
structure Traced (α : Type) where
  outcome : Except Rejection α
  events : List Event

namespace Traced

variable {α β : Type}

/-- Logs an event. -/
def log (e : Event) : Traced Unit :=
  ⟨.ok (), [e]⟩

/-- An outcome that logs nothing. -/
def ofExcept (x : Except Rejection α) : Traced α :=
  ⟨x, []⟩

/-- A computation and what is done with its value. -/
def andThen (x : Traced α) (f : α → Traced β) : Traced β :=
  match x.outcome with
  | .ok a => ⟨(f a).outcome, x.events ++ (f a).events⟩
  | .error r => ⟨.error r, x.events⟩

instance : Monad Traced where
  pure a := ⟨.ok a, []⟩
  bind := andThen

/-- The computation with one more event at its end if it ends with a rejection. -/
def reportingRejection (x : Traced α) : Traced α :=
  match x.outcome with
  | .ok _ => x
  | .error r => ⟨.error r, x.events ++ [.rejected r]⟩

/-- The value of a computation, or another value after a rejection. -/
def valueD (x : Traced α) (a : α) : α :=
  match x.outcome with
  | .ok a => a
  | .error _ => a

@[simp]
theorem outcome_pure (a : α) : (pure a : Traced α).outcome = .ok a :=
  rfl

@[simp]
theorem events_pure (a : α) : (pure a : Traced α).events = [] :=
  rfl

@[simp]
theorem events_log_bind (e : Event) (f : Unit → Traced α) :
    (log e >>= f).events = e :: (f ()).events :=
  rfl

@[simp]
theorem outcome_reportingRejection (x : Traced α) : x.reportingRejection.outcome = x.outcome := by
  unfold reportingRejection
  split
  · rfl
  · next h => exact h.symm

end Traced

end MetadataArchive
