import MetadataArchive.Draft.Basic

/-!
# Changing drafts

A `Drafting` computation reads a draft and changes it, step by step. Whether it ends with a value or
with a rejection, it leaves a draft behind: the one to which the changes made by then have led. A
rejection takes none of them back.
-/

namespace MetadataArchive

/-- A computation on a draft: the draft that it leaves, with its outcome and what it logged. -/
def Drafting (α : Type) :=
  Draft → Draft × Traced α

namespace Drafting

variable {α β γ : Type}

/-- Reads the draft. -/
def reading (f : Draft → Traced α) : Drafting α :=
  fun d => (d, f d)

/-- Logs an event. -/
def log (e : Event) : Drafting Unit :=
  reading fun _ => Traced.log e

/-- Reads the draft and logs nothing. -/
def checking (f : Draft → Except Rejection α) : Drafting α :=
  reading fun d => Traced.ofExcept (f d)

/-- Changes the draft. -/
def change (f : Draft → Draft) : Drafting Unit :=
  fun d => (f d, pure ())

/-- A computation and what is done with its value. What was changed before a rejection stays
changed. -/
def andThen (x : Drafting α) (f : α → Drafting β) : Drafting β :=
  fun d =>
    let (d, x) := x d
    match x.outcome with
    | .ok a =>
      let (d, y) := f a d
      (d, ⟨y.outcome, x.events ++ y.events⟩)
    | .error r => (d, ⟨.error r, x.events⟩)

instance : Monad Drafting where
  pure a := reading fun _ => pure a
  bind := andThen

/-- The computation with one more event at its end if it ends with a rejection. -/
def reportingRejection (x : Drafting α) : Drafting α :=
  fun d =>
    let (d, x) := x d
    (d, x.reportingRejection)

theorem bind_assoc (x : Drafting α) (f : α → Drafting β) (g : β → Drafting γ) :
    (x >>= f) >>= g = x >>= fun a => f a >>= g := by
  funext d
  show ((x.andThen f).andThen g) d = x.andThen (fun a => (f a).andThen g) d
  simp only [andThen]
  cases (x d).2.outcome with
  | error r => rfl
  | ok a =>
    dsimp only
    cases (f a (x d).1).2.outcome with
    | error r => rfl
    | ok b => simp only [List.append_assoc]

/-- To read first one thing and then another is to read both at once. -/
theorem reading_bind (f : Draft → Traced α) (g : α → Draft → Traced β) :
    (reading f >>= fun a => reading (g a)) = reading fun d => f d >>= fun a => g a d := by
  funext d
  show andThen _ _ d = (d, (f d).andThen fun a => g a d)
  simp only [andThen, reading, Traced.andThen]
  cases (f d).outcome <;> rfl

/-- What follows a change starts from the changed draft, and leaves behind what it makes of it. -/
theorem change_bind (g : Draft → Draft) (f : Unit → Drafting α) :
    change g >>= f = fun d => f () (g d) :=
  rfl

/-- So a change that comes before a check outlasts its rejection. -/
example (g : Draft → Draft) (r : Rejection) (d : Draft) :
    ((change g >>= fun _ => checking fun _ => (.error r : Except Rejection α)) d).1 = g d :=
  rfl

/-- What is changed only after the draft has been read is not changed if reading ends with a
rejection. -/
theorem reading_bind_change (f : Draft → Traced Unit) (g : Draft → Draft) (d : Draft) :
    (reading f >>= fun _ => change g) d =
      (match (f d).outcome with
        | .ok _ => g d
        | .error _ => d, f d) := by
  show andThen _ _ d = _
  simp only [andThen, reading, change]
  rcases f d with ⟨r | _, events⟩
  · rfl
  · simp

end Drafting

end MetadataArchive
