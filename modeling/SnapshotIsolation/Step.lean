/-!
# Steps

A step reads and changes a state and either answers or fails. A failed step keeps the state
it had reached, so what a refused operation leaves behind is part of its meaning.
-/

namespace SnapshotIsolation

/-- A computation over a state that may fail; the state survives the failure. -/
abbrev Step (ε σ α : Type) := EStateM ε σ α

namespace Step

variable {ε ε' σ τ α : Type}

/-- Runs a step on one part of a larger state. -/
def focus (part : σ → τ) (update : τ → σ → σ) (act : Step ε τ α) : Step ε σ α := fun s =>
  match act.run (part s) with
  | .ok a t => .ok a (update t s)
  | .error e t => .error e (update t s)

/-- Renames the failures of a step. -/
def mapError (rename : ε → ε') (act : Step ε σ α) : Step ε' σ α := fun s =>
  match act.run s with
  | .ok a s' => .ok a s'
  | .error e s' => .error (rename e) s'

/-- Runs a step and hands its failure, if any, to the caller as a value. -/
def attempt (act : Step ε σ α) : StateM σ (Except ε α) := fun s =>
  match act.run s with
  | .ok a s' => (.ok a, s')
  | .error e s' => (.error e, s')

/-- A step that cannot fail, as a step. -/
def ofState (act : StateM σ α) : Step ε σ α := fun s =>
  let (a, s') := act.run s
  .ok a s'

/-- A result that needs no state, as a step. -/
def ofExcept : Except ε α → Step ε σ α
  | .ok a => pure a
  | .error e => throw e

/-! ## Running -/

variable {part : σ → τ} {update : τ → σ → σ} {rename : ε → ε'} {s s' : σ} {t : τ} {a : α} {e : ε}

/-- A step on a part that answers changes that part only. -/
theorem run_focus_of_ok {act : Step ε τ α} (h : act.run (part s) = .ok a t) :
    (focus part update act).run s = .ok a (update t s) := by
  rw [EStateM.run, focus, h]

/-- A step on a part that fails still changes that part. -/
theorem run_focus_of_error {act : Step ε τ α} (h : act.run (part s) = .error e t) :
    (focus part update act).run s = .error e (update t s) := by
  rw [EStateM.run, focus, h]

/-- Renaming failures leaves an answer alone. -/
theorem run_mapError_of_ok {act : Step ε σ α} (h : act.run s = .ok a s') :
    (mapError rename act).run s = .ok a s' := by
  rw [EStateM.run, mapError, h]

/-- Renaming failures leaves the state of a failure alone. -/
theorem run_mapError_of_error {act : Step ε σ α} (h : act.run s = .error e s') :
    (mapError rename act).run s = .error (rename e) s' := by
  rw [EStateM.run, mapError, h]

/-- An attempt that answers. -/
theorem run_attempt_of_ok {act : Step ε σ α} (h : act.run s = .ok a s') :
    (attempt act).run s = (.ok a, s') := by
  rw [StateT.run, attempt, h]

/-- An attempt that fails. -/
theorem run_attempt_of_error {act : Step ε σ α} (h : act.run s = .error e s') :
    (attempt act).run s = (.error e, s') := by
  rw [StateT.run, attempt, h]

end Step

end SnapshotIsolation
