import SnapshotIsolation.Step

/-!
# How steps end

A step run from a state ends with an answer or a failure, and in a state either way. Splitting
an end into these two parts lets a lemma speak about the answer and about the state separately.

Main results:

- Theorem `Step.run_eq_ending`: every run has an answer and a state.
- Theorems `Step.run_bind_of_ok` and `Step.run_bind_of_error`: running one step after another.
-/

namespace SnapshotIsolation

namespace Step

variable {ε ε' σ τ α β : Type} {s s' : σ} {a : α} {e : ε}

/-- The end of a run: a result and a state. -/
def ending (result : Except ε α) (s : σ) : EStateM.Result ε σ α :=
  match result with
  | .ok a => .ok a s
  | .error e => .error e s

/-- What a step answers in a state. -/
def answer (act : Step ε σ α) (s : σ) : Except ε α :=
  match act.run s with
  | .ok a _ => .ok a
  | .error e _ => .error e

/-- The state that a step leaves behind. -/
def after (act : Step ε σ α) (s : σ) : σ :=
  match act.run s with
  | .ok _ s' => s'
  | .error _ s' => s'

@[simp]
theorem ending_ok (a : α) (s : σ) : (ending (.ok a) s : EStateM.Result ε σ α) = .ok a s :=
  rfl

@[simp]
theorem ending_error (e : ε) (s : σ) : (ending (.error e) s : EStateM.Result ε σ α) = .error e s :=
  rfl

theorem run_eq_ending (act : Step ε σ α) (s : σ) :
    act.run s = ending (answer act s) (after act s) := by
  unfold answer after
  cases act.run s <;> rfl

theorem answer_of_run {act : Step ε σ α} {result : Except ε α}
    (h : act.run s = ending result s') : answer act s = result := by
  cases result <;> simp_all [answer]

theorem after_of_run {act : Step ε σ α} {result : Except ε α}
    (h : act.run s = ending result s') : after act s = s' := by
  cases result <;> simp_all [after]

/-! ## Running one step after another -/

theorem run_bind_of_ok {act : Step ε σ α} {next : α → Step ε σ β} (h : act.run s = .ok a s') :
    (act >>= next).run s = (next a).run s' := by
  rw [EStateM.run_bind, h]

theorem run_bind_of_error {act : Step ε σ α} {next : α → Step ε σ β}
    (h : act.run s = .error e s') : (act >>= next).run s = .error e s' := by
  rw [EStateM.run_bind, h]

theorem answer_bind_of_ok {act : Step ε σ α} {next : α → Step ε σ β} (h : act.run s = .ok a s') :
    answer (act >>= next) s = answer (next a) s' := by
  rw [answer, run_bind_of_ok h, answer]

theorem after_bind_of_ok {act : Step ε σ α} {next : α → Step ε σ β} (h : act.run s = .ok a s') :
    after (act >>= next) s = after (next a) s' := by
  rw [after, run_bind_of_ok h, after]

@[simp]
theorem run_map (f : α → β) (act : Step ε σ α) (s : σ) :
    (f <$> act).run s =
      match act.run s with
      | .ok a s' => .ok (f a) s'
      | .error e s' => .error e s' := by
  rfl

theorem answer_map (f : α → β) (act : Step ε σ α) (s : σ) :
    answer (f <$> act) s = (answer act s).map f := by
  unfold answer
  rw [run_map]
  cases act.run s <;> rfl

theorem after_map (f : α → β) (act : Step ε σ α) (s : σ) : after (f <$> act) s = after act s := by
  unfold after
  rw [run_map]
  cases act.run s <;> rfl

@[simp]
theorem run_throw (e : ε) (s : σ) : (throw e : Step ε σ α).run s = .error e s :=
  rfl

@[simp]
theorem run_ofExcept (result : Except ε α) (s : σ) :
    (ofExcept result : Step ε σ α).run s = ending result s := by
  cases result <;> rfl

/-- A step on a part ends as the step itself does, with the part put back. -/
theorem run_focus {part : σ → τ} {update : τ → σ → σ} (act : Step ε τ α) (s : σ) :
    (focus part update act).run s =
      ending (answer act (part s)) (update (after act (part s)) s) := by
  unfold answer after
  cases h : act.run (part s) with
  | ok a t => exact run_focus_of_ok h
  | error e t => exact run_focus_of_error h

theorem run_focus_of_ending {part : σ → τ} {update : τ → σ → σ} {act : Step ε τ α}
    {result : Except ε α} {t : τ} (h : act.run (part s) = ending result t) :
    (focus part update act).run s = ending result (update t s) := by
  rw [run_focus, answer_of_run h, after_of_run h]

theorem run_mapError_of_ending {rename : ε → ε'} {act : Step ε σ α} {result : Except ε α}
    (h : act.run s = ending result s') :
    (mapError rename act).run s = ending (result.mapError rename) s' := by
  cases result with
  | ok a => exact run_mapError_of_ok h
  | error e => exact run_mapError_of_error h

/-- An attempt always goes on, with the result as a value. -/
theorem run_ofState_attempt {act : Step ε σ α} {result : Except ε α}
    (h : act.run s = ending result s') :
    (ofState (attempt act) : Step ε' σ (Except ε α)).run s = .ok result s' := by
  cases result with
  | ok a => simp [EStateM.run, ofState, run_attempt_of_ok h]
  | error e => simp [EStateM.run, ofState, run_attempt_of_error h]

end Step

end SnapshotIsolation
