import SnapshotIsolation.Proofs.Outcome

/-!
# What steps preserve

A step may end with an answer or with a failure, and what holds of the state then may differ.
{lit}`Step.Ends` says both at once; a step that ends as it began preserves an invariant. The
lemmas follow the ways in which steps are composed, so that an operation preserves whatever its
parts do.

Main results:

- Theorem {lit}`Step.Ends.bind`: one step after another.
- Theorem {lit}`Step.Ends.focus`: a step on a part of the state.
-/

namespace SnapshotIsolation

namespace Step

variable {ε ε' σ τ α β : Type} {P Q M E I : σ → Prop}

/-- From a state with `P` the step ends in one with `Q` if it answers and in one with `E` if it
fails. -/
def Ends (P : σ → Prop) (act : Step ε σ α) (Q E : σ → Prop) : Prop :=
  ∀ s, P s →
    match act.run s with
    | .ok _ s' => Q s'
    | .error _ s' => E s'

/-- What holds before the step holds after it, whether it answers or fails. -/
abbrev Preserves (I : σ → Prop) (act : Step ε σ α) : Prop := Ends I act I I

theorem Preserves.after {act : Step ε σ α} (h : Preserves I act) {s : σ} (hs : I s) :
    I (after act s) := by
  have hend := h s hs
  unfold Step.after
  cases hrun : act.run s with
  | ok a s' => simpa [hrun] using hend
  | error e s' => simpa [hrun] using hend

theorem preserves_of_after {act : Step ε σ α} (h : ∀ s, I s → I (after act s)) :
    Preserves I act := by
  intro s hs
  have hend := h s hs
  unfold Step.after at hend
  cases hrun : act.run s with
  | ok a s' => simpa [hrun] using hend
  | error e s' => simpa [hrun] using hend

theorem ends_pure (a : α) (h : ∀ s, P s → Q s) : Ends P (pure a : Step ε σ α) Q E :=
  fun s hs => h s hs

theorem preserves_pure (a : α) : Preserves I (pure a : Step ε σ α) :=
  ends_pure a fun _ hs => hs

theorem preserves_throw (e : ε) : Preserves I (throw e : Step ε σ α) :=
  fun _ hs => hs

theorem preserves_get : Preserves I (get : Step ε σ σ) :=
  fun _ hs => hs

theorem ends_modify {change : σ → σ} (h : ∀ s, P s → Q (change s)) :
    Ends P (modify change : Step ε σ PUnit) Q E :=
  fun s hs => h s hs

theorem preserves_ofExcept (result : Except ε α) : Preserves I (ofExcept result) := by
  cases result with
  | ok a => exact preserves_pure a
  | error e => exact preserves_throw e

/-- One step after another: a failure of the first ends it. -/
theorem Ends.bind {act : Step ε σ α} {next : α → Step ε σ β} (h : Ends P act M E)
    (hnext : ∀ a, Ends M (next a) Q E) : Ends P (act >>= next) Q E := by
  intro s hs
  have hfirst := h s hs
  cases hrun : act.run s with
  | ok a s' =>
    rw [run_bind_of_ok hrun]
    rw [hrun] at hfirst
    exact hnext a s' hfirst
  | error e s' =>
    rw [run_bind_of_error hrun]
    rw [hrun] at hfirst
    exact hfirst

/-- A step on a part of the state ends as the part does. -/
theorem Ends.focus {part : σ → τ} {update : τ → σ → σ} {act : Step ε τ α} {P' Q' E' : τ → Prop}
    (h : Ends P' act Q' E') (hpart : ∀ s, P s → P' (part s))
    (hok : ∀ s t, P s → Q' t → Q (update t s)) (herror : ∀ s t, P s → E' t → E (update t s)) :
    Ends P (focus part update act) Q E := by
  intro s hs
  have hend := h (part s) (hpart s hs)
  cases hrun : act.run (part s) with
  | ok a t =>
    rw [hrun] at hend
    rw [run_focus_of_ok hrun]
    exact hok s t hs hend
  | error e t =>
    rw [hrun] at hend
    rw [run_focus_of_error hrun]
    exact herror s t hs hend

/-- A step on a part of the state preserves what is said of other parts. -/
theorem preserves_focus_of_frame {part : σ → τ} {update : τ → σ → σ} (act : Step ε τ α)
    (h : ∀ s t, I s → I (update t s)) : Preserves I (focus part update act) := by
  intro s hs
  cases hrun : act.run (part s) with
  | ok a t =>
    rw [run_focus_of_ok hrun]
    exact h s t hs
  | error e t =>
    rw [run_focus_of_error hrun]
    exact h s t hs

theorem Ends.mapError {act : Step ε σ α} (h : Ends P act Q E) (rename : ε → ε') :
    Ends P (mapError rename act) Q E := by
  intro s hs
  have hend := h s hs
  cases hrun : act.run s with
  | ok a s' =>
    rw [hrun] at hend
    rw [run_mapError_of_ok hrun]
    exact hend
  | error e s' =>
    rw [hrun] at hend
    rw [run_mapError_of_error hrun]
    exact hend

/-- An attempt goes on from wherever the step ended. -/
theorem Preserves.attempt {act : Step ε σ α} (h : Preserves I act) :
    Preserves I (ofState (attempt act) : Step ε' σ (Except ε α)) := by
  intro s hs
  rw [run_ofState_attempt (run_eq_ending act s)]
  exact h.after hs

theorem preserves_foldlM {step : β → α → Step ε σ β} (h : ∀ b a, Preserves I (step b a))
    (items : List α) (b : β) : Preserves I (items.foldlM step b) := by
  induction items generalizing b with
  | nil => exact preserves_pure b
  | cons a items ih =>
    rw [List.foldlM_cons]
    exact (h b a).bind ih

theorem preserves_forM {step : α → Step ε σ PUnit} (h : ∀ a, Preserves I (step a))
    (items : List α) : Preserves I (items.forM step) := by
  induction items with
  | nil => exact preserves_pure ()
  | cons a items ih =>
    rw [List.forM]
    exact (h a).bind fun _ => ih

theorem preserves_anyM {test : α → Step ε σ Bool} (h : ∀ a, Preserves I (test a))
    (items : List α) : Preserves I (items.anyM test) := by
  induction items with
  | nil => exact preserves_pure false
  | cons a items ih =>
    rw [List.anyM_cons]
    apply (h a).bind
    rintro (_ | _)
    · exact ih
    · exact preserves_pure true

end Step

end SnapshotIsolation
