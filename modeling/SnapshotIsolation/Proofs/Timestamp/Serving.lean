import SnapshotIsolation.Proofs.Preservation
import SnapshotIsolation.Proofs.Timestamp.Issuance
import SnapshotIsolation.Timestamp.Client

/-!
# An authority behind its client

A client whose authority works in the same process has every request answered, unless it gives the
request up before it sends it. Either way the authority goes on from where it was.

Main results:

- Theorem {lit}`Client.run_call_attempt`: what a request makes of client and authority.
- Theorems {lit}`Client.advances_next` and {lit}`Client.advances_remember`: what it commits the
  authority to.
-/

namespace SnapshotIsolation

open Step (Preserves)

/-! ## Watermarks of a database -/

namespace Watermark

theorem run_store_memory (ts : Timestamp) (m : MemoryWatermark) :
    (WatermarkStore.store ts : Step TimestampError Watermark Unit).run (.memory m) =
      match (WatermarkStore.store ts : Step TimestampError MemoryWatermark Unit).run m with
      | .ok _ m' => .ok () (.memory m')
      | .error e m' => .error e (.memory m') :=
  rfl

theorem run_store_file (ts : Timestamp) (f : WatermarkFile) :
    (WatermarkStore.store ts : Step TimestampError Watermark Unit).run (.file f) =
      match (WatermarkStore.store ts : Step TimestampError WatermarkFile Unit).run f with
      | .ok _ f' => .ok () (.file f')
      | .error e f' => .error e (.file f') :=
  rfl

/-- The watermark is kept in a file. -/
def IsFile (w : Watermark) : Prop := ∃ f, w = .file f

theorem preserves_isFile_store (ts : Timestamp) :
    Preserves IsFile (WatermarkStore.store ts : Step TimestampError Watermark Unit) := by
  rintro _ ⟨f, rfl⟩
  rw [run_store_file]
  cases (WatermarkStore.store ts : Step TimestampError WatermarkFile Unit).run f with
  | ok _ f' => exact ⟨f', rfl⟩
  | error _ f' => exact ⟨f', rfl⟩

/-- Memory or file, the watermark is the one that is kept there. -/
instance : LawfulWatermarkStore Watermark where
  kept w := match w with
    | .memory m => LawfulWatermarkStore.kept m
    | .file f => LawfulWatermarkStore.kept f
  load_ok {w found} h := by
    cases w with
    | memory m =>
      have hload : WatermarkStore.load m = .ok found := h
      exact LawfulWatermarkStore.load_ok hload
    | file f =>
      have hload : WatermarkStore.load f = .ok found := h
      exact LawfulWatermarkStore.load_ok hload
  store_ok {w w' ts} h := by
    cases w with
    | memory m =>
      rw [run_store_memory] at h
      split at h
      · rename_i hstore
        cases h
        exact LawfulWatermarkStore.store_ok hstore
      · cases h
    | file f =>
      rw [run_store_file] at h
      split at h
      · rename_i hstore
        cases h
        exact LawfulWatermarkStore.store_ok hstore
      · cases h
  store_error {w w' ts e} h := by
    cases w with
    | memory m =>
      rw [run_store_memory] at h
      split at h
      · cases h
      · rename_i hstore
        cases h
        exact LawfulWatermarkStore.store_error hstore
    | file f =>
      rw [run_store_file] at h
      split at h
      · cases h
      · rename_i hstore
        cases h
        exact LawfulWatermarkStore.store_error hstore

end Watermark

/-! ## Requests -/

namespace Authority

variable {ω : Type} [WatermarkStore ω] {K : ω → Prop}

/-- To issue a timestamp writes the watermark at most. -/
theorem preserves_next (h : ∀ ts, Preserves K (WatermarkStore.store ts)) :
    Preserves (fun a : Authority ω => K a.watermarks) next := by
  intro a ha
  rw [run_next]
  by_cases hfull : Timestamp.limit.raw ≤ a.counter
  · rw [if_pos hfull]
    exact ha
  · by_cases hreserve : a.reserved < a.counter
    · have hend := h ⟨ceiling a.counter a.blockSize⟩ a.watermarks ha
      rw [if_neg hfull, if_pos hreserve]
      cases hstore : (WatermarkStore.store ⟨ceiling a.counter a.blockSize⟩ :
          Step TimestampError ω Unit).run a.watermarks <;> simpa only [hstore] using hend
    · rw [if_neg hfull, if_neg hreserve]
      exact ha

theorem preserves_remember (h : ∀ ts, Preserves K (WatermarkStore.store ts)) (ts : Timestamp) :
    Preserves (fun a : Authority ω => K a.watermarks) (remember ts) := by
  intro a ha
  rw [run_remember]
  by_cases hfull : Timestamp.limit ≤ ts
  · rw [if_pos hfull]
    exact ha
  · have hend := h ⟨max a.reserved ts.raw⟩ a.watermarks ha
    rw [if_neg hfull]
    cases hstore : (WatermarkStore.store ⟨max a.reserved ts.raw⟩ :
        Step TimestampError ω Unit).run a.watermarks <;> simpa only [hstore] using hend

end Authority

namespace Client

variable {ω α : Type} {c : Client (Authority ω)}

/-- A request is given up before it is sent, or the authority answers it. -/
theorem run_call_attempt (c : Client (Authority ω)) (request : Request)
    (act : Step TimestampError (Authority ω) α) :
    (call request (Delivery.answered <$> Step.attempt act)).run c =
      if c.connected then
        if c.timeout.micros = 0 then .error (.unanswered request c.timeout) c
        else
          match act.run c.transport with
          | .ok a authority => .ok a { c with transport := authority }
          | .error cause authority =>
            .error (reading request cause) { c with transport := authority }
      else .error (.disconnected request) c := by
  unfold call
  rw [EStateM.run_bind, EStateM.run_get]
  by_cases hconnected : c.connected = true
  · by_cases hnow : c.timeout.micros = 0
    · simp [hconnected, hnow]
    · cases hact : act.run c.transport with
      | ok a authority =>
        have hsent : StateT.run (Delivery.answered <$> Step.attempt act) c.transport =
            (.answered (.ok a), authority) := by
          rw [StateT.run_map, Step.run_attempt_of_ok hact]
          rfl
        simp [hconnected, hnow, hsent]
      | error cause authority =>
        have hsent : StateT.run (Delivery.answered <$> Step.attempt act) c.transport =
            (.answered (.error cause), authority) := by
          rw [StateT.run_map, Step.run_attempt_of_error hact]
          rfl
        simp [hconnected, hnow, hsent]
  · simp [hconnected]

/-- What holds of an authority whatever it is asked holds of one that is asked through a client. -/
theorem preserves_call_attempt {P : Authority ω → Prop} {act : Step TimestampError (Authority ω) α}
    (h : Preserves P act) (request : Request) :
    Preserves (fun c : Client (Authority ω) => P c.transport)
      (call request (Delivery.answered <$> Step.attempt act)) := by
  intro c hc
  rw [run_call_attempt]
  by_cases hconnected : c.connected = true
  · by_cases hnow : c.timeout.micros = 0
    · rw [if_pos hconnected, if_pos hnow]
      exact hc
    · have hend := h c.transport hc
      rw [if_pos hconnected, if_neg hnow]
      cases hact : act.run c.transport <;> simpa only [hact] using hend
  · rw [if_neg hconnected]
    exact hc

variable [WatermarkStore ω] [LawfulWatermarkStore ω]

open Authority (Advances Steady Unmoved)

/-- A request that fails leaves the authority where it was. -/
theorem advances_call_attempt {act : Step TimestampError (Authority ω) α}
    {event : α → Authority.Event} (h : Steady c.transport)
    (hok : ∀ {x b}, act.run c.transport = .ok x b → Advances c.transport [event x] b)
    (herror : ∀ {e b}, act.run c.transport = .error e b → Unmoved c.transport b)
    (request : Request) :
    let asked := call request (Delivery.answered <$> Step.attempt act)
    Advances c.transport ((Step.answer asked c).toOption.toList.map event)
      (Step.after asked c).transport := by
  intro asked
  have hstay : Advances c.transport [] c.transport := h.advances_unmoved (.refl _)
  obtain ⟨result, c', hrun, hadvances⟩ : ∃ result c', asked.run c = Step.ending result c' ∧
      Advances c.transport (result.toOption.toList.map event) c'.transport := by
    rw [run_call_attempt]
    by_cases hconnected : c.connected = true
    · rw [if_pos hconnected]
      by_cases hnow : c.timeout.micros = 0
      · exact ⟨.error _, c, if_pos hnow, hstay⟩
      · rw [if_neg hnow]
        cases hact : act.run c.transport with
        | ok x authority => exact ⟨.ok x, _, rfl, hok hact⟩
        | error cause authority =>
          exact ⟨.error _, _, rfl, h.advances_unmoved (herror hact)⟩
    · exact ⟨.error _, c, if_neg hconnected, hstay⟩
  rwa [Step.answer_of_run hrun, Step.after_of_run hrun]

/-- A client's request for a timestamp commits the authority to the one it is given, if any. -/
theorem advances_next (h : Steady c.transport) :
    Advances c.transport ((Step.answer next c).toOption.toList.map .issued)
      (Step.after next c).transport :=
  advances_call_attempt h h.advances_next Unmoved.of_next .next

/-- A client's floor commits the authority to it, if it is kept. -/
theorem advances_remember (h : Steady c.transport) (ts : Timestamp) :
    Advances c.transport
      ((Step.answer (remember ts) c).toOption.toList.map fun _ => .remembered ts)
      (Step.after (remember ts) c).transport :=
  advances_call_attempt h h.advances_remember Unmoved.of_remember .remember

end Client

end SnapshotIsolation
