import SnapshotIsolation.Proofs.Engine.Marking
import SnapshotIsolation.Proofs.Registry.Chronicles

/-!
# Sessions that are restarted

The records of a session may be lost from memory and read back from their journal, while its
cells stay. What was active is abandoned then, and what was settled is as it was, so the markers
written before remain true.

Main results:

- Theorem {lit}`Session.Lasting.lasts`: what holds throughout calls and restarts.
- Theorem {lit}`Session.markers_are_sound`: there is one marker beside whatever was written, and
  what a marker says is what the registry tells of its writer.
-/

namespace SnapshotIsolation

open Registry (Coherent Chronicled)
open CellStore (Marked)

namespace Session

variable {σ : Type} {s : Session σ} {r : Registry}

/-- The session with another registry. Its source, its cells and the handles that it handed out
stay. -/
def withRegistry (s : Session σ) (r : Registry) : Session σ :=
  { s with engine := { s.engine with registry := r } }

@[simp]
theorem cells_withRegistry (s : Session σ) (r : Registry) :
    (s.withRegistry r).engine.cells = s.engine.cells :=
  rfl

@[simp]
theorem registry_withRegistry (s : Session σ) (r : Registry) :
    (s.withRegistry r).engine.registry = r :=
  rfl

/-- A session is as regular with what was active abandoned. -/
theorem Regular.withRegistry (h : Regular s) (hcoherent : Coherent r)
    (htable : r.table = s.table.map Record.abandoned) : Regular (s.withRegistry r) := by
  have hextends : Registry.Extends s.table r.table :=
    htable ▸ Registry.extends_map_abandoned s.table
  have hsound : Registry.Sound r.table := htable ▸ h.sound.map_abandoned
  have hbounded : Registry.Bounded r.table := htable ▸ h.bounded.map_abandoned
  refine ⟨hcoherent, hsound, hbounded, ?_, h.attested.of_extends h.sound hsound hextends⟩
  intro handle hhandle
  rcases h.recorded handle hhandle with ⟨record, hfound, rfl⟩
  exact hextends.kept hfound

variable [TimestampSource σ]

/-- The sessions that calls and restarts lead to. A session begins without records, in memory or
over a journal opened where no file stood. Its calls name handles handed out before and are
answered below the limit. From time to time its journal is opened again while the cells stay. -/
inductive Lasting (source : σ) : Session σ → Prop
  | opening {capacity : Nat} {journal : Option Journal} :
      (∀ j, journal = some j → Journal.openAt.run ⟨false, .missing⟩ = .ok j ⟨false, .file []⟩) →
      Lasting source (opening source capacity journal)
  | call {s : Session σ} {call : Call} : Lasting source s → (∀ h ∈ call.handles, h ∈ s.handles) →
      (∀ a ∈ (s.after call).answers, a.BelowLimit) → Lasting source (s.after call)
  | reopened {s : Session σ} {capacity : Nat} {r : Registry} {slot slot' : FileSlot} :
      Lasting source s → s.engine.registry.journalNode = some slot.node →
      (Registry.openAt capacity).run slot = .ok r slot' → Lasting source (s.withRegistry r)

theorem Lasting.of_run {s' : Session σ} {source : σ} (h : Lasting source s)
    (hrun : Run (fun s call => ∀ a ∈ (s.after call).answers, a.BelowLimit) s s') :
    Lasting source s' := by
  induction hrun with
  | nil => exact h
  | call _ hhandles hbelow ih => exact ih.call hhandles hbelow

/-- What holds throughout calls and restarts: the session is regular, its journal tells of its
table, and its cells are marked. -/
theorem Lasting.lasts {source : σ} (h : Lasting source s) :
    Regular s ∧ Chronicled s.engine.registry ∧ Marked s.engine.cells := by
  induction h with
  | @opening capacity journal hjournal =>
    refine ⟨regular_opening source capacity journal, ?_, nofun⟩
    apply Registry.chronicled_inMemory
    intro j hj
    have hopen := (hjournal j hj).symm.trans Journal.run_openAt_missing
    cases hopen
    rfl
  | @call s call _ hhandles hbelow ih =>
    rcases ih with ⟨hregular, hchronicled, hmarked⟩
    refine ⟨hregular.after hhandles hbelow, ?_, hregular.marked_after hmarked call⟩
    exact (Engine.preserves_perform Registry.invariant_chronicled call).after hchronicled
  | reopened _ hnode hopen ih =>
    rcases ih with ⟨hregular, hchronicled, hmarked⟩
    rcases hchronicled.openAt hnode hopen with ⟨hchronicled', htable⟩
    exact ⟨hregular.withRegistry hchronicled'.coherent htable, hchronicled', hmarked⟩

/-- Beside whatever a transaction wrote into a row stands one marker of it. Every marker can be
read, and one that says committed or failed says what the registry tells of its writer. -/
theorem markers_are_sound {source : σ} (h : Lasting source s) :
    (∀ c ∈ s.engine.cells.toList, c.kind ≠ .commitMarker →
        ∃! m, m ∈ s.engine.cells.toList ∧ m.key = Cell.markerKey c.row c.timestamp) ∧
      ∀ m ∈ s.engine.cells.toList, m.kind = .commitMarker →
        ∃ marker, Marker.decode m.value = .ok marker ∧
          (∀ ts, marker = .committed ts →
            Step.answer (Registry.effectiveStatus m.timestamp) s.engine.registry =
              .ok (.committed ts)) ∧
          (marker = .failed → ∃ status,
            Step.answer (Registry.effectiveStatus m.timestamp) s.engine.registry =
              .ok (.failed status)) := by
  rcases h.lasts with ⟨hregular, _, hmarked⟩
  refine ⟨fun c hc hkind => (hmarked c hc hkind).existsUnique, ?_⟩
  intro m hm hkind
  rcases hregular.attested.writers hm with ⟨record, hwriter⟩
  rcases hregular.attested.markers hm hkind with ⟨marker, hdecode, hagrees⟩
  rw [Registry.answer_effectiveStatus hregular.coherent hregular.sound hwriter]
  refine ⟨marker, hdecode, ?_, ?_⟩
  · rintro ts rfl
    exact congrArg Except.ok hagrees
  · rintro rfl
    rcases hagrees with ⟨status, hstatus⟩
    exact ⟨status, congrArg Except.ok hstatus⟩

/-- A transaction begins at one, writes a row and is rolled back. Another one begins at two, writes
another row and commits at three. Then the markers of both are resolved. -/
def oneOfTwoCommits : List Call :=
  [.start .snapshot none, .write ⟨⟨1⟩, [], .snapshot⟩ [7] [([1], [9])],
    .rollback ⟨⟨1⟩, [], .snapshot⟩, .start .snapshot none,
    .write ⟨⟨2⟩, [], .snapshot⟩ [8] [([1], [9])], .commit ⟨⟨2⟩, [], .snapshot⟩, .compact]

/-- The journal can be opened again, and then one marker still says failed and the other committed,
as the registry does that was read back. -/
theorem markers_are_sound_restarted :
    let s := oneOfTwoCommits.foldl after (opening (countingTo 3) 4 (some (.holding [])))
    ∃ content r slot, s.engine.registry.journalNode = some (.file content) ∧
      (Registry.openAt 4).run ⟨false, .file content⟩ = .ok r slot ∧
      (∃! m, m ∈ s.engine.cells.toList ∧ m.key = Cell.markerKey [7] ⟨1⟩) ∧
      (∃ status, Step.answer (Registry.effectiveStatus ⟨1⟩) r = .ok (.failed status)) ∧
      Step.answer (Registry.effectiveStatus ⟨2⟩) r = .ok (.committed ⟨3⟩) := by
  have hopening : Lasting (countingTo 3) (opening (countingTo 3) 4 (some (.holding []))) := by
    apply Lasting.opening
    intro j hj
    cases hj
    exact Journal.run_openAt_missing
  have hcalls : Lasting (countingTo 3)
      (oneOfTwoCommits.foldl after (opening (countingTo 3) 4 (some (.holding [])))) :=
    hopening.of_run (.of_admits .nil (by decide))
  obtain ⟨r, slot, hopen⟩ := hcalls.lasts.2.1.exists_openAt rfl (by decide) 4
  rcases markers_are_sound (hcalls.reopened rfl hopen) with ⟨hbeside, htrue⟩
  simp only [cells_withRegistry, registry_withRegistry] at hbeside htrue
  refine ⟨_, r, slot, rfl, hopen, ?_, ?_, ?_⟩
  · exact hbeside (Cell.data [7] [1] ⟨1⟩ [9]) (by decide) (by decide)
  · rcases htrue ⟨[7], Cell.statusFamily, Cell.markerQualifier, ⟨1⟩, Marker.failValue⟩
      (by decide) rfl with ⟨marker, hdecode, _, hfailed⟩
    cases hdecode
    exact hfailed rfl
  · rcases htrue ⟨[8], Cell.statusFamily, Cell.markerQualifier, ⟨2⟩, (⟨3⟩ : Timestamp).toBytes⟩
      (by decide) rfl with ⟨marker, hdecode, hcommitted, _⟩
    cases hdecode
    exact hcommitted ⟨3⟩ rfl

end Session

end SnapshotIsolation
