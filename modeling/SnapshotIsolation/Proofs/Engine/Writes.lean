import SnapshotIsolation.Proofs.Engine.Transparency
import SnapshotIsolation.Proofs.Engine.Upkeep

/-!
# What calls do to the cells

A call leaves the cells alone, writes columns of a row or deletes it for an active transaction, or
resolves markers. So apart from markers a cell stays as it is unless a call for its own writer is
about its own row, and once its writer is settled it stays for good.

Main results:

- Theorems {lit}`Session.Regular.write` and {lit}`Session.Regular.delete`: the calls of an active
  transaction.
- Theorems {lit}`Session.affects` and {lit}`Session.Regular.alters`: what any call does to the
  cells.
- Theorems {lit}`Session.mem_iff_of_untouched` and {lit}`Session.mem_iff_of_settled`: which cells
  stay throughout a run.
-/

namespace SnapshotIsolation

open Step (Ends Preserves)
open Registry (Table Coherent)

/-- The writer and the row of a call that is to write or delete. -/
def Call.touches? : Call → Option (Timestamp × Bytes)
  | .write txn row _ | .delete txn row => some (txn.id, row)
  | _ => none

/-! ## Operations that leave the cells alone -/

namespace Engine

variable {σ α : Type} {I : CellStore → Prop}

/-- An operation of the engine keeps what holds of the cells. -/
abbrev Spares (I : CellStore → Prop) (act : Action σ α) : Prop :=
  Preserves (fun e : Engine σ => I e.cells) act

theorem spares_onRegistry (act : Registry.Action α) : Spares I (onRegistry act : Action σ α) :=
  Step.preserves_focus_of_frame act fun _ _ he => he

theorem spares_reading (act : Reading α) : Spares I (reading act : Action σ α) :=
  spares_onRegistry _

/-- A compaction keeps of the cells what goes on holding when a row is passed. -/
theorem spares_compact
    (hreplace : ∀ s row after, I s → List.Forall₂ Cell.Remarks (s.row row) after →
      I (s.replaceRow (s.row row) after)) :
    Spares I (compact : Action σ CompactionStats) := by
  intro e he
  have hcells : Preserves (fun s : CellStore × Registry × CompactionPass => I s.1)
      (CellStore.compact CompactionPass.hook) := by
    apply CellStore.preserves_compact (R := List.Forall₂ Cell.Remarks)
    · intro cells
      exact Step.preserves_focus_of_frame _ fun _ _ hs => hs
    · intro cells q after q' hrun
      exact CompactionPass.remarks_of_run_hook hrun
    · intro s row after hremarks hs
      exact hreplace s.1 row after hs hremarks
  have hend := hcells (e.cells, e.registry, .start) he
  rw [EStateM.run, compact]
  cases hrun : (CellStore.compact CompactionPass.hook).run (e.cells, e.registry, .start) with
  | ok outcome s =>
    rw [hrun] at hend
    exact hend
  | error cause s =>
    rw [hrun] at hend
    exact hend

/-- A compaction changes none but unresolved markers. -/
theorem remarked_compact (s₀ : CellStore) :
    Spares (CellStore.Remarked s₀) (compact : Action σ CompactionStats) :=
  spares_compact fun _ _ _ hs hremarks => hs.trans (CellStore.remarked_replaceRow hremarks)

variable [TimestampSource σ]

theorem spares_nextTimestamp :
    Spares I (nextTimestamp : Action σ (Except TimestampError Timestamp)) := by
  intro e he
  rw [run_nextTimestamp]
  exact he

theorem spares_start (isolation : Isolation) (parent : Option Handle) :
    Spares I (start isolation parent : Action σ Handle) := by
  apply spares_nextTimestamp.bind
  intro given
  split
  · exact Step.preserves_throw _
  · exact spares_onRegistry _

theorem spares_commit (txn : Handle) : Spares I (commit txn : Action σ Timestamp) := by
  apply (spares_onRegistry _).bind
  intro prepared
  split
  · exact Step.preserves_pure _
  · exact spares_nextTimestamp.bind fun _ => spares_onRegistry _

/-- A call that neither writes nor deletes nor compacts leaves the cells alone. -/
theorem spares_perform {call : Call} (htouches : call.touches? = none)
    (hcompact : call ≠ .compact) :
    Spares I (call.perform : Action σ (Option Handle)) := by
  cases call with
  | start isolation parent =>
    exact (spares_start isolation parent).bind fun _ => Step.preserves_pure _
  | write txn row columns => cases htouches
  | delete txn row => cases htouches
  | commit txn => exact (spares_commit txn).bind fun _ => Step.preserves_pure _
  | rollback txn => exact (spares_onRegistry _).bind fun _ => Step.preserves_pure _
  | readRow txn row =>
    have hread : Spares I (readRow txn row : Action σ (List Cell)) :=
      Step.preserves_get.bind fun _ => spares_reading _
    exact hread.bind fun _ => Step.preserves_pure _
  | isVisible c txn => exact (spares_reading _).bind fun _ => Step.preserves_pure _
  | compact => exact absurd rfl hcompact
  | rememberWatermark =>
    exact (preserves_rememberWatermark fun _ _ he => he).bind fun _ => Step.preserves_pure _

end Engine

/-! ## Alterations -/

/-- What a call does to the cells of whatever engine, of which the table has the transactions. -/
inductive Call.Affects (t : Table) (s : CellStore) : Call → CellStore → Prop
  | kept {call : Call} : Affects t s call s
  | wrote {txn : Handle} {row : Bytes} {columns : List (Bytes × Bytes)} {record : Record}
      {cancels : Bool} : t.get? txn.id = some record → record.status = .active →
      (cancels = true → Cell.tombstone row txn.id ∉ s.toList) →
      Affects t s (.write txn row columns) (s.written row txn.id cancels columns)
  | deleted {txn : Handle} {row : Bytes} {record : Record} : t.get? txn.id = some record →
      record.status = .active → Affects t s (.delete txn row) (s.deleted row txn.id)
  | remarked {s' : CellStore} : CellStore.Remarked s s' → Affects t s .compact s'

/-- What a call does to the cells where markers can be resolved, as the table has the
transactions. -/
inductive Call.Alters (t : Table) (s : CellStore) : Call → CellStore → Prop
  | kept {call : Call} : Alters t s call s
  | wrote {txn : Handle} {row : Bytes} {columns : List (Bytes × Bytes)} {record : Record}
      {cancels : Bool} : t.get? txn.id = some record → record.status = .active →
      (cancels = true → Cell.tombstone row txn.id ∉ s.toList) →
      Alters t s (.write txn row columns) (s.written row txn.id cancels columns)
  | deleted {txn : Handle} {row : Bytes} {record : Record} : t.get? txn.id = some record →
      record.status = .active → Alters t s (.delete txn row) (s.deleted row txn.id)
  | resolved {s' : CellStore} : CellStore.Resolved t s s' → Alters t s .compact s'

section Alterations

variable {t : Table} {s s' : CellStore} {call : Call} {c : Cell}

theorem Call.Alters.affects (h : call.Alters t s s') : call.Affects t s s' := by
  cases h with
  | kept => exact .kept
  | wrote hfound hactive hcancels => exact .wrote hfound hactive hcancels
  | deleted hfound hactive => exact .deleted hfound hactive
  | resolved hresolved => exact .remarked hresolved.remarked

theorem Call.Affects.alters (h : call.Affects t s s')
    (hcompact : call = .compact → CellStore.Resolved t s s') : call.Alters t s s' := by
  cases h with
  | kept => exact .kept
  | wrote hfound hactive hcancels => exact .wrote hfound hactive hcancels
  | deleted hfound hactive => exact .deleted hfound hactive
  | remarked _ => exact .resolved (hcompact rfl)

/-- A call that is to write or delete is confined to its writer in its row. -/
theorem Call.Affects.confined (h : call.Affects t s s') {id : Timestamp} {row : Bytes}
    (htouches : call.touches? = some (id, row)) : CellStore.Confined row id s s' := by
  cases h with
  | kept => exact .refl row id s
  | wrote _ _ _ =>
    cases htouches
    exact CellStore.confined_written _ _ _ _ _
  | deleted _ _ =>
    cases htouches
    exact CellStore.confined_deleted _ _ _
  | remarked _ => cases htouches

/-- Other calls leave the cells alone, or resolve markers. -/
theorem Call.Affects.remarked_of_touches?_eq_none (h : call.Affects t s s')
    (htouches : call.touches? = none) : CellStore.Remarked s s' := by
  cases h with
  | kept => exact .refl s
  | wrote _ _ _ => cases htouches
  | deleted _ _ => cases htouches
  | remarked hremarked => exact hremarked

/-- A call keeps cells of other writers or in other rows, but for markers. -/
theorem Call.Affects.mem_iff (h : call.Affects t s s') (hkind : c.kind ≠ .commitMarker)
    (hother : call.touches? ≠ some (c.timestamp, c.row)) : c ∈ s'.toList ↔ c ∈ s.toList := by
  cases htouches : call.touches? with
  | none => exact (h.remarked_of_touches?_eq_none htouches).others hkind
  | some touched =>
    rcases touched with ⟨id, row⟩
    apply h.confined htouches c
    by_contra hsame
    rw [not_or, not_not, not_not] at hsame
    exact hother (by rw [htouches, hsame.1, hsame.2])

/-- A call keeps the cells of settled writers, but for markers. -/
theorem Call.Affects.mem_iff_of_settled (h : call.Affects t s s') (hkind : c.kind ≠ .commitMarker)
    {settled : Record} (hsettled : t.get? c.timestamp = some settled)
    (hterminal : settled.status.isTerminal = true) : c ∈ s'.toList ↔ c ∈ s.toList := by
  have hapart : ∀ {txn : Handle} {record : Record}, t.get? txn.id = some record →
      record.status = .active → c.timestamp ≠ txn.id := by
    intro txn record hfound hactive hsame
    rw [← hsame, hsettled, Option.some.injEq] at hfound
    exact Status.isTerminal_iff.1 hterminal (hfound ▸ hactive)
  cases h with
  | kept => rfl
  | wrote hfound hactive _ =>
    exact CellStore.confined_written _ _ _ _ _ c (.inr (hapart hfound hactive))
  | deleted hfound hactive =>
    exact CellStore.confined_deleted _ _ _ c (.inr (hapart hfound hactive))
  | remarked hremarked => exact hremarked.others hkind

end Alterations

namespace Call.Alters

variable {t : Table} {s s' : CellStore} {call : Call} {c : Cell}

theorem mem_iff (h : call.Alters t s s') (hkind : c.kind ≠ .commitMarker)
    (hother : call.touches? ≠ some (c.timestamp, c.row)) : c ∈ s'.toList ↔ c ∈ s.toList :=
  h.affects.mem_iff hkind hother

/-- Calls put data into the data family only. -/
theorem plain (h : call.Alters t s s') (hplain : s.Plain) : s'.Plain := by
  cases h with
  | kept => exact hplain
  | wrote _ _ _ => exact hplain.written _ _ _ _
  | deleted _ _ => exact hplain.deleted _ _
  | resolved hresolved =>
    intro c hc hkind
    exact hplain c ((hresolved.others (by simp [hkind])).1 hc) hkind

end Call.Alters

namespace Session

variable {σ : Type} {s s' : Session σ} {txn : Handle} {record : Record}

/-! ## Writes and deletes of active transactions -/

/-- It can be found out whether a transaction sees a tombstone in a row. -/
theorem Regular.answers_seesTombstone (h : Regular s) (txn : Handle) (row : Bytes) :
    ∃ sees, Reading.Answers s.table (Engine.seesTombstone txn (s.engine.cells.row row))
      (.ok sees) := by
  apply Reading.answers_anyM
  intro c hc
  split
  · rcases h.attested.writers (CellStore.mem_row.1 hc).2 with ⟨record, hwriter⟩
    exact ⟨_, Reading.answers_judges h.sound hwriter none⟩
  · exact ⟨false, Reading.answers_pure false⟩

/-- A transaction that has not deleted a row has no tombstone there. -/
theorem tombstone_not_mem {cells : CellStore} {row : Bytes}
    (h : Engine.isDeletedBy txn (cells.row row) = false) :
    Cell.tombstone row txn.id ∉ cells.toList := by
  intro hmem
  rw [Engine.isDeletedBy, List.any_eq_false] at h
  exact h _ (CellStore.mem_row.2 ⟨rfl, hmem⟩)
    (decide_eq_true ⟨rfl, Cell.kind_tombstone row txn.id⟩)

variable [TimestampSource σ]

/-- An active transaction writes whatever it is to write. -/
theorem Regular.write (h : Regular s) (hfound : s.table.get? txn.id = some record)
    (hactive : record.status = .active) (row : Bytes) (columns : List (Bytes × Bytes)) :
    ∃ cancels, (cancels = true → Cell.tombstone row txn.id ∉ s.engine.cells.toList) ∧
      Rewrites s (.write txn row columns) (s.engine.cells.written row txn.id cancels columns) := by
  obtain ⟨sees, hanswers⟩ := h.answers_seesTombstone txn row
  rcases Engine.run_write h.coherent hfound hactive hanswers columns with
    ⟨r', hconsulted, ⟨cause, herror, _⟩ | ⟨cancels, hcancels, hrun⟩⟩
  · cases herror
  refine ⟨cancels, fun htrue => tombstone_not_mem (hcancels htrue), h.rewrites hconsulted ?_
    (Engine.run_bind_none (show _ = Step.ending (.ok ()) _ from hrun))⟩
  exact h.attested.of_writtenBy hfound (CellStore.writtenBy_written ..)

/-- An active transaction deletes whatever row it is to delete. -/
theorem Regular.delete (h : Regular s) (hfound : s.table.get? txn.id = some record)
    (hactive : record.status = .active) (row : Bytes) :
    Rewrites s (.delete txn row) (s.engine.cells.deleted row txn.id) := by
  rcases Engine.run_delete h.coherent hfound hactive row with ⟨r', hconsulted, hrun⟩
  refine h.rewrites hconsulted ?_
    (Engine.run_bind_none (show _ = Step.ending (.ok ()) _ from hrun))
  exact h.attested.of_writtenBy hfound (CellStore.writtenBy_deleted ..)

/-! ## Any call -/

theorem cells_after (call : Call) {act : Engine.Action (RecordedSource σ) Unit}
    {result : Except StorageError Unit} {e' : Engine (RecordedSource σ)}
    (hcall : (act >>= fun _ => pure none) = call.perform)
    (hrun : act.run s.engine = Step.ending result e') : (s.after call).engine.cells = e'.cells := by
  have hafter : (s.after call).engine = e' := by
    rw [Session.after, ← hcall]
    exact Step.after_of_run (Engine.run_bind_none hrun)
  rw [hafter]

/-- A call that is to write or delete goes ahead only for an active transaction. -/
theorem cells_after_of_refused (call : Call) {act : Engine.Action (RecordedSource σ) Unit}
    (h : Coherent s.engine.registry)
    (hcall : ((Engine.ensureActive txn >>= fun _ => act) >>= fun _ => pure none) = call.perform) :
    (s.after call).engine.cells = s.engine.cells ∨
      ∃ record, s.table.get? txn.id = some record ∧ record.status = .active := by
  rcases Engine.run_ensureActive h txn with ⟨result, r', _, hrun, hactive⟩
  cases result with
  | ok _ => exact .inr (hactive.1 rfl)
  | error cause =>
    have hrefused : (Engine.ensureActive txn >>= fun _ => act).run s.engine =
        Step.ending (.error cause) { s.engine with registry := r' } := Step.run_bind_of_error hrun
    have hcells := cells_after call hcall hrefused
    exact .inl hcells

/-- What a call does to the cells, as long as the registry's cache agrees with its table. -/
theorem affects (h : Coherent s.engine.registry) (call : Call) :
    call.Affects s.table s.engine.cells (s.after call).engine.cells := by
  have hkept : (s.after call).engine.cells = s.engine.cells →
      call.Affects s.table s.engine.cells (s.after call).engine.cells := by
    intro hcells
    rw [hcells]
    exact .kept
  have hspared : call.touches? = none → call ≠ .compact →
      call.Affects s.table s.engine.cells (s.after call).engine.cells := by
    intro htouches hcompact
    have hspares : Engine.Spares (· = s.engine.cells)
        (call.perform : Engine.Action (RecordedSource σ) (Option Handle)) :=
      Engine.spares_perform htouches hcompact
    exact hkept (hspares.after rfl)
  cases call with
  | write txn row columns =>
    rcases cells_after_of_refused (.write txn row columns) h rfl with
      hcells | ⟨record, hfound, hactive⟩
    · exact hkept hcells
    · obtain ⟨_, hanswers⟩ :=
        Engine.determined_seesTombstone (t := s.table) txn (s.engine.cells.row row)
      rcases Engine.run_write h hfound hactive hanswers columns with
        ⟨r', _, ⟨cause, _, hrun⟩ | ⟨cancels, hcancels, hrun⟩⟩
      · have hcells := cells_after (.write txn row columns) rfl
          (show _ = Step.ending (.error cause) _ from hrun)
        exact hkept hcells
      · rw [cells_after (.write txn row columns) rfl
          (show _ = Step.ending (.ok ()) _ from hrun)]
        exact .wrote hfound hactive fun htrue => tombstone_not_mem (hcancels htrue)
  | delete txn row =>
    rcases cells_after_of_refused (.delete txn row) h rfl with
      hcells | ⟨record, hfound, hactive⟩
    · exact hkept hcells
    · rcases Engine.run_delete h hfound hactive row with ⟨r', _, hrun⟩
      rw [cells_after (.delete txn row) rfl (show _ = Step.ending (.ok ()) _ from hrun)]
      exact .deleted hfound hactive
  | compact =>
    have hperform : Engine.Spares (CellStore.Remarked s.engine.cells)
        (Call.compact.perform : Engine.Action (RecordedSource σ) (Option Handle)) :=
      (Engine.remarked_compact _).bind fun _ => Step.preserves_pure _
    exact .remarked (hperform.after (.refl _))
  | start isolation parent => exact hspared rfl (by simp)
  | commit txn => exact hspared rfl (by simp)
  | rollback txn => exact hspared rfl (by simp)
  | readRow txn row => exact hspared rfl (by simp)
  | isVisible c txn => exact hspared rfl (by simp)
  | rememberWatermark => exact hspared rfl (by simp)

/-- What a call does to the cells of a regular session. -/
theorem Regular.alters (h : Regular s) (call : Call) :
    call.Alters s.table s.engine.cells (s.after call).engine.cells := by
  apply (affects h.coherent call).alters
  rintro rfl
  exact h.compact.2.2

/-! ## Runs -/

variable {c : Cell}

/-- In every session that is reached all data is in the data family. -/
theorem Regular.plain_of_run (h : Regular s) (hplain : s.engine.cells.Plain)
    (hrun : Run (fun s call => ∀ a ∈ (s.after call).answers, a.BelowLimit) s s') :
    s'.engine.cells.Plain :=
  (hrun.keeps (P := fun s => s.engine.cells.Plain) (fun _ _ hbelow => hbelow)
    (fun _ call hregular hplain _ _ => (hregular.alters call).plain hplain) h hplain).2

/-- A cell that is no marker stays as it is as long as no call for its writer is about its row. -/
theorem mem_iff_of_untouched (h : Regular s) (hkind : c.kind ≠ .commitMarker)
    (hrun : Run (fun s call => (∀ a ∈ (s.after call).answers, a.BelowLimit) ∧
      call.touches? ≠ some (c.timestamp, c.row)) s s') :
    c ∈ s'.engine.cells.toList ↔ c ∈ s.engine.cells.toList :=
  (hrun.keeps (P := fun s' => c ∈ s'.engine.cells.toList ↔ c ∈ s.engine.cells.toList)
    (fun _ _ hfits => hfits.1)
    (fun _ call hregular hsame _ hfits =>
      ((affects hregular.coherent call).mem_iff hkind hfits.2).trans hsame) h Iff.rfl).2

/-- A run keeps the history of the table. -/
theorem extends_of_run {fits : Session σ → Call → Prop} (hrun : Run fits s s')
    (h : Coherent s.engine.registry) :
    Coherent s'.engine.registry ∧ Registry.Extends s.table s'.table :=
  hrun.upholds (Registry.invariant_extends s.table) ⟨h, .refl _⟩

/-- Whatever is called, a cell that is no marker stays as it is once its writer is settled. -/
theorem mem_iff_of_settled {fits : Session σ → Call → Prop} (h : Coherent s.engine.registry)
    (hkind : c.kind ≠ .commitMarker) (hsettled : s.table.get? c.timestamp = some record)
    (hterminal : record.status.isTerminal = true) (hrun : Run fits s s') :
    c ∈ s'.engine.cells.toList ↔ c ∈ s.engine.cells.toList := by
  induction hrun with
  | nil => rfl
  | @call s₁ call hrun _ _ ih =>
    rcases extends_of_run hrun h with ⟨hcoherent, hextends⟩
    have hstill := hextends.terminal hsettled hterminal
    exact ((affects hcoherent call).mem_iff_of_settled hkind hstill hterminal).trans ih

end Session

end SnapshotIsolation
