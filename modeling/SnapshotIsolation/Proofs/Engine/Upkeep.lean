import SnapshotIsolation.Proofs.Engine.Sessions
import SnapshotIsolation.Proofs.Visibility.Repeating

/-!
# What calls keep of the registry

Calls of the engine reach the registry by look-ups and operations only, so whatever these keep,
every call keeps.

Main results:

- Theorem {lit}`Engine.preserves_perform`: a call keeps every invariant of the registry.
- Theorem {lit}`Session.Run.upholds`: so does a run.
-/

namespace SnapshotIsolation

open Step (Preserves)
open Registry (Invariant)

variable {I : Registry → Prop}

/-! ## Readings -/

namespace Reading

/-- A reading keeps what holds of the registry. -/
abbrev Upholds {α : Type} (I : Registry → Prop) (act : Reading α) : Prop :=
  Preserves (fun s : ReadState => I s.registry) act

theorem upholds_find (h : Invariant I) (id : Timestamp) : Upholds I (find id) := by
  unfold find
  apply Step.preserves_get.bind
  intro s
  split
  · exact Step.preserves_pure _
  · have hfind : Upholds I (onRegistry (Registry.find id)) :=
      (h.find id).focus (fun _ hs => hs) (fun _ _ _ ht => ht) (fun _ _ _ ht => ht)
    apply hfind.bind
    intro record
    exact Step.Ends.bind (Step.ends_modify fun _ hs => hs) fun _ => Step.preserves_pure record

theorem upholds_walk (h : Invariant I) (active : Bool) (outermost : Option Timestamp)
    (ancestors : List Timestamp) :
    Upholds I (EffectiveStatus.walk find active outermost ancestors) := by
  induction ancestors generalizing active outermost with
  | nil =>
    unfold EffectiveStatus.walk
    split <;> exact Step.preserves_pure _
  | cons ancestor ancestors ih =>
    unfold EffectiveStatus.walk
    apply (upholds_find h ancestor).bind
    intro record
    split
    · exact Step.preserves_pure _
    · split
      · exact ih _ _
      · exact ih _ _

theorem upholds_effectiveStatus (h : Invariant I) (id : Timestamp) :
    Upholds I (effectiveStatus id) := by
  apply (upholds_find h id).bind
  intro record
  unfold EffectiveStatus.resolve
  split
  · exact Step.preserves_pure _
  · exact upholds_walk h _ _ _

theorem compositional_upholds (h : Invariant I) : Compositional fun act => Upholds I act :=
  ⟨Step.preserves_ofExcept, upholds_find h, fun hact hnext => hact.bind hnext⟩

theorem upholds_isWriterVisible (h : Invariant I) (writer : Timestamp) (marker : Option Marker)
    (snapshot : Timestamp) (reader : Handle) :
    Upholds I (isWriterVisible writer marker snapshot reader) :=
  (compositional_upholds h).isWriterVisible writer marker snapshot reader

theorem upholds_isVisible (h : Invariant I) (c : Cell) (reader : Handle) :
    Upholds I (isVisible c reader.snapshot reader) :=
  upholds_isWriterVisible h c.timestamp none reader.snapshot reader

theorem upholds_readRow (h : Invariant I) (cells : List Cell) (reader : Handle) :
    Upholds I (readRow cells reader) :=
  (compositional_upholds h).readRow cells reader

end Reading

/-! ## Compaction -/

/-- A compaction keeps what its hook keeps, and what goes on holding when a row is replaced by what
the hook answers for it. -/
theorem CellStore.preserves_compact {τ : Type} {K : CellStore × τ → Prop}
    {R : List Cell → List Cell → Prop} {hook : Hook τ}
    (hhook : ∀ cells, Preserves K (Step.focus Prod.snd (fun t s => (s.1, t)) (hook cells)))
    (hanswer : ∀ cells t after t', (hook cells).run t = .ok after t' → R cells after)
    (hreplace : ∀ s row after, R (s.1.row row) after → K s →
      K (s.1.replaceRow (s.1.row row) after, s.2)) : Preserves K (compact hook) := by
  unfold compact
  apply Step.preserves_get.bind
  intro _
  apply Step.preserves_foldlM
  intro total row s hs
  have hend := hhook (s.1.row row) s hs
  cases hrun : (hook (s.1.row row)).run s.2 with
  | error e t =>
    rw [Step.run_focus_of_error hrun] at hend
    rw [run_compactRow_of_refuses (.failed hrun)]
    exact hend
  | ok after t =>
    rw [Step.run_focus_of_ok hrun] at hend
    by_cases hlength : after.length = (s.1.row row).length
    · rw [run_compactRow_of_ok hrun hlength]
      exact hreplace (s.1, t) row after (hanswer _ _ _ _ hrun) hend
    · rw [run_compactRow_of_refuses (.misfit hrun hlength)]
      exact hend

namespace CompactionPass

/-- A computation of a pass keeps what holds of the registry. -/
def Upholds {α : Type} (I : Registry → Prop) (act : Action α) : Prop :=
  ∀ s, I s.1 → I (act.run s).2.1

variable {α β : Type}

theorem upholds_pure (a : α) : Upholds I (pure a) :=
  fun _ hs => hs

theorem Upholds.bind {act : Action α} {next : α → Action β} (h : Upholds I act)
    (hnext : ∀ a, Upholds I (next a)) : Upholds I (act >>= next) :=
  fun s hs => hnext _ _ (h s hs)

theorem upholds_get : Upholds I (get : Action (Registry × CompactionPass)) :=
  fun _ hs => hs

/-- What a pass notes down for itself has nothing to do with the registry. -/
theorem upholds_modify (change : CompactionPass → CompactionPass) :
    Upholds I (modify fun (r, p) => (r, change p) : Action PUnit) :=
  fun _ hs => hs

theorem upholds_count (change : CompactionStats → CompactionStats) : Upholds I (count change) :=
  upholds_modify fun p => { p with stats := change p.stats }

theorem upholds_reading {act : Reading α} (h : Reading.Upholds I act) :
    Upholds I (reading act) := by
  rintro ⟨r, p⟩ hr
  have hend := h ⟨r, p.scope⟩ hr
  show I ((Step.attempt act).run ⟨r, p.scope⟩).2.registry
  cases hrun : act.run ⟨r, p.scope⟩ with
  | ok a s' =>
    rw [Step.run_attempt_of_ok hrun]
    simpa [hrun] using hend
  | error e s' =>
    rw [Step.run_attempt_of_error hrun]
    simpa [hrun] using hend

theorem upholds_effectiveStatus (h : Invariant I) (id : Timestamp) :
    Upholds I (effectiveStatus id) := by
  unfold effectiveStatus
  refine upholds_get.bind fun s => ?_
  split
  · exact upholds_pure _
  · apply (upholds_reading (Reading.upholds_effectiveStatus h id)).bind
    intro found
    exact (upholds_modify _).bind fun _ => upholds_pure found

theorem upholds_resolveCell (h : Invariant I) (c : Cell) : Upholds I (resolveCell c) := by
  have hstatus := upholds_effectiveStatus h c.timestamp
  have hvalue : ∀ status, Upholds I (reading (resolvedValue c.timestamp status)) := by
    intro status
    apply upholds_reading
    apply (Reading.upholds_find h c.timestamp).bind
    intro record
    exact (Step.preserves_ofExcept _).bind fun _ => Step.preserves_pure _
  unfold resolveCell
  split
  · unfold resolveMarker
    apply hstatus.bind
    intro found
    split
    · exact (upholds_count _).bind fun _ => upholds_pure _
    · exact (upholds_count _).bind fun _ => upholds_pure _
    · apply (hvalue _).bind
      intro value
      split
      · exact (upholds_count _).bind fun _ => upholds_pure _
      · exact (upholds_count _).bind fun _ => upholds_pure _
  · exact upholds_pure c

theorem upholds_resolveCells (h : Invariant I) (cells : List Cell) :
    Upholds I (resolveCells cells) := by
  unfold resolveCells
  induction cells with
  | nil => exact upholds_pure []
  | cons c cells ih =>
    rw [List.mapM_cons]
    apply (upholds_resolveCell h c).bind
    intro c'
    exact ih.bind fun _ => upholds_pure _

/-- A pass keeps what holds of the registry. -/
theorem preserves_compact (h : Invariant I) :
    Preserves (fun s : CellStore × Registry × CompactionPass => I s.2.1)
      (CellStore.compact hook) := by
  have hhook : ∀ cells, Preserves (fun s : Registry × CompactionPass => I s.1) (hook cells) :=
    fun cells s hs => upholds_resolveCells h cells s hs
  apply CellStore.preserves_compact (R := fun _ _ => True)
  · intro cells
    exact (hhook cells).focus (fun _ hs => hs) (fun _ _ _ ht => ht) (fun _ _ _ ht => ht)
  · exact fun _ _ _ _ _ => trivial
  · intro s _ _ _ hs
    exact hs

end CompactionPass

/-! ## Calls -/

namespace Engine

variable {σ α : Type}

/-- An operation of the engine keeps what holds of the registry. -/
abbrev Upholds (I : Registry → Prop) (act : Action σ α) : Prop :=
  Preserves (fun e : Engine σ => I e.registry) act

theorem upholds_onRegistry {act : Registry.Action α} (h : Preserves I act) :
    Upholds I (onRegistry act : Action σ α) :=
  h.focus (fun _ he => he) (fun _ _ _ hr => hr) (fun _ _ _ hr => hr)

theorem upholds_reading {act : Reading α} (h : Reading.Upholds I act) :
    Upholds I (reading act : Action σ α) :=
  upholds_onRegistry (h.focus (fun _ hr => hr) (fun _ _ _ hs => hs) (fun _ _ _ hs => hs))

theorem upholds_onCells (change : CellStore → CellStore) :
    Upholds I (onCells change : Action σ Unit) :=
  Step.ends_modify fun _ he => he

theorem preserves_attempt_settle (h : Invariant I) (id : Timestamp) (outcome : Outcome) :
    Preserves I (Step.ofState (Step.attempt (Registry.settle id outcome)) :
      Registry.Action (Except StorageError Unit)) :=
  Step.Preserves.attempt (h.settle id outcome)

theorem preserves_prepareCommit (h : Invariant I) (txn : Handle) :
    Preserves I (prepareCommit txn) := by
  unfold prepareCommit
  apply (h.find txn.id).bind
  intro record
  split
  · exact Step.preserves_pure _
  · split
    · apply (h.find _).bind
      intro above
      simp only
      split
      · exact (Step.preserves_throw _).bind fun _ => Step.preserves_pure _
      · exact Step.preserves_pure _
    · exact Step.preserves_pure _
  · exact Step.preserves_throw _

theorem preserves_adoptCommit (h : Invariant I) (txn : Handle) :
    Preserves I (adoptCommit txn) := by
  unfold adoptCommit
  apply (h.find txn.id).bind
  intro record
  split
  · exact Step.preserves_pure _
  · exact Step.preserves_throw _

theorem preserves_finishCommit (h : Invariant I) (txn : Handle)
    (given : Except TimestampError Timestamp) : Preserves I (finishCommit txn given) := by
  cases given with
  | error cause =>
    unfold finishCommit
    exact (preserves_attempt_settle h txn.id .error).bind fun _ => Step.preserves_throw _
  | ok ts =>
    unfold finishCommit
    apply (preserves_attempt_settle h txn.id (.commit ts)).bind
    intro result
    split
    · exact Step.preserves_pure _
    · exact preserves_adoptCommit h txn
    · exact Step.preserves_throw _

theorem upholds_ensureActive (h : Invariant I) (txn : Handle) :
    Upholds I (ensureActive txn : Action σ Unit) := by
  apply upholds_onRegistry
  apply (h.find txn.id).bind
  intro record
  simp only
  split
  · exact Step.preserves_throw _
  · exact Step.preserves_pure _

theorem upholds_write (h : Invariant I) (txn : Handle) (row : Bytes)
    (columns : List (Bytes × Bytes)) : Upholds I (write txn row columns : Action σ Unit) := by
  have hsees : ∀ cells, Upholds I (reading (seesTombstone txn cells) : Action σ Bool) := by
    intro cells
    apply upholds_reading
    apply Step.preserves_anyM
    intro c
    split
    · exact Reading.upholds_isVisible h c txn
    · exact Step.preserves_pure _
  have hput : Upholds I (do
      onCells fun s => columns.foldl (fun s c => s.put (Cell.data row c.1 txn.id c.2)) s
      onCells (·.put (Cell.unresolvedMarker row txn.id)) : Action σ Unit) :=
    (upholds_onCells _).bind fun _ => upholds_onCells _
  unfold write
  apply (upholds_ensureActive h txn).bind
  intro _
  apply Step.preserves_get.bind
  intro e
  simp only
  split
  · apply (hsees _).bind
    intro sees
    split
    · exact (upholds_onCells _).bind fun _ => hput
    · exact hput
  · exact hput

theorem upholds_delete (h : Invariant I) (txn : Handle) (row : Bytes) :
    Upholds I (delete txn row : Action σ Unit) :=
  (upholds_ensureActive h txn).bind fun _ => (upholds_onCells _).bind fun _ =>
    (upholds_onCells _).bind fun _ => upholds_onCells _

theorem upholds_readRow (h : Invariant I) (txn : Handle) (row : Bytes) :
    Upholds I (readRow txn row : Action σ (List Cell)) :=
  Step.preserves_get.bind fun _ => upholds_reading (Reading.upholds_readRow h _ txn)

theorem upholds_compact (h : Invariant I) : Upholds I (compact : Action σ CompactionStats) := by
  intro e he
  have hend := CompactionPass.preserves_compact h (e.cells, e.registry, .start) he
  rw [EStateM.run, compact]
  cases hrun : (CellStore.compact CompactionPass.hook).run (e.cells, e.registry, .start) with
  | ok outcome s =>
    rw [hrun] at hend
    exact hend
  | error cause s =>
    rw [hrun] at hend
    exact hend

variable [TimestampSource σ]

theorem upholds_nextTimestamp (h : Invariant I) :
    Upholds I (nextTimestamp : Action σ (Except TimestampError Timestamp)) := by
  intro e he
  rw [run_nextTimestamp]
  exact invariant_interfere h he _

theorem upholds_start (h : Invariant I) (isolation : Isolation) (parent : Option Handle) :
    Upholds I (start isolation parent : Action σ Handle) := by
  apply (upholds_nextTimestamp h).bind
  intro given
  split
  · exact Step.preserves_throw _
  · exact upholds_onRegistry (h.start _ parent isolation)

theorem upholds_commit (h : Invariant I) (txn : Handle) :
    Upholds I (commit txn : Action σ Timestamp) := by
  apply (upholds_onRegistry (preserves_prepareCommit h txn)).bind
  intro prepared
  split
  · exact Step.preserves_pure _
  · apply (upholds_nextTimestamp h).bind
    intro given
    exact upholds_onRegistry (preserves_finishCommit h txn given)

/-- Keeping a floor concerns the source only. -/
theorem preserves_rememberWatermark {K : Engine σ → Prop}
    (h : ∀ e source, K e → K { e with source := source }) :
    Preserves K (rememberWatermark : Action σ (Option Timestamp)) := by
  unfold rememberWatermark
  apply Step.preserves_get.bind
  intro e
  have hremember : ∀ ts, Preserves K (Step.mapError StorageError.timestamp (Step.focus Engine.source
      (fun s (e : Engine σ) => { e with source := s }) (TimestampSource.remember ts))) := by
    intro ts
    exact Step.Ends.mapError (Step.preserves_focus_of_frame _ h) _
  simp only
  split
  · exact (hremember _).bind fun _ => Step.preserves_pure _
  · exact Step.preserves_pure _

/-- A call keeps every invariant of the registry, whether it answers or fails. -/
theorem preserves_perform (h : Invariant I) (call : Call) :
    Upholds I (call.perform : Action σ (Option Handle)) := by
  cases call with
  | start isolation parent =>
    exact (upholds_start h isolation parent).bind fun _ => Step.preserves_pure _
  | write txn row columns =>
    exact (upholds_write h txn row columns).bind fun _ => Step.preserves_pure _
  | delete txn row => exact (upholds_delete h txn row).bind fun _ => Step.preserves_pure _
  | commit txn => exact (upholds_commit h txn).bind fun _ => Step.preserves_pure _
  | rollback txn =>
    exact (upholds_onRegistry (h.settle txn.id .rollback)).bind fun _ => Step.preserves_pure _
  | readRow txn row => exact (upholds_readRow h txn row).bind fun _ => Step.preserves_pure _
  | isVisible c txn =>
    exact (upholds_reading (Reading.upholds_isVisible h c txn)).bind fun _ => Step.preserves_pure _
  | compact => exact (upholds_compact h).bind fun _ => Step.preserves_pure _
  | rememberWatermark =>
    exact (preserves_rememberWatermark fun _ _ he => he).bind fun _ => Step.preserves_pure _

end Engine

/-- A run keeps every invariant of the registry. -/
theorem Session.Run.upholds {σ : Type} [TimestampSource σ] {fits : Session σ → Call → Prop}
    {s s' : Session σ} (hrun : Run fits s s') (h : Invariant I) (hs : I s.engine.registry) :
    I s'.engine.registry := by
  induction hrun with
  | nil => exact hs
  | @call _ call _ _ _ ih => exact (Engine.preserves_perform h call).after ih

end SnapshotIsolation
