import SnapshotIsolation.Proofs.Cell.Writing
import SnapshotIsolation.Proofs.Engine.Commits

/-!
# The effect of every call

Each call of the engine is run from its beginning to its end, through every refusal.

Main results:

- Theorems {lit}`Engine.run_write` and {lit}`Engine.run_delete`: what an active transaction does to
  the cells.
- Theorem {lit}`Engine.perform_effect`: the effect of every call, whether it answers or fails.
-/

namespace SnapshotIsolation

open Registry (Table Coherent Consulted Sound Bounded Interfered)

namespace Engine

variable {σ α : Type}

/-! ## Running parts of calls -/

/-- A reading answers from the table and leaves nothing but look-ups behind. -/
theorem run_reading {e : Engine σ} {act : Reading α} {result : Except StorageError α}
    (h : Coherent e.registry) (hanswers : Reading.Answers e.registry.table act result) :
    ∃ r', Consulted e.registry r' ∧
      (reading act : Action σ α).run e = Step.ending result { e with registry := r' } := by
  rcases hanswers _ (ReadState.faithful_empty h) with ⟨s', _, hconsulted, hrun⟩
  exact ⟨s'.registry, hconsulted, run_onRegistry (Step.run_focus_of_ending hrun)⟩

/-- A request for a timestamp, the answer to which is recorded. -/
theorem run_nextTimestamp_recorded [TimestampSource σ] {e : Engine (RecordedSource σ)}
    (h : Coherent e.registry) :
    ∃ answer source r', Coherent r' ∧
      Interfered answer.meanwhile e.registry.table r'.table ∧
      nextTimestamp.run e =
        .ok answer.result ⟨⟨source, e.source.answers ++ [answer]⟩, r', e.cells⟩ := by
  rcases interfered_after_interfere h e.nextAnswer.meanwhile with ⟨hcoherent, hinterfered⟩
  exact ⟨e.nextAnswer, _, e.registryMeanwhile, hcoherent, hinterfered, run_nextTimestamp e⟩

theorem run_ensureActive {e : Engine σ} (h : Coherent e.registry) (txn : Handle) :
    ∃ result r', Consulted e.registry r' ∧
      (ensureActive txn).run e = Step.ending result { e with registry := r' } ∧
      (result = .ok () ↔ ∃ record, e.registry.table.get? txn.id = some record ∧
        record.status = .active) := by
  rcases run_requireActive h txn.id (.notActive txn.id) with ⟨result, r', hconsulted, hrun, hactive⟩
  exact ⟨result, r', hconsulted, run_onRegistry hrun, hactive⟩

/-! ## Writing -/

/-- A delete for an active transaction goes ahead. -/
theorem run_delete {e : Engine σ} (h : Coherent e.registry) {txn : Handle} {record : Record}
    (hfound : e.registry.table.get? txn.id = some record) (hactive : record.status = .active)
    (row : Bytes) :
    ∃ r', Consulted e.registry r' ∧ (delete txn row).run e =
      .ok () { e with registry := r', cells := e.cells.deleted row txn.id } := by
  rcases run_ensureActive h txn with ⟨result, r', hconsulted, hrun, hiff⟩
  rw [hiff.2 ⟨record, hfound, hactive⟩] at hrun
  refine ⟨r', hconsulted, ?_⟩
  unfold delete
  rw [Step.run_bind_of_ok hrun]
  rfl

/-- A write for an active transaction goes ahead if it can be found out whether the transaction
sees a tombstone; it cancels none of the transaction's own. -/
theorem run_write {e : Engine σ} (h : Coherent e.registry) {txn : Handle} {record : Record}
    (hfound : e.registry.table.get? txn.id = some record) (hactive : record.status = .active)
    {row : Bytes} {answer : Except StorageError Bool}
    (hanswers : Reading.Answers e.registry.table (seesTombstone txn (e.cells.row row)) answer)
    (columns : List (Bytes × Bytes)) :
    ∃ r', Consulted e.registry r' ∧
      ((∃ cause, answer = .error cause ∧
          (write txn row columns).run e = .error cause { e with registry := r' }) ∨
        ∃ cancels, (cancels = true → isDeletedBy txn (e.cells.row row) = false) ∧
          (write txn row columns).run e = .ok ()
            { e with registry := r', cells := e.cells.written row txn.id cancels columns }) := by
  rcases run_ensureActive h txn with ⟨result, r₁, hconsulted₁, hrun, hiff⟩
  rw [hiff.2 ⟨record, hfound, hactive⟩] at hrun
  cases hdeleted : isDeletedBy txn (e.cells.row row) with
  | true =>
    refine ⟨r₁, hconsulted₁, .inr ⟨false, nofun, ?_⟩⟩
    unfold write
    rw [Step.run_bind_of_ok hrun, EStateM.run_bind, EStateM.run_get]
    simp only [hdeleted]
    rfl
  | false =>
    rw [← hconsulted₁.table] at hanswers
    obtain ⟨r₂, hconsulted₂, hreading⟩ :=
      run_reading (e := { e with registry := r₁ }) hconsulted₁.coherent hanswers
    refine ⟨r₂, hconsulted₁.trans hconsulted₂, ?_⟩
    unfold write
    rw [Step.run_bind_of_ok hrun, EStateM.run_bind, EStateM.run_get]
    simp only [hdeleted]
    cases answer with
    | error cause => exact .inl ⟨cause, rfl, Step.run_bind_of_error hreading⟩
    | ok sees =>
      refine .inr ⟨sees, fun _ => trivial, (Step.run_bind_of_ok hreading).trans ?_⟩
      cases sees <;> rfl

/-! ## Effects -/

variable {call : Call} {result : Except StorageError (Option Handle)}
  {e e' : Engine (RecordedSource σ)}

/-- A call that only looked things up. -/
theorem Effect.looked (hconsulted : Consulted e.registry e'.registry)
    (hanswers : e'.source.answers = e.source.answers) (hcells : e'.cells = e.cells)
    (hresult : ∀ h, result ≠ .ok (some h)) : Effect call result e e' := by
  refine ⟨hconsulted.coherent, [], e.registry.table, by simp [hanswers], .nil, ?_⟩
  rw [hconsulted.table, hcells]
  exact .looked hresult

/-- A write or a delete that goes ahead for an active transaction. -/
theorem Effect.wrote {txn : Handle} {record : Record}
    (hconsulted : Consulted e.registry e'.registry)
    (hanswers : e'.source.answers = e.source.answers) (hactor : call.actor? = some txn)
    (hfound : e.registry.table.get? txn.id = some record) (hactive : record.status = .active)
    (hwritten : CellStore.WrittenBy txn.id e.cells e'.cells) : Effect call (.ok none) e e' := by
  refine ⟨hconsulted.coherent, [], e.registry.table, by simp [hanswers], .nil, ?_⟩
  rw [hconsulted.table]
  exact .wrote hactor hfound hactive hwritten

theorem map_const_ne (result : Except StorageError α) (h : Handle) :
    result.map (fun _ => (none : Option Handle)) ≠ .ok (some h) := by
  cases result <;> simp [Except.map]

theorem run_bind_none {act : Action σ α} {result : Except StorageError α} {e e' : Engine σ}
    (h : act.run e = Step.ending result e') :
    (act >>= fun _ => pure (none : Option Handle)).run e =
      Step.ending (result.map fun _ => none) e' := by
  cases result with
  | ok a => rw [Step.run_bind_of_ok h]; rfl
  | error cause => rw [Step.run_bind_of_error h]; rfl

/-- A pass that goes through leaves its store and registry. -/
theorem run_compact_of_ok {e : Engine σ} {outcome : CompactionOutcome} {s : CellStore}
    {r : Registry} {p : CompactionPass}
    (h : (CellStore.compact CompactionPass.hook).run (e.cells, e.registry, .start) =
      .ok outcome (s, r, p)) :
    compact.run e = .ok p.stats { e with cells := s, registry := r } := by
  show compact e = _
  unfold compact
  rw [h]

variable [TimestampSource σ]

theorem effect_readRow (h : Coherent e.registry) (txn : Handle) (row : Bytes) :
    ∃ result e', (Call.readRow txn row).perform.run e = Step.ending result e' ∧
      Effect (.readRow txn row) result e e' := by
  obtain ⟨result, hanswers⟩ :=
    Reading.determined_readRow (t := e.registry.table) (e.cells.row row) txn
  rcases run_reading h hanswers with ⟨r', hconsulted, hrun⟩
  have hread : (readRow txn row).run e = Step.ending result { e with registry := r' } := by
    unfold readRow
    rw [EStateM.run_bind, EStateM.run_get]
    exact hrun
  exact ⟨_, _, run_bind_none hread, .looked hconsulted rfl rfl (map_const_ne result)⟩

theorem effect_isVisible (h : Coherent e.registry) (c : Cell) (txn : Handle) :
    ∃ result e', (Call.isVisible c txn).perform.run e = Step.ending result e' ∧
      Effect (.isVisible c txn) result e e' := by
  obtain ⟨result, hanswers⟩ := Reading.determined_isWriterVisible (t := e.registry.table)
    c.timestamp none txn.snapshot txn
  rcases run_reading h hanswers with ⟨r', hconsulted, hrun⟩
  exact ⟨_, _, run_bind_none hrun, .looked hconsulted rfl rfl (map_const_ne result)⟩

theorem run_remember (e : Engine (RecordedSource σ)) (ts : Timestamp) :
    ∃ result source, (Step.mapError StorageError.timestamp (Step.focus Engine.source
        (fun s e => { e with source := s }) (TimestampSource.remember ts))).run e =
      Step.ending result { e with source := { e.source with source := source } } := by
  have hremember := Step.run_eq_ending (TimestampSource.remember (σ := σ) ts) e.source.source
  exact ⟨_, _, Step.run_mapError_of_ending
    (Step.run_focus_of_ending (Step.run_focus_of_ending hremember))⟩

theorem run_rememberWatermark (e : Engine (RecordedSource σ)) :
    ∃ result source, rememberWatermark.run e =
      Step.ending result { e with source := { e.source with source := source } } := by
  unfold rememberWatermark
  simp only [EStateM.run_bind, EStateM.run_get]
  cases hmark : e.registry.lowWatermark <|> e.registry.maxTimestamp with
  | none => exact ⟨.ok none, e.source.source, rfl⟩
  | some ts =>
    rcases run_remember e ts with ⟨result, source, hrun⟩
    cases result with
    | ok _ => exact ⟨.ok (some ts), source, Step.run_bind_of_ok hrun⟩
    | error cause => exact ⟨.error cause, source, Step.run_bind_of_error hrun⟩

theorem effect_rememberWatermark (h : Coherent e.registry) :
    ∃ result e', (Call.rememberWatermark).perform.run e = Step.ending result e' ∧
      Effect .rememberWatermark result e e' := by
  rcases run_rememberWatermark e with ⟨result, source, hrun⟩
  exact ⟨_, _, run_bind_none hrun, .looked (.refl h) rfl rfl (map_const_ne result)⟩

theorem effect_compact (h : Coherent e.registry) (hsound : Sound e.registry.table)
    (hbounded : Bounded e.registry.table) :
    ∃ result e', (Call.compact).perform.run e = Step.ending result e' ∧
      Effect .compact result e e' := by
  obtain ⟨outcome, s', r', p, hconsulted, hresolved, hrun⟩ :=
    CompactionPass.run_compact h hsound hbounded e.cells
  have hcompact : compact.run e =
      Step.ending (.ok p.stats) { e with cells := s', registry := r' } := run_compact_of_ok hrun
  refine ⟨_, _, run_bind_none hcompact, hconsulted.coherent, [], e.registry.table, by simp, .nil,
    ?_⟩
  rw [hconsulted.table]
  exact .resolved hresolved

/-! ## Calls that write -/

theorem effect_delete (h : Coherent e.registry) (txn : Handle) (row : Bytes) :
    ∃ result e', (Call.delete txn row).perform.run e = Step.ending result e' ∧
      Effect (.delete txn row) result e e' := by
  rcases run_ensureActive h txn with ⟨result, r', hconsulted, hrun, hactive⟩
  cases result with
  | ok _ =>
    rcases hactive.1 rfl with ⟨record, hfound, hstatus⟩
    rcases run_delete h hfound hstatus row with ⟨r', hconsulted, hdelete⟩
    exact ⟨.ok none, _, run_bind_none (show _ = Step.ending (.ok ()) _ from hdelete),
      .wrote hconsulted rfl rfl hfound hstatus (CellStore.writtenBy_deleted ..)⟩
  | error cause =>
    have hdelete : (delete txn row).run e = Step.ending (.error cause) { e with registry := r' } :=
      Step.run_bind_of_error hrun
    exact ⟨_, _, run_bind_none hdelete, .looked hconsulted rfl rfl (map_const_ne _)⟩

/-- Whether a transaction sees a tombstone is a matter of the records. -/
theorem determined_seesTombstone {t : Table} (txn : Handle) (cells : List Cell) :
    Reading.Determined t (seesTombstone txn cells) := by
  apply Reading.determined_anyM
  intro c
  split
  · exact Reading.determined_isWriterVisible ..
  · exact Reading.determined_pure _

theorem effect_write (h : Coherent e.registry) (txn : Handle) (row : Bytes)
    (columns : List (Bytes × Bytes)) :
    ∃ result e', (Call.write txn row columns).perform.run e = Step.ending result e' ∧
      Effect (.write txn row columns) result e e' := by
  rcases run_ensureActive h txn with ⟨result, r', hconsulted, hrun, hactive⟩
  cases result with
  | error cause =>
    have hwrite : (write txn row columns).run e =
        Step.ending (.error cause) { e with registry := r' } := Step.run_bind_of_error hrun
    exact ⟨_, _, run_bind_none hwrite, .looked hconsulted rfl rfl (map_const_ne _)⟩
  | ok _ =>
    rcases hactive.1 rfl with ⟨record, hfound, hstatus⟩
    obtain ⟨answer, hanswers⟩ :=
      determined_seesTombstone (t := e.registry.table) txn (e.cells.row row)
    rcases run_write h hfound hstatus hanswers columns with
      ⟨r', hconsulted, ⟨cause, _, hwrite⟩ | ⟨cancels, _, hwrite⟩⟩
    · exact ⟨.error cause, _, run_bind_none (show _ = Step.ending (.error cause) _ from hwrite),
        .looked hconsulted rfl rfl (by simp)⟩
    · exact ⟨.ok none, _, run_bind_none (show _ = Step.ending (.ok ()) _ from hwrite),
        .wrote hconsulted rfl rfl hfound hstatus (CellStore.writtenBy_written ..)⟩

/-! ## Calls that begin or settle -/

theorem effect_rollback (h : Coherent e.registry) (txn : Handle) :
    ∃ result e', (Call.rollback txn).perform.run e = Step.ending result e' ∧
      Effect (.rollback txn) result e e' := by
  rcases Registry.run_settling h txn.id .rollback with ⟨result, r', hcoherent, hsettling, hrun⟩
  have hrollback : (rollback txn).run e = Step.ending result { e with registry := r' } :=
    run_onRegistry hrun
  refine ⟨_, _, run_bind_none hrollback, hcoherent, [], e.registry.table, by simp, .nil, ?_⟩
  generalize r'.table = t' at hsettling
  cases hsettling with
  | refused cause => exact .looked (map_const_ne _)
  | repeated _ _ => exact .looked (map_const_ne _)
  | closed hold hcloses => exact .rolledBack hold hcloses

theorem effect_start (h : Coherent e.registry) (isolation : Isolation) (parent : Option Handle) :
    ∃ result e', (Call.start isolation parent).perform.run e = Step.ending result e' ∧
      Effect (.start isolation parent) result e e' := by
  rcases run_nextTimestamp_recorded h with
    ⟨⟨others, given⟩, source, r₁, hcoherent₁, hinterfered, hasked⟩
  have hflat : Interfered ([Answer.mk others given].flatMap (·.meanwhile)) e.registry.table
      r₁.table := by simpa using hinterfered
  cases given with
  | error cause =>
    have hstart : (start isolation parent).run e = Step.ending (.error (.timestamp cause))
        ⟨⟨source, e.source.answers ++ [⟨others, .error cause⟩]⟩, r₁, e.cells⟩ :=
      Step.run_bind_of_ok hasked
    refine ⟨.error (.timestamp cause), _, Step.run_bind_of_error hstart, hcoherent₁,
      [⟨others, .error cause⟩], r₁.table, rfl, hflat, .looked ?_⟩
    simp
  | ok id =>
    rcases Registry.run_start hcoherent₁ id parent isolation with ⟨r₂, hconsulted, hbegin⟩
    let asked : Engine (RecordedSource σ) :=
      ⟨⟨source, e.source.answers ++ [⟨others, .ok id⟩]⟩, r₁, e.cells⟩
    cases hfresh : Registry.freshRecord r₁.table id parent isolation with
    | error cause =>
      rw [hfresh] at hbegin
      have hregistry : (onRegistry (Registry.start id parent isolation) :
          Action (RecordedSource σ) Handle).run asked =
          Step.ending (.error cause) { asked with registry := r₂ } := run_onRegistry hbegin
      have hstart : (start isolation parent).run e =
          Step.ending (.error cause) { asked with registry := r₂ } :=
        (Step.run_bind_of_ok hasked).trans hregistry
      refine ⟨.error cause, _, Step.run_bind_of_error hstart, hconsulted.coherent,
        [⟨others, .ok id⟩], r₁.table, rfl, hflat, ?_⟩
      show Deed _ _ _ _ _ _ r₂.table _
      rw [hconsulted.table]
      exact .looked (by simp)
    | ok fresh =>
      rw [hfresh] at hbegin
      have hbegins := Registry.begins_of_freshRecord hfresh
      have hregistry : (onRegistry (Registry.start id parent isolation) :
          Action (RecordedSource σ) Handle).run asked =
          Step.ending (.ok fresh.toHandle) { asked with registry := r₂.withBegun id fresh } :=
        run_onRegistry hbegin
      have hstart : (start isolation parent).run e =
          Step.ending (.ok fresh.toHandle) { asked with registry := r₂.withBegun id fresh } :=
        (Step.run_bind_of_ok hasked).trans hregistry
      have hextends : Registry.Extends r₂.table (r₂.withBegun id fresh).table := by
        refine Registry.extends_insert_of_unused ?_ fresh
        rw [hconsulted.table]
        exact hbegins.unused
      refine ⟨.ok (some fresh.toHandle), _, Step.run_bind_of_ok hstart,
        hconsulted.coherent.of_extends rfl hextends, [⟨others, .ok id⟩], r₁.table, rfl, hflat, ?_⟩
      show Deed _ _ _ _ _ _ (r₂.table.insert id fresh) _
      rw [hconsulted.table]
      exact .began rfl hbegins

theorem effect_commit (h : Coherent e.registry) (txn : Handle) :
    ∃ result e', (Call.commit txn).perform.run e = Step.ending result e' ∧
      Effect (.commit txn) result e e' := by
  by_cases hmay : MayCommit e.registry.table txn.id
  · rcases run_commit_of_mayCommit h hmay with ⟨result, r', hcoherent, hfinishing, hrun⟩
    rcases hmay with ⟨record, hrecord, _, hparent⟩
    have hinterfered : Interfered e.nextAnswer.meanwhile e.registry.table
        e.registryMeanwhile.table := (interfered_after_interfere h e.nextAnswer.meanwhile).2
    have hflat : Interfered ([e.nextAnswer].flatMap (·.meanwhile)) e.registry.table
        e.registryMeanwhile.table := by simpa using hinterfered
    refine ⟨_, _, run_bind_none hrun, hcoherent, [e.nextAnswer], e.registryMeanwhile.table, rfl,
      hflat, ?_⟩
    show Deed _ _ _ _ _ _ r'.table _
    have hanswer : [e.nextAnswer] = [⟨e.nextAnswer.meanwhile, e.nextAnswer.result⟩] := rfl
    generalize e.nextAnswer.result = given, r'.table = t' at hfinishing hanswer ⊢
    cases hfinishing with
    | committed hold hcloses =>
      refine .committed hanswer hold hcloses ?_
      -- the parent was looked up before others could act, in the record's unchanging handle
      rcases hinterfered.extended.kept hrecord with ⟨old', hold', hhandle⟩
      rw [hold', Option.some.injEq] at hold
      subst hold
      rw [hhandle]
      intro parent rest hancestors
      exact hparent parent (by simp [Handle.parent?, hancestors])
    | abandoned hold hcloses => exact .failed hold hcloses
    | unavailable _ => exact .looked (map_const_ne _)
    | adopted _ => exact .looked (map_const_ne _)
    | refused _ _ => exact .looked (map_const_ne _)
  · rcases run_commit_of_not_mayCommit h hmay with ⟨result, r', hconsulted, hrun, _⟩
    exact ⟨_, _, run_bind_none hrun, .looked hconsulted rfl rfl (map_const_ne _)⟩

/-- The effect of every call, whether it answers or fails. -/
theorem perform_effect (h : Coherent e.registry) (hsound : Sound e.registry.table)
    (hbounded : Bounded e.registry.table) (call : Call) :
    ∃ result e', call.perform.run e = Step.ending result e' ∧ Effect call result e e' := by
  cases call with
  | start isolation parent => exact effect_start h isolation parent
  | write txn row columns => exact effect_write h txn row columns
  | delete txn row => exact effect_delete h txn row
  | commit txn => exact effect_commit h txn
  | rollback txn => exact effect_rollback h txn
  | readRow txn row => exact effect_readRow h txn row
  | isVisible c txn => exact effect_isVisible h c txn
  | compact => exact effect_compact h hsound hbounded
  | rememberWatermark => exact effect_rememberWatermark h

end Engine

end SnapshotIsolation
