import SnapshotIsolation.Proofs.Registry.Operations

/-!
# Recovery

Opening a registry over the first bytes of a journal replays the operations whose frames lie
within them, and settles as an error whatever they left active.

Main results:

- Theorem {lit}`Registry.run_openAt`: which registry is opened over a file of frames.
- Theorem {lit}`Registry.run_openAt_take`: which one is opened over the first bytes of it.
- Theorem {lit}`Registry.Keeps.run_openAt_again`: opening once more changes nothing.
-/

namespace SnapshotIsolation

/-- A record that outlives its process: if it was active, it is settled as an error. -/
def Record.abandoned (r : Record) : Record :=
  if r.status = .active then { r with status := .error, commitTs := some r.id } else r

theorem Record.status_abandoned_ne_active (r : Record) : r.abandoned.status ≠ .active := by
  unfold abandoned
  split
  · simp
  · assumption

theorem Record.abandoned_of_isTerminal {r : Record} (h : r.status.isTerminal = true) :
    r.abandoned = r :=
  if_neg (Status.isTerminal_iff.1 h)

theorem Record.toHandle_abandoned (r : Record) : r.abandoned.toHandle = r.toHandle := by
  unfold abandoned
  split <;> rfl

theorem Record.abandoned_eq_of_committed (r : Record) (h : r.abandoned.status = .committed) :
    r.abandoned = r := by
  unfold abandoned at h ⊢
  split
  · rename_i hactive
    rw [if_pos hactive] at h
    cases h
  · rfl

namespace Registry

open Journal (holding image)

variable {r : Registry} {t : Table} {id : Timestamp} {ops : List Operation} {op : Operation}
  {new : Record}

/-! ## Registries with a journal -/

/-- The registry is what the operations lead to, and its journal tells of them. -/
structure Keeps (r : Registry) (ops : List Operation) : Prop where
  coherent : Coherent r
  told : Told ops
  table : r.table = (enact ops).table
  journal : r.journal = some (holding (ledger ops))

theorem Keeps.journalNode (h : Keeps r ops) :
    r.journalNode = some (.file (image (ledger ops))) := by
  rw [Registry.journalNode, h.journal]
  rfl

/-- An operation that changes the table is told by one more entry. -/
theorem Keeps.perform (h : Keeps r ops) (hput : op.put? r.table = some new)
    (hfits : Journal.Entry.Fits ⟨(ledger ops).foldl Journal.lsnAfter 0, op.txn, op.event⟩) :
    Keeps (Step.after op.perform r) (ops ++ [op]) := by
  rcases Operation.after_perform_of_some h.coherent hput with ⟨hcoherent, htable, hjournal⟩
  rw [h.table] at hput
  refine ⟨hcoherent, h.told.more hput hfits, ?_, ?_⟩
  · rw [htable, table_enact_concat hput, h.table]
  · rw [hjournal, h.journal, Option.map_some, Journal.log_holding, ledger_concat]

theorem Keeps.perform_of_none (h : Keeps r ops) (hput : op.put? r.table = none) :
    Keeps (Step.after op.perform r) ops := by
  rcases Operation.after_perform_of_none h.coherent hput with ⟨hcoherent, htable, hjournal⟩
  exact ⟨hcoherent, h.told, htable.trans h.table, hjournal.trans h.journal⟩

/-! ## What was active -/

theorem mem_inFlight :
    id ∈ r.inFlight ↔ ∃ record, r.table.get? id = some record ∧ record.status = .active := by
  simp only [inFlight, List.mem_map, List.mem_filter, decide_eq_true_eq]
  constructor
  · rintro ⟨⟨id, record⟩, ⟨hmem, hactive⟩, rfl⟩
    exact ⟨record, SortedMap.get?_eq_some_iff.2 hmem, hactive⟩
  · rintro ⟨record, hfound, hactive⟩
    exact ⟨(id, record), ⟨SortedMap.get?_eq_some_iff.1 hfound, hactive⟩, rfl⟩

theorem nodup_inFlight (r : Registry) : r.inFlight.Nodup := by
  refine List.pairwise_map.2 ((r.table.ascending.filter _).imp ?_)
  rintro a b hlt heq
  rw [heq] at hlt
  simp at hlt

theorem put?_settle_error {record : Record} (hfound : t.get? id = some record)
    (hactive : record.status = .active) :
    Operation.put? t (.settle id .error) = some record.abandoned := by
  have hsettled : settledRecord t id .error = .ok record.abandoned := by
    simp [settledRecord, lookUp_of_get? hfound, Record.settle, Record.abandon, Record.abandoned,
      hactive]
  have hchanged : t.get? id ≠ some record.abandoned := by
    rw [hfound]
    intro hsame
    exact record.status_abandoned_ne_active (Option.some.inj hsame ▸ hactive)
  simp [Operation.put?, hsettled, Except.toOption, hchanged]

theorem run_settle_of_put? {outcome : Outcome}
    (h : Operation.put? r.table (.settle id outcome) = some new) :
    (settle id outcome).run r = .ok () (Step.after (Operation.settle id outcome).perform r) := by
  rcases Operation.settledRecord_of_put? h with ⟨hsettled, hchanged⟩
  simp [Step.after, Operation.perform, run_settle, hsettled, hchanged]

/-- The operations that settle as an error whatever is active. -/
def abandonments (r : Registry) : List Operation := r.inFlight.map fun id => .settle id .error

/-- Active records are settled as errors one after the other. -/
theorem Keeps.run_forM_settle (h : Keeps r ops) {ids : List Timestamp} (hnodup : ids.Nodup)
    (hactive : ∀ id ∈ ids, ∃ record, r.table.get? id = some record ∧ record.status = .active) :
    ∃ r', (ids.forM fun id => settle id .error).run r = .ok () r' ∧
      Keeps r' (ops ++ ids.map fun id => .settle id .error) ∧
      ∀ id', r'.table.get? id' =
        if id' ∈ ids then (r.table.get? id').map Record.abandoned else r.table.get? id' := by
  induction ids generalizing r ops with
  | nil => exact ⟨r, rfl, by rwa [List.map_nil, List.append_nil], fun _ => rfl⟩
  | cons id ids ih =>
    rcases List.nodup_cons.1 hnodup with ⟨hid, hnodup⟩
    rcases hactive id List.mem_cons_self with ⟨record, hfound, hstatus⟩
    have hput := put?_settle_error hfound hstatus
    have hkeeps := h.perform hput (Journal.Entry.fits_settled ..)
    have htable := (Operation.after_perform_of_some h.coherent hput).2.1
    have hothers : ∀ id' ∈ ids, ∃ record,
        (Step.after (Operation.settle id .error).perform r).table.get? id' = some record ∧
          record.status = .active := by
      intro id' hid'
      rw [htable, Operation.txn, SortedMap.get?_insert_of_ne]
      · exact hactive id' (List.mem_cons_of_mem _ hid')
      · rintro rfl
        exact hid hid'
    rcases ih hkeeps hnodup hothers with ⟨r', hrun, hkeeps', hget⟩
    refine ⟨r', ?_, ?_, ?_⟩
    · rw [List.forM, Step.run_bind_of_ok (run_settle_of_put? hput)]
      exact hrun
    · rw [List.map_cons, List.append_cons]
      exact hkeeps'
    · intro id'
      rw [hget, htable, Operation.txn]
      by_cases heq : id' = id
      · subst heq
        simp [hid, hfound]
      · simp [heq, SortedMap.get?_insert_of_ne _ _ heq]

/-- Abandoning what is in flight settles every active record as an error. -/
theorem Keeps.run_abandonInFlight (h : Keeps r ops) :
    ∃ r', abandonInFlight.run r = .ok () r' ∧ Keeps r' (ops ++ r.abandonments) ∧
      r'.table = r.table.map Record.abandoned := by
  obtain ⟨r', hrun, hkeeps, hget⟩ :=
    h.run_forM_settle r.nodup_inFlight fun _ hid => mem_inFlight.1 hid
  refine ⟨r', hrun, hkeeps, ?_⟩
  apply SortedMap.ext_get?
  intro id
  rw [hget, SortedMap.get?_map]
  split
  · rfl
  · rename_i hid
    cases hfound : r.table.get? id with
    | none => rfl
    | some record =>
      have hterminal : record.status.isTerminal = true := by
        refine Status.isTerminal_iff.2 fun hactive => hid ?_
        exact mem_inFlight.2 ⟨record, hfound, hactive⟩
      rw [Option.map_some, Record.abandoned_of_isTerminal hterminal]

/-! ## Opening -/

theorem abandonments_congr {r' : Registry} (h : r.table = r'.table) :
    r.abandonments = r'.abandonments := by
  rw [abandonments, abandonments, inFlight, inFlight, h]

/-- The registry once operations were replayed from its journal. -/
def replayed (capacity : Nat) (ops : List Operation) : Registry :=
  { inMemory capacity with
    table := (enact ops).table
    journal := some (holding (ledger ops)) }

theorem keeps_replayed (capacity : Nat) (h : Told ops) : Keeps (replayed capacity ops) ops := by
  refine ⟨?_, h, rfl, rfl⟩
  intro e he
  simp [replayed, inMemory, TerminalCache.ofCapacity] at he

/-- Opening over a file of frames replays the operations that they tell of, and abandons what
these left active. -/
theorem run_openAt (capacity : Nat) (slot : FileSlot) (hobstructed : slot.obstructed = false)
    (hnode : slot.node ≠ .directory) (h : Told ops)
    (hscan : (Journal.scan (slot.node.content?.getD [])).frames =
      (ledger ops).map Journal.Frame.ofEntry) :
    ∃ r, (openAt capacity).run slot =
        .ok r ⟨false, .file (image (ledger (ops ++ (enact ops).abandonments)))⟩ ∧
      Keeps r (ops ++ (enact ops).abandonments) ∧
      r.table = (enact ops).table.map Record.abandoned := by
  have hjournal := Journal.run_openAt hobstructed hnode (fun _ he => h.legible.fits he) hscan
  rcases (keeps_replayed capacity h).run_abandonInFlight with ⟨r, hrun, hkeeps, htable⟩
  have hsame : (replayed capacity ops).abandonments = (enact ops).abandonments :=
    abandonments_congr rfl
  rw [hsame] at hkeeps
  refine ⟨r, ?_, hkeeps, htable⟩
  unfold openAt
  rw [Step.run_bind_of_ok (Step.run_mapError_of_ok hjournal)]
  simp only [replayed] at hrun
  simp [Journal.readAll_holding h.legible, h.replay, hrun, hkeeps.journalNode, Except.mapError]

/-- Opening over the first bytes of a file of frames does so with the operations whose frames lie
within them. -/
theorem run_openAt_take (capacity : Nat) (h : Told ops) (c : Nat) :
    let kept := ops.take (Journal.Frame.countWithin (Journal.scan (image (ledger ops))).frames c)
    ∃ r, (openAt capacity).run ⟨false, .file ((image (ledger ops)).take c)⟩ =
        .ok r ⟨false, .file (image (ledger (kept ++ (enact kept).abandonments)))⟩ ∧
      Keeps r (kept ++ (enact kept).abandonments) ∧
      r.table = (enact kept).table.map Record.abandoned := by
  have hfits : ∀ e ∈ ledger ops, e.Fits := fun _ he => h.legible.fits he
  apply run_openAt capacity _ rfl (by simp) (h.take _)
  rw [Journal.scan_image hfits, ← ledger_take]
  exact Journal.frames_scan_image_take hfits c

theorem abandonments_eq_nil (h : r.table = t.map Record.abandoned) : r.abandonments = [] := by
  rw [abandonments, List.map_eq_nil_iff, List.eq_nil_iff_forall_not_mem]
  intro id hid
  rcases mem_inFlight.1 hid with ⟨record, hfound, hactive⟩
  rw [h, SortedMap.get?_map, Option.map_eq_some_iff] at hfound
  rcases hfound with ⟨old, _, rfl⟩
  exact old.status_abandoned_ne_active hactive

/-- Once nothing is active, opening again finds the same table and adds nothing to the file. -/
theorem Keeps.run_openAt_again (h : Keeps r ops) (htable : r.table = t.map Record.abandoned)
    (capacity : Nat) :
    ∃ again, (openAt capacity).run ⟨false, .file (image (ledger ops))⟩ =
        .ok again ⟨false, .file (image (ledger ops))⟩ ∧ again.table = r.table := by
  have hfits : ∀ e ∈ ledger ops, e.Fits := fun _ he => h.told.legible.fits he
  have hnothing : (enact ops).abandonments = [] :=
    abandonments_eq_nil (h.table.symm.trans htable)
  obtain ⟨again, hrun, _, hagain⟩ := run_openAt capacity ⟨false, .file (image (ledger ops))⟩ rfl
    (by simp) h.told (congrArg Journal.Scan.frames (Journal.scan_image hfits))
  rw [hnothing, List.append_nil] at hrun
  refine ⟨again, hrun, ?_⟩
  rw [hagain, ← h.table, htable]
  apply SortedMap.ext_get?
  intro id
  rw [SortedMap.get?_map, SortedMap.get?_map, Option.map_map]
  congr 1
  funext record
  exact if_neg record.status_abandoned_ne_active

end Registry

end SnapshotIsolation
