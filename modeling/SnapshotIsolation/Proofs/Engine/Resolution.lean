import SnapshotIsolation.Proofs.Engine.Marking

/-!
# Resolved markers

A marker starts unresolved and a compaction resolves it once its writer's chain is settled. From
then on only its writer can change it, by writing or deleting in the row again, and that it can
only while its own record is active: below an ancestor that failed. Then the marker is unresolved
again.

Main results:

- Theorem {lit}`Session.Regular.mem_after_of_resolved`: which calls keep a resolved marker.
- Theorem {lit}`Session.resolved_markers_stay`: resolved markers stay, unless a transaction goes on
  writing below a failed ancestor.
-/

namespace SnapshotIsolation

open CellStore (Holds)
open Registry (lineage)

namespace Session

variable {σ : Type} {s s' : Session σ} {call : Call} {m : Cell} {marker : Marker} {record : Record}
  {row : Bytes} {writer : Timestamp}

/-- The call is to write or delete in the row for the transaction, which is active itself although
its chain has failed. -/
structure Revives (s : Session σ) (row : Bytes) (writer : Timestamp) (call : Call) : Prop where
  touches : call.touches? = some (writer, row)
  active : ∃ record, s.table.get? writer = some record ∧ record.status = .active
  failed : ∃ status,
    Step.answer (Registry.effectiveStatus writer) s.engine.registry = .ok (.failed status)

instance decidableRevives (s : Session σ) (row : Bytes) (writer : Timestamp) (call : Call) :
    Decidable (s.Revives row writer call) :=
  decidable_of_iff (call.touches? = some (writer, row) ∧
      (s.table.get? writer).any (·.status = .active) = true ∧
      (match Step.answer (Registry.effectiveStatus writer) s.engine.registry with
        | .ok (.failed _) => true
        | _ => false) = true) <| by
    constructor
    · rintro ⟨htouches, hactive, hfailed⟩
      refine ⟨htouches, by simpa [Option.any_eq_true] using hactive, ?_⟩
      split at hfailed
      · rename_i status hstatus
        exact ⟨status, hstatus⟩
      · cases hfailed
    · rintro ⟨htouches, ⟨record, hwriter, hactive⟩, status, hfailed⟩
      exact ⟨htouches, by simp [hwriter, hactive], by rw [hfailed]⟩

/-- The marker of an active transaction is resolved only if its chain has failed. -/
theorem Regular.failed_of_resolved (h : Regular s) (hm : m ∈ s.engine.cells.toList)
    (hkind : m.kind = .commitMarker) (hdecode : Marker.decode m.value = .ok marker)
    (hresolved : marker.isResolved = true) (hwriter : s.table.get? m.timestamp = some record)
    (hactive : record.status = .active) :
    marker = .failed ∧ ∃ status,
      Step.answer (Registry.effectiveStatus m.timestamp) s.engine.registry =
        .ok (.failed status) := by
  rcases h.attested.markers hm hkind with ⟨marker', hdecode', hagrees⟩
  obtain rfl := Except.ok.inj (hdecode.symm.trans hdecode')
  rw [Registry.answer_effectiveStatus h.coherent h.sound hwriter]
  cases marker with
  | unresolved => cases hresolved
  | committed ts =>
    have hmem : record ∈ lineage s.table m.timestamp := by simp [lineage, hwriter]
    have hcommitted := (EffectiveStatus.eq_committed_iff.1 hagrees).1 record hmem
    rw [hactive] at hcommitted
    cases hcommitted
  | failed =>
    rcases hagrees with ⟨status, hstatus⟩
    exact ⟨rfl, status, congrArg Except.ok hstatus⟩

variable [TimestampSource σ]

/-- A resolved marker stays unless its writer is active and the call is to write or delete for it
in the row. -/
theorem Regular.mem_after_of_apart (h : Regular s) (hm : m ∈ s.engine.cells.toList)
    (hkind : m.kind = .commitMarker) (hresolved : m.value ≠ [])
    (hapart : ∀ record, s.table.get? m.timestamp = some record → record.status = .active →
      call.touches? ≠ some (m.timestamp, m.row)) :
    m ∈ (s.after call).engine.cells.toList := by
  have hother : ∀ {txn : Handle} {row record}, call.touches? = some (txn.id, row) →
      s.table.get? txn.id = some record → record.status = .active →
        m.row ≠ row ∨ m.timestamp ≠ txn.id := by
    intro txn row record htouches hfound hactive
    by_contra hsame
    rw [not_or, not_not, not_not] at hsame
    rcases hsame with ⟨hrow, hid⟩
    rw [← hid] at hfound htouches
    exact hapart record hfound hactive (hrow ▸ htouches)
  have hholds : ∀ k, call = .compact → s.engine.cells.Holds k →
      (s.after call).engine.cells.Holds k := by
    rintro k rfl hk
    exact holds_after_compact hk
  have halters := h.alters call
  generalize (s.after call).engine.cells = cells' at halters hholds ⊢
  cases halters with
  | kept => exact hm
  | wrote hfound hactive _ =>
    exact (CellStore.confined_written _ _ _ _ _ m (hother rfl hfound hactive)).2 hm
  | deleted hfound hactive =>
    exact (CellStore.confined_deleted _ _ _ m (hother rfl hfound hactive)).2 hm
  | resolved hresolves =>
    rcases hholds m.key rfl ⟨m, hm, rfl⟩ with ⟨x, hx, hkey⟩
    rcases hresolves.markers ((Cell.isMarker_congr hkey).2 hkind) hx with
      hold | ⟨⟨c₀, hc₀, hsame, hempty⟩, _⟩
    · exact CellStore.eq_of_key_eq hold hm hkey ▸ hx
    · obtain rfl := CellStore.eq_of_key_eq hc₀ hm (hsame.trans hkey)
      exact absurd hempty hresolved

theorem ne_nil_of_isResolved (hdecode : Marker.decode m.value = .ok marker)
    (hresolved : marker.isResolved = true) : m.value ≠ [] := by
  intro hempty
  rw [hempty] at hdecode
  cases hdecode
  cases hresolved

/-- A resolved marker stays unless the call revives it. -/
theorem Regular.mem_after_of_resolved (h : Regular s) (hm : m ∈ s.engine.cells.toList)
    (hkind : m.kind = .commitMarker) (hdecode : Marker.decode m.value = .ok marker)
    (hresolved : marker.isResolved = true) (hquiet : ¬ s.Revives m.row m.timestamp call) :
    m ∈ (s.after call).engine.cells.toList := by
  apply h.mem_after_of_apart hm hkind (ne_nil_of_isResolved hdecode hresolved)
  intro record hwriter hactive htouches
  rcases h.failed_of_resolved hm hkind hdecode hresolved hwriter hactive with ⟨_, hfailed⟩
  exact hquiet ⟨htouches, ⟨record, hwriter, hactive⟩, hfailed⟩

/-- A call that revives a marker leaves it unresolved. -/
theorem Regular.mem_after_of_revives (h : Regular s) (hrevives : s.Revives row writer call) :
    Cell.unresolvedMarker row writer ∈ (s.after call).engine.cells.toList := by
  rcases hrevives with ⟨htouches, ⟨record, hwriter, hactive⟩, _⟩
  cases call with
  | write txn row' columns =>
    cases htouches
    rcases h.write hwriter hactive row columns with ⟨cancels, _, hrewrites⟩
    rw [hrewrites.cells]
    exact CellStore.mem_put.2 (.inl rfl)
  | delete txn row' =>
    cases htouches
    rw [(h.delete hwriter hactive row).cells]
    exact CellStore.mem_put.2 (.inl rfl)
  | start _ _ => cases htouches
  | commit _ => cases htouches
  | rollback _ => cases htouches
  | readRow _ _ => cases htouches
  | isVisible _ _ => cases htouches
  | compact => cases htouches
  | rememberWatermark => cases htouches

/-- A marker in a place where none was is unresolved. -/
theorem Regular.holds_or_unresolved (h : Regular s) (hm : m ∈ (s.after call).engine.cells.toList)
    (hkind : m.kind = .commitMarker) : s.engine.cells.Holds m.key ∨ m.value = [] := by
  have halters := h.alters call
  generalize (s.after call).engine.cells = cells' at halters hm
  cases halters with
  | kept => exact .inl ⟨m, hm, rfl⟩
  | wrote _ _ _ =>
    exact ((CellStore.writtenBy_written ..).markers hkind hm).imp_left fun hold => ⟨m, hold, rfl⟩
  | deleted _ _ =>
    exact ((CellStore.writtenBy_deleted ..).markers hkind hm).imp_left fun hold => ⟨m, hold, rfl⟩
  | resolved hresolves =>
    rcases hresolves.markers hkind hm with hold | ⟨⟨c₀, hc₀, hsame, _⟩, _⟩
    · exact .inl ⟨m, hold, rfl⟩
    · exact .inl ⟨c₀, hc₀, hsame⟩

/-- Every marker starts unresolved. Once it is resolved it stays as it is for good if it says
committed, and if it says failed until its writer, active below an ancestor that failed, writes or
deletes in the row once more. That puts the unresolved marker back. -/
theorem resolved_markers_stay {source : σ} {capacity : Nat} {journal : Option Journal}
    (hreach : Run (fun s call => ∀ a ∈ (s.after call).answers, a.BelowLimit)
      (opening source capacity journal) s) :
    (∀ call, ∀ m ∈ (s.after call).engine.cells.toList, m.kind = .commitMarker →
        s.engine.cells.Holds m.key ∨ Marker.decode m.value = .ok .unresolved) ∧
      ∀ m ∈ s.engine.cells.toList, m.kind = .commitMarker → ∀ marker,
        Marker.decode m.value = .ok marker → marker.isResolved = true →
          (∀ s', Run (fun s call => (∀ a ∈ (s.after call).answers, a.BelowLimit) ∧
              ¬ s.Revives m.row m.timestamp call) s s' → m ∈ s'.engine.cells.toList) ∧
            (∀ s' ts, marker = .committed ts →
              Run (fun s call => ∀ a ∈ (s.after call).answers, a.BelowLimit) s s' →
                m ∈ s'.engine.cells.toList) ∧
              ∀ call, s.Revives m.row m.timestamp call → marker = .failed ∧
                Cell.unresolvedMarker m.row m.timestamp ∈ (s.after call).engine.cells.toList := by
  have hregular := (regular_opening source capacity journal).of_run hreach
  refine ⟨?_, ?_⟩
  · intro call m hm hkind
    refine (hregular.holds_or_unresolved hm hkind).imp_right fun hempty => ?_
    rw [hempty]
    rfl
  intro m hm hkind marker hdecode hresolved
  refine ⟨?_, ?_, ?_⟩
  · intro s' hrun
    exact (hrun.keeps (P := fun s => m ∈ s.engine.cells.toList) (fun _ _ hfits => hfits.1)
      (fun _ _ hregular hm _ hfits =>
        hregular.mem_after_of_resolved hm hkind hdecode hresolved hfits.2) hregular hm).2
  · rintro s' ts rfl hrun
    refine (hrun.keeps (P := fun s => m ∈ s.engine.cells.toList) (fun _ _ hbelow => hbelow)
      (fun s call hregular hm _ _ => ?_) hregular hm).2
    apply hregular.mem_after_of_resolved hm hkind hdecode hresolved
    rintro ⟨_, ⟨record, hwriter, hactive⟩, _⟩
    cases (hregular.failed_of_resolved hm hkind hdecode hresolved hwriter hactive).1
  · intro call hrevives
    rcases hrevives.active with ⟨record, hwriter, hactive⟩
    exact ⟨(hregular.failed_of_resolved hm hkind hdecode hresolved hwriter hactive).1,
      hregular.mem_after_of_revives hrevives⟩

/-- A child writes a row and commits at three, and its parent commits at four. Another child writes
another row and is rolled back below an active parent. Then the markers of both are resolved. -/
def committedAndRolledBack : List Call :=
  [.start .snapshot none, .start .snapshot (some ⟨⟨1⟩, [], .snapshot⟩),
    .write ⟨⟨2⟩, [⟨1⟩], .snapshot⟩ [7] [([1], [9])], .commit ⟨⟨2⟩, [⟨1⟩], .snapshot⟩,
    .commit ⟨⟨1⟩, [], .snapshot⟩, .start .snapshot none,
    .start .snapshot (some ⟨⟨5⟩, [], .snapshot⟩), .write ⟨⟨6⟩, [⟨5⟩], .snapshot⟩ [8] [([1], [9])],
    .rollback ⟨⟨6⟩, [⟨5⟩], .snapshot⟩, .compact]

/-- The other parent writes both rows and is rolled back as well, the second child tries to write
once more, and markers are resolved again. -/
def othersWriteOn : List Call :=
  [.write ⟨⟨5⟩, [], .snapshot⟩ [7] [([1], [10])], .delete ⟨⟨5⟩, [], .snapshot⟩ [8],
    .rollback ⟨⟨5⟩, [], .snapshot⟩, .write ⟨⟨6⟩, [⟨5⟩], .snapshot⟩ [8] [([1], [11])], .compact]

theorem resolved_markers_stay_othersWriteOn :
    let s := committedAndRolledBack.foldl after (opening (countingTo 6) 4 none)
    let s' := othersWriteOn.foldl after s
    let committed : Cell := (Cell.markerKey [7] ⟨2⟩).cell (⟨4⟩ : Timestamp).toBytes
    let failed : Cell := (Cell.markerKey [8] ⟨6⟩).cell Marker.failValue
    committed ∈ s'.engine.cells.toList ∧ failed ∈ s'.engine.cells.toList := by
  intro s s' committed failed
  have hreach : Run (fun s call => ∀ a ∈ (s.after call).answers, a.BelowLimit)
      (opening (countingTo 6) 4 none) s := .of_admits .nil (by decide +kernel)
  have hrun : Run (fun s call => (∀ a ∈ (s.after call).answers, a.BelowLimit) ∧
      ¬ s.Revives [8] ⟨6⟩ call) s s' := .of_admits .nil (by decide +kernel)
  have hstay := (resolved_markers_stay hreach).2
  refine ⟨?_, ?_⟩
  · exact (hstay committed (by decide +kernel) rfl (.committed ⟨4⟩) rfl rfl).2.1 s' ⟨4⟩ rfl
      (hrun.mono fun _ _ hfits => hfits.1)
  · exact (hstay failed (by decide +kernel) rfl .failed rfl rfl).1 s' hrun

/-- A child writes a row, its parent is rolled back, and the child's marker is resolved. -/
def writtenBeforeRollback : List Call :=
  [.start .snapshot none, .start .snapshot (some ⟨⟨1⟩, [], .snapshot⟩),
    .write ⟨⟨2⟩, [⟨1⟩], .snapshot⟩ [7] [([1], [9])], .rollback ⟨⟨1⟩, [], .snapshot⟩, .compact]

/-- The child, still active itself, writes once more, and its resolved marker is unresolved. -/
theorem child_unresolves_marker :
    let s := writtenBeforeRollback.foldl after (opening (countingTo 2) 4 none)
    let s' := s.after (.write ⟨⟨2⟩, [⟨1⟩], .snapshot⟩ [7] [([1], [9])])
    let failed : Cell := (Cell.markerKey [7] ⟨2⟩).cell Marker.failValue
    Run (fun s call => ∀ a ∈ (s.after call).answers, a.BelowLimit)
        (opening (countingTo 2) 4 none) s' ∧
      Marker.decode failed.value = .ok .failed ∧ failed ∈ s.engine.cells.toList ∧
      failed ∉ s'.engine.cells.toList ∧
      Cell.unresolvedMarker [7] ⟨2⟩ ∈ s'.engine.cells.toList := by
  intro s s' failed
  have hreach : Run (fun s call => ∀ a ∈ (s.after call).answers, a.BelowLimit)
      (opening (countingTo 2) 4 none) s := .of_admits .nil (by decide +kernel)
  refine ⟨.call hreach (by decide +kernel) (by decide +kernel), rfl, ?_, ?_, ?_⟩
  · decide +kernel
  · decide +kernel
  · decide +kernel

end Session

end SnapshotIsolation
