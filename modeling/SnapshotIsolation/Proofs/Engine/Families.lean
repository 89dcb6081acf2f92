import SnapshotIsolation.Proofs.Engine.Stability

/-!
# Compaction and nested readers

A nested snapshot reader sees what was committed into one of its ancestors by the time of that
commit, and its ancestors' failures do not concern it while it is active. A resolved marker tells
the effective status instead, with the outermost commit time. The two agree as long as no ancestor
has failed and the outermost one was not committed after the reader began; then a compaction
changes nothing that the reader reads.

Main results:

- Theorem {lit}`Session.Regular.familyReader`: which readers judge markers and walks alike.
- Theorem {lit}`Session.compaction_keeps_nested_reads`: what they read of a row before and after a
  compaction.
-/

namespace SnapshotIsolation

open Registry (Table Sound lineage Lineage)
open Engine (CommittedAt)

namespace Session

variable {σ : Type} {s : Session σ} {reader : Handle}

/-- The outermost member of a lineage that joins the family of a recorded transaction is that of
its family. -/
theorem getLast?_of_joined {t : Table} (hsound : Sound t) {own : Record}
    (hown : t.get? reader.id = some own) (hhandle : own.toHandle = reader) {id : Timestamp}
    {record above : Record} {records : List Record}
    (hlineage : Lineage t id (record :: above :: records))
    (hinside : reader.isAncestor above.id = true) {outermost : Record}
    (hlast : (record :: above :: records).getLast? = some outermost) :
    reader.ancestors.getLast? = some outermost.id := by
  rcases hsound.exists_lineage hown with ⟨ancestors, hreader⟩
  have hids : ancestors.map (·.id) = reader.ancestors := by
    rw [hreader.map_id hsound, hhandle]
  have hrest : Lineage t above.id (above :: records) := by
    cases hlineage with
    | nested _ _ _ hrest => rwa [hsound.named hrest.get?]
  rw [Handle.isAncestor, List.contains_iff_mem, ← hids] at hinside
  rw [List.getLast?_cons_cons] at hlast
  have hsuffix : above :: records <:+ ancestors := by
    cases hreader with
    | topLevel _ _ => cases hinside
    | nested _ _ _ hparent => exact hparent.isSuffix_of_mem hsound hinside hrest
  rcases hsuffix with ⟨nearer, rfl⟩
  rw [← hids, List.getLast?_map, List.getLast?_append, hlast]
  rfl

/-- A snapshot reader judges markers and walks alike if no ancestor of it has failed and the
outermost one was not committed after it began. -/
theorem Regular.familyReader (h : Regular s) (hordered : Ordered s.table s.issued)
    (hreader : reader ∈ s.handles) (hsnapshot : reader.isolation = .snapshot)
    (hactive : s.IsActive reader)
    (hunfailed : ∀ id ∈ reader.ancestors, ∀ record, s.table.get? id = some record →
      record.status.isFailed = false)
    (hearly : ∀ id ts, reader.ancestors.getLast? = some id → CommittedAt s.table id ts →
      ts ≤ reader.id) : reader.FamilyReader s.table := by
  rcases h.recorded reader hreader with ⟨own, hown, hhandle⟩
  have hopen : own.status = .active := by
    rcases hactive with ⟨record, hfound, hstatus⟩
    obtain rfl := Option.some.inj (hown.symm.trans hfound)
    exact hstatus
  refine ⟨by simp [hsnapshot], ⟨own, hown, hhandle, hopen⟩, ?_, ?_⟩
  · intro r hr
    rcases h.sound.exists_lineage hown with ⟨ancestors, hlineage⟩
    rw [← hlineage.eq_lineage] at hr
    rcases List.mem_cons.1 hr with rfl | hr
    · rw [hopen]
      rfl
    · refine hunfailed r.id ?_ r (hlineage.get?_of_mem h.sound (List.mem_cons_of_mem _ hr))
      rw [← hhandle, ← hlineage.map_id h.sound]
      exact List.mem_map_of_mem hr
  · intro id ts outermost record above records hlineage hinside hts hcommitted
    have hle := hordered.le_outermost hlineage hts hcommitted h.sound
    rcases EffectiveStatus.eq_committed_iff.1 hcommitted with ⟨hall, hlast⟩
    rcases Option.bind_eq_some_iff.1 hlast with ⟨last, hlast, hlastTs⟩
    have hmem := List.mem_of_getLast? hlast
    have hjoined := getLast?_of_joined h.sound hown hhandle hlineage hinside hlast
    have hbefore := hearly last.id outermost hjoined
      ⟨last, hlineage.get?_of_mem h.sound hmem, hall last hmem, hlastTs⟩
    simp [Handle.seesCommit, hsnapshot, Handle.snapshot, hbefore, le_trans hle hbefore]

variable [TimestampSource σ]

/-- In a sequential run a compaction changes nothing that an active snapshot reader reads, be it
nested or not, if no ancestor of the reader has failed and the outermost one was not committed
after the reader began. -/
theorem compaction_keeps_nested_reads {source : σ} {capacity : Nat} {journal : Option Journal}
    (hrun : Run (fun s call => Sequential (s.after call)) (opening source capacity journal) s)
    (hreader : reader ∈ s.handles) (hsnapshot : reader.isolation = .snapshot)
    (hactive : s.IsActive reader)
    (hunfailed : ∀ id ∈ reader.ancestors, ∀ record, s.table.get? id = some record →
      record.status.isFailed = false)
    (hearly : ∀ id ts, reader.ancestors.getLast? = some id → CommittedAt s.table id ts →
      ts ≤ reader.id) (row : Bytes) :
    ∃ cells, Step.answer (Engine.readRow reader row) s.engine = .ok cells ∧
      Step.answer (Engine.readRow reader row) (s.after .compact).engine = .ok cells := by
  have hopening : Ordered (opening source capacity journal).table
      (opening source capacity journal).issued := ⟨nofun, nofun, nofun⟩
  rcases hopening.of_run (regular_opening source capacity journal) hrun with ⟨hregular, hordered⟩
  have hfamily := hregular.familyReader hordered hreader hsnapshot hactive hunfailed hearly
  rcases hregular.compact with ⟨hregular', htable, hresolved⟩
  have hfamily' : reader.FamilyReader (s.after .compact).table := by
    rw [htable]
    exact hfamily
  refine ⟨_, Engine.answer_readRow_of_family hregular.coherent hregular.sound hregular.attested
    hfamily row, ?_⟩
  rw [Engine.answer_readRow_of_family hregular'.coherent hregular'.sound hregular'.attested
    hfamily' row]
  refine congrArg _ ?_
  show Reading.visibleRow (Reading.discerns (s.after .compact).table reader) _ = _
  rw [htable]
  refine (Reading.visibleRow_congr ?_ row).symm
  intro c
  constructor
  · rintro ⟨hc, hshows⟩
    exact ⟨(hresolved.others (Reading.kind_of_shows hshows).1).2 hc, hshows⟩
  · rintro ⟨hc, hshows⟩
    exact ⟨(hresolved.others (Reading.kind_of_shows hshows).1).1 hc, hshows⟩

/-- A transaction begins at one, and two children of it at two and three. The younger one writes
a row and commits at four, and the outermost transaction commits at five. Then a reader begins
under the child that is still active. -/
def committedAbove : List Call :=
  [.start .snapshot none, .start .snapshot (some ⟨⟨1⟩, [], .snapshot⟩),
    .start .snapshot (some ⟨⟨1⟩, [], .snapshot⟩),
    .write ⟨⟨3⟩, [⟨1⟩], .snapshot⟩ [7] [([1], [9])], .commit ⟨⟨3⟩, [⟨1⟩], .snapshot⟩,
    .commit ⟨⟨1⟩, [], .snapshot⟩, .start .snapshot (some ⟨⟨2⟩, [⟨1⟩], .snapshot⟩)]

/-- The reader reads the row that its parent's sibling wrote, whether the marker there is resolved
or not. -/
theorem compaction_keeps_nested_reads_committedAbove :
    let s := committedAbove.foldl after (opening (countingTo 6) 4 none)
    let reader : Handle := ⟨⟨6⟩, [⟨2⟩, ⟨1⟩], .snapshot⟩
    Cell.unresolvedMarker [7] ⟨3⟩ ∈ s.engine.cells.toList ∧
      Cell.unresolvedMarker [7] ⟨3⟩ ∉ (s.after .compact).engine.cells.toList ∧
        ∃ cells, Step.answer (Engine.readRow reader [7]) s.engine = .ok cells ∧
          Step.answer (Engine.readRow reader [7]) (s.after .compact).engine = .ok cells := by
  refine ⟨by decide, by decide, ?_⟩
  refine compaction_keeps_nested_reads (.of_admits .nil (by decide)) (by decide) rfl
    ⟨_, rfl, rfl⟩ ?_ ?_ [7]
  · intro id hid record hfound
    simp only [List.mem_cons, List.not_mem_nil, or_false] at hid
    rcases hid with rfl | rfl <;> cases hfound <;> rfl
  · rintro id ts hlast ⟨record, hfound, _, hts⟩
    cases hlast
    cases hfound
    cases hts
    decide

/-- A transaction begins at one and a child of it at two, which writes a row and commits at three.
A reader begins at four under the same parent, and the parent commits at five. -/
def committedAfter : List Call :=
  [.start .snapshot none, .start .snapshot (some ⟨⟨1⟩, [], .snapshot⟩),
    .write ⟨⟨2⟩, [⟨1⟩], .snapshot⟩ [7] [([1], [9])], .commit ⟨⟨2⟩, [⟨1⟩], .snapshot⟩,
    .start .snapshot (some ⟨⟨1⟩, [], .snapshot⟩), .commit ⟨⟨1⟩, [], .snapshot⟩]

/-- A transaction begins at one, a reader under it at two and a child of the reader at three, which
writes a row and commits. Then the outermost transaction is rolled back. -/
def rolledBackAbove : List Call :=
  [.start .snapshot none, .start .snapshot (some ⟨⟨1⟩, [], .snapshot⟩),
    .start .snapshot (some ⟨⟨2⟩, [⟨1⟩], .snapshot⟩),
    .write ⟨⟨3⟩, [⟨2⟩, ⟨1⟩], .snapshot⟩ [7] [([1], [9])],
    .commit ⟨⟨3⟩, [⟨2⟩, ⟨1⟩], .snapshot⟩, .rollback ⟨⟨1⟩, [], .snapshot⟩]

/-- Without the two conditions a compaction in a sequential run takes from an active reader what it
read before: what its sibling had committed, or its own child. -/
theorem compaction_changes_nested_reads :
    (Admits (fun s call => Sequential (s.after call)) (opening (countingTo 5) 4 none)
        committedAfter ∧
      let s := committedAfter.foldl after (opening (countingTo 5) 4 none)
      let reader : Handle := ⟨⟨4⟩, [⟨1⟩], .snapshot⟩
      reader ∈ s.handles ∧ s.IsActive reader ∧
        Step.answer (Engine.readRow reader [7]) s.engine = .ok [Cell.data [7] [1] ⟨2⟩ [9]] ∧
          Step.answer (Engine.readRow reader [7]) (s.after .compact).engine = .ok []) ∧
      Admits (fun s call => Sequential (s.after call)) (opening (countingTo 4) 4 none)
          rolledBackAbove ∧
        let s := rolledBackAbove.foldl after (opening (countingTo 4) 4 none)
        let reader : Handle := ⟨⟨2⟩, [⟨1⟩], .snapshot⟩
        reader ∈ s.handles ∧ s.IsActive reader ∧
          Step.answer (Engine.readRow reader [7]) s.engine = .ok [Cell.data [7] [1] ⟨3⟩ [9]] ∧
            Step.answer (Engine.readRow reader [7]) (s.after .compact).engine = .ok [] := by
  refine ⟨⟨by decide, by decide, ⟨_, rfl, rfl⟩, ?_, rfl⟩, by decide, by decide, ⟨_, rfl, rfl⟩, ?_,
    rfl⟩
  -- a walk up a chain of writers is only evaluated by the kernel
  · decide +kernel
  · decide +kernel

end Session

end SnapshotIsolation
