import SnapshotIsolation.Proofs.Registry.Served
import SnapshotIsolation.Proofs.Visibility.Verdict

/-!
# Readers outside a family

A reader that does not occur in a writer's chain, and no ancestor of which does, is to see what
the effective status of the writer lets it see. The walk up the chain stops at the nearest member
that is not committed, though. A reader of committed data sees nothing then, as it should. A reader
of uncommitted data sees the writer if that member is active, even below an ancestor that has
failed.

Main results:

- Theorem {lit}`Handle.verdict_of_outside`: the verdict as the nearest member that is not committed
  gives it.
- Theorem {lit}`Reading.outsiders_see_effective_status`: what readers of committed data see.
- Theorem {lit}`Reading.uncommitted_reads_stop_at_obstacle`: what readers of uncommitted data see.
-/

namespace SnapshotIsolation

open Registry (Table Served Sound lineage Lineage)

/-- The nearest member of a lineage that is not committed. -/
def Registry.obstacle? (records : List Record) : Option Record :=
  records.find? (·.status ≠ .committed)

namespace Registry

variable {t : Table} {records : List Record}

theorem obstacle?_cons_of_committed {record : Record} (h : record.status = .committed) :
    obstacle? (record :: records) = obstacle? records :=
  List.find?_cons_of_neg (by simp [h])

theorem obstacle?_cons_of_ne {record : Record} (h : record.status ≠ .committed) :
    obstacle? (record :: records) = some record :=
  List.find?_cons_of_pos (by simp [h])

theorem obstacle?_eq_none_iff :
    obstacle? records = none ↔ ∀ r ∈ records, r.status = .committed := by
  simp [obstacle?]

/-- The outermost member of a committed lineage has its commit time. -/
theorem Lineage.exists_outermost (h : Sound t) {id : Timestamp} (hlineage : Lineage t id records)
    (hall : ∀ r ∈ records, r.status = .committed) :
    ∃ ts, EffectiveStatus.ofRecords records = .committed ts := by
  have hlast := List.getLast?_eq_some_getLast hlineage.ne_nil
  have hmem := List.mem_of_getLast? hlast
  rcases h.committed (hlineage.get?_of_mem h hmem) (hall _ hmem) with ⟨ts, hts, _⟩
  exact ⟨ts, EffectiveStatus.eq_committed_iff.2 ⟨hall, by rw [hlast, Option.bind_some, hts]⟩⟩

/-- As long as no failure lies above an active member, the obstacle of a lineage that has failed
is the failure. -/
theorem failed_obstacle_of_pairwise
    (hinward : records.Pairwise fun near far =>
      near.status = .active → far.status.isFailed = false)
    (hfailed : ∃ r ∈ records, r.status.isFailed = true) :
    ∃ member, obstacle? records = some member ∧ member.status.isFailed = true := by
  induction records with
  | nil => simp at hfailed
  | cons record records ih =>
    rcases List.pairwise_cons.1 hinward with ⟨habove, hrest⟩
    by_cases hcommitted : record.status = .committed
    · rw [obstacle?_cons_of_committed hcommitted]
      apply ih hrest
      simpa [hcommitted, Status.isFailed] using hfailed
    · refine ⟨record, obstacle?_cons_of_ne hcommitted, ?_⟩
      by_contra hsafe
      have hactive := (Status.isFailed_eq_false_iff.1 (Bool.eq_false_iff.2 hsafe)).resolve_right
        hcommitted
      rcases hfailed with ⟨r, hr, hfail⟩
      rcases List.mem_cons.1 hr with rfl | hr
      · exact hsafe hfail
      · rw [habove r hr hactive] at hfail
        cases hfail

end Registry

open Registry (obstacle?)

namespace Handle

variable {t : Table} {reader : Handle} {snapshot id : Timestamp} {records : List Record}

/-- A record that is not committed decides what is seen of its lineage. -/
theorem verdict_cons_of_ne {record : Record} (h : record.status ≠ .committed) :
    reader.verdict snapshot (record :: records) =
      (record.status == .active && reader.isolation == .readUncommitted) := by
  rw [verdict]
  cases hstatus : record.status with
  | committed => exact absurd hstatus h
  | active => rfl
  | rolledBack => rfl
  | error => rfl

/-- From outside the family the walk goes as far as the nearest member that is not committed, or
else to the commit of the outermost one. -/
theorem verdict_of_outside (h : Sound t) (hlineage : Lineage t id records)
    (houtside : ∀ r ∈ records, reader.isInFamily r.id = false) :
    reader.verdict snapshot records =
      match obstacle? records with
      | some member => member.status == .active && reader.isolation == .readUncommitted
      | none => (records.getLast?.bind (·.commitTs)).any (reader.seesCommit snapshot) := by
  induction hlineage with
  | @topLevel id record hfound _ =>
    by_cases hcommitted : record.status = .committed
    · rcases h.committed hfound hcommitted with ⟨ts, hts, _⟩
      simp [obstacle?, verdict, hcommitted, hts]
    · rw [Registry.obstacle?_cons_of_ne hcommitted, verdict_cons_of_ne hcommitted]
  | @nested id parent record above records hfound _ _ _ ih =>
    by_cases hcommitted : record.status = .committed
    · rcases h.committed hfound hcommitted with ⟨ts, hts, _⟩
      have hapart := houtside above (List.mem_cons_of_mem _ List.mem_cons_self)
      rw [isInFamily, Bool.or_eq_false_iff, beq_eq_false_iff_ne] at hapart
      rw [verdict_cons hcommitted hts, if_neg hapart.1.symm, hapart.2, if_neg (by simp),
        ih fun r hr => houtside r (List.mem_cons_of_mem _ hr),
        Registry.obstacle?_cons_of_committed hcommitted, List.getLast?_cons_cons]
    · rw [Registry.obstacle?_cons_of_ne hcommitted, verdict_cons_of_ne hcommitted]

/-- A reader of committed data sees from outside what is committed all the way up, by the commit of
the outermost member. -/
theorem verdict_eq_true_iff_committed (h : Sound t) (hlineage : Lineage t id records)
    (houtside : ∀ r ∈ records, reader.isInFamily r.id = false)
    (hisolated : reader.isolation ≠ .readUncommitted) :
    reader.verdict snapshot records = true ↔
      ∃ ts, EffectiveStatus.ofRecords records = .committed ts ∧
        reader.seesCommit snapshot ts = true := by
  rw [verdict_of_outside h hlineage houtside]
  cases hobstacle : obstacle? records with
  | some member =>
    have hopen : ¬ ∀ r ∈ records, r.status = .committed := by
      rw [← Registry.obstacle?_eq_none_iff, hobstacle]
      simp
    simp [hisolated, EffectiveStatus.eq_committed_iff, hopen]
  | none =>
    rcases hlineage.exists_outermost h (Registry.obstacle?_eq_none_iff.1 hobstacle) with ⟨ts, hts⟩
    simp [hts, (EffectiveStatus.eq_committed_iff.1 hts).2]

/-- A reader of uncommitted data sees from outside whatever has no failed member as its nearest
obstacle. -/
theorem verdict_eq_true_iff_obstacle (h : Sound t) (hlineage : Lineage t id records)
    (houtside : ∀ r ∈ records, reader.isInFamily r.id = false)
    (hisolation : reader.isolation = .readUncommitted) :
    reader.verdict snapshot records = true ↔
      ∀ member, obstacle? records = some member → member.status = .active := by
  rw [verdict_of_outside h hlineage houtside]
  cases hobstacle : obstacle? records with
  | some member => simp [hisolation]
  | none =>
    rcases hlineage.exists_outermost h (Registry.obstacle?_eq_none_iff.1 hobstacle) with ⟨ts, hts⟩
    simp [(EffectiveStatus.eq_committed_iff.1 hts).2, seesCommit, hisolation]

end Handle

namespace Reading

variable {r : Registry} {handles : List Handle} {writer : Timestamp} {record : Record}
  {reader : Handle} {scope : Scope}

/-- Without a marker a reader outside the family has the verdict on the writer's lineage, and the
registry tells the effective status of the same lineage. -/
theorem answers_of_outside (h : Served r handles) (hwriter : r.table.get? writer = some record)
    (houtside : ∀ id ∈ writer :: record.ancestors, reader.isInFamily id = false)
    (hscope : ∀ id known, scope.records.get? id = some known → r.table.get? id = some known)
    (snapshot : Timestamp) :
    (∀ member ∈ lineage r.table writer, reader.isInFamily member.id = false) ∧
      Step.answer (isWriterVisible writer none snapshot reader) ⟨r, scope⟩ =
        .ok (reader.verdict snapshot (lineage r.table writer)) ∧
      Step.answer (Registry.effectiveStatus writer) r =
        .ok (EffectiveStatus.ofRecords (lineage r.table writer)) := by
  have hfaithful : ReadState.Faithful r.table ⟨r, scope⟩ :=
    ReadState.faithful_of_scope (s := ⟨r, scope⟩) h.coherent hscope
  have hapart := houtside writer List.mem_cons_self
  rw [Handle.isInFamily, Bool.or_eq_false_iff, beq_eq_false_iff_ne] at hapart
  have hjudges : judges r.table reader snapshot none writer =
      reader.verdict snapshot (lineage r.table writer) := by
    simp [judges, hapart.1.symm, hapart.2]
  have hanswers : Answers r.table (isWriterVisible writer none snapshot reader) _ :=
    answers_judges h.sound hwriter none
  rcases hanswers _ hfaithful with ⟨s', _, _, hrun⟩
  refine ⟨?_, ?_, Registry.answer_effectiveStatus h.coherent h.sound hwriter⟩
  · rcases h.sound.exists_lineage hwriter with ⟨ancestors, hlineage⟩
    intro member hmember
    apply houtside
    rw [← hlineage.eq_lineage] at hmember
    rw [← hlineage.map_id h.sound, ← h.sound.named hwriter]
    exact List.mem_map_of_mem (f := (·.id)) hmember
  · rw [Step.answer_of_run hrun, hjudges]

/-- From outside the family a reader of committed data sees a writer as the effective status of the
writer tells, and nothing that is not committed all the way up. -/
theorem outsiders_see_effective_status (h : Served r handles)
    (hwriter : r.table.get? writer = some record)
    (houtside : ∀ id ∈ writer :: record.ancestors, reader.isInFamily id = false)
    (hscope : ∀ id known, scope.records.get? id = some known → r.table.get? id = some known)
    (snapshot : Timestamp) :
    ∃ seen status,
      Step.answer (isWriterVisible writer none snapshot reader) ⟨r, scope⟩ = .ok seen ∧
      Step.answer (Registry.effectiveStatus writer) r = .ok status ∧
      (reader.isolation = .snapshot →
        (seen = true ↔ ∃ ts, status = .committed ts ∧ ts ≤ snapshot)) ∧
      (reader.isolation = .readCommitted → (seen = true ↔ ∃ ts, status = .committed ts)) ∧
      (reader.isolation ≠ .readUncommitted → seen = true →
        ∀ member ∈ lineage r.table writer, member.status = .committed) := by
  rcases answers_of_outside h hwriter houtside hscope snapshot with ⟨hapart, hseen, hstatus⟩
  have hlineage := h.sound.lineage hwriter
  refine ⟨_, _, hseen, hstatus, ?_, ?_, ?_⟩
  · intro hsnapshot
    rw [Handle.verdict_eq_true_iff_committed h.sound hlineage hapart (by simp [hsnapshot])]
    simp [Handle.seesCommit, hsnapshot]
  · intro hcommitted
    rw [Handle.verdict_eq_true_iff_committed h.sound hlineage hapart (by simp [hcommitted])]
    simp [Handle.seesCommit, hcommitted]
  · intro hisolated hvisible
    rw [Handle.verdict_eq_true_iff_committed h.sound hlineage hapart hisolated] at hvisible
    rcases hvisible with ⟨ts, hts, _⟩
    exact (EffectiveStatus.eq_committed_iff.1 hts).1

/-- A transaction begins at one and a child of it at two. The child is committed at three and its
parent at four. -/
def committedFamily : Registry :=
  Step.after (Registry.settle ⟨1⟩ (.commit ⟨4⟩)) (Step.after (Registry.settle ⟨2⟩ (.commit ⟨3⟩))
    (Step.after (Registry.start ⟨2⟩ (some ⟨⟨1⟩, [], .snapshot⟩) .snapshot)
      (Step.after (Registry.start ⟨1⟩ none .snapshot) (.inMemory 4))))

/-- A snapshot at three does not see the child yet, which was committed at three but into a parent
that was committed at four. -/
theorem outsiders_see_effective_status_committedFamily :
    let reader : Handle := ⟨⟨5⟩, [], .snapshot⟩
    Step.answer (Registry.effectiveStatus ⟨2⟩) committedFamily = .ok (.committed ⟨4⟩) ∧
      Step.answer (isWriterVisible ⟨2⟩ none ⟨4⟩ reader) ⟨committedFamily, .empty⟩ = .ok true ∧
      Step.answer (isWriterVisible ⟨2⟩ none ⟨3⟩ reader) ⟨committedFamily, .empty⟩ = .ok false := by
  intro reader
  have hstatus : Step.answer (Registry.effectiveStatus ⟨2⟩) committedFamily =
      .ok (.committed ⟨4⟩) := rfl
  have hopening : Served (.inMemory 4) [] := @Served.opening 4 none nofun
  have hserved : Served committedFamily _ :=
    ((hopening.started (by simp)).started (by decide)).settled _ _ |>.settled _ _
  have hsees : ∀ snapshot : Timestamp, ∃ seen, Step.answer (isWriterVisible ⟨2⟩ none snapshot reader)
      ⟨committedFamily, .empty⟩ = .ok seen ∧ (seen = true ↔ ⟨4⟩ ≤ snapshot) := by
    intro snapshot
    rcases @outsiders_see_effective_status committedFamily _ ⟨2⟩ _ reader .empty hserved rfl
      (by decide) nofun snapshot with ⟨seen, status, hseen, htold, hsnapshot, _⟩
    obtain rfl := Except.ok.inj (hstatus.symm.trans htold)
    exact ⟨seen, hseen, by simpa using hsnapshot rfl⟩
  refine ⟨hstatus, ?_, ?_⟩
  · rcases hsees ⟨4⟩ with ⟨seen, hseen, hiff⟩
    rw [hseen, hiff.2 (by decide)]
  · rcases hsees ⟨3⟩ with ⟨seen, hseen, hiff⟩
    rw [hseen, Bool.eq_false_iff.2 fun htrue => absurd (hiff.1 htrue) (by decide)]

/-- From outside the family a reader of uncommitted data sees a writer unless the nearest member of
its chain that is not committed has failed. So it sees whatever has not failed, and nothing that
has as long as no failure lies above an active member. -/
theorem uncommitted_reads_stop_at_obstacle (h : Served r handles)
    (hwriter : r.table.get? writer = some record)
    (houtside : ∀ id ∈ writer :: record.ancestors, reader.isInFamily id = false)
    (hscope : ∀ id known, scope.records.get? id = some known → r.table.get? id = some known)
    (hisolation : reader.isolation = .readUncommitted) (snapshot : Timestamp) :
    ∃ seen status,
      Step.answer (isWriterVisible writer none snapshot reader) ⟨r, scope⟩ = .ok seen ∧
      Step.answer (Registry.effectiveStatus writer) r = .ok status ∧
      (seen = true ↔ ∀ member, obstacle? (lineage r.table writer) = some member →
        member.status = .active) ∧
      ((∀ cause, status ≠ .failed cause) → seen = true) ∧
      ((lineage r.table writer).Pairwise (fun near far =>
          near.status = .active → far.status.isFailed = false) →
        (seen = true ↔ ∀ cause, status ≠ .failed cause)) := by
  rcases answers_of_outside h hwriter houtside hscope snapshot with ⟨hapart, hseen, hstatus⟩
  have hiff : reader.verdict snapshot (lineage r.table writer) = true ↔ _ :=
    Handle.verdict_eq_true_iff_obstacle h.sound (h.sound.lineage hwriter) hapart hisolation
  have hunfailed : (∀ cause, EffectiveStatus.ofRecords (lineage r.table writer) ≠ .failed cause) →
      reader.verdict snapshot (lineage r.table writer) = true := by
    intro hsafe
    rw [hiff]
    intro member hmember
    have hopen : member.status ≠ .committed := by simpa using List.find?_some hmember
    by_contra hactive
    have hfailed : member.status.isFailed = true := by
      by_contra hfailed
      rcases Status.isFailed_eq_false_iff.1 (Bool.eq_false_iff.2 hfailed) with hcase | hcase
      · exact hactive hcase
      · exact hopen hcase
    rcases EffectiveStatus.exists_failed_iff.2
      ⟨member, List.mem_of_find?_eq_some hmember, hfailed⟩ with ⟨cause, hcause⟩
    exact hsafe cause hcause
  refine ⟨_, _, hseen, hstatus, hiff, hunfailed, ?_⟩
  intro hinward
  refine ⟨?_, hunfailed⟩
  rw [hiff]
  intro hvisible cause hcause
  rcases Registry.failed_obstacle_of_pairwise hinward
    (EffectiveStatus.exists_failed_iff.1 ⟨cause, hcause⟩) with ⟨member, hmember, hfailed⟩
  rw [hvisible member hmember] at hfailed
  cases hfailed

/-- A transaction begins at one and a child of it at two. The child is committed at three, and its
parent is rolled back. -/
def committedIntoFailed : Registry :=
  Step.after (Registry.settle ⟨1⟩ .rollback) (Step.after (Registry.settle ⟨2⟩ (.commit ⟨3⟩))
    (Step.after (Registry.start ⟨2⟩ (some ⟨⟨1⟩, [], .snapshot⟩) .snapshot)
      (Step.after (Registry.start ⟨1⟩ none .snapshot) (.inMemory 4))))

/-- What was committed into a parent that is rolled back is not seen any more. -/
theorem uncommitted_reads_stop_at_obstacle_committedIntoFailed :
    Step.answer (Registry.effectiveStatus ⟨2⟩) committedIntoFailed = .ok (.failed .rolledBack) ∧
      Step.answer (isWriterVisible ⟨2⟩ none ⟨5⟩ ⟨⟨5⟩, [], .readUncommitted⟩)
        ⟨committedIntoFailed, .empty⟩ = .ok false := by
  have hstatus : Step.answer (Registry.effectiveStatus ⟨2⟩) committedIntoFailed =
      .ok (.failed .rolledBack) := rfl
  have hopening : Served (.inMemory 4) [] := @Served.opening 4 none nofun
  have hserved : Served committedIntoFailed _ :=
    ((hopening.started (by simp)).started (by decide)).settled _ _ |>.settled _ _
  rcases @uncommitted_reads_stop_at_obstacle committedIntoFailed _ ⟨2⟩ _
    ⟨⟨5⟩, [], .readUncommitted⟩ .empty hserved rfl (by decide) nofun rfl ⟨5⟩ with
    ⟨seen, status, hseen, htold, _, _, hinward⟩
  obtain rfl := Except.ok.inj (hstatus.symm.trans htold)
  have hhidden : seen ≠ true := fun hvisible =>
    (hinward (by decide)).1 hvisible .rolledBack rfl
  exact ⟨hstatus, by rw [hseen, Bool.eq_false_iff.2 hhidden]⟩

/-- A transaction begins at one and a child of it at two. The child stays active while its parent
is rolled back. -/
def activeUnderFailed : Registry :=
  Step.after (Registry.settle ⟨1⟩ .rollback)
    (Step.after (Registry.start ⟨2⟩ (some ⟨⟨1⟩, [], .snapshot⟩) .snapshot)
      (Step.after (Registry.start ⟨1⟩ none .snapshot) (.inMemory 4)))

/-- A reader of uncommitted data from outside sees an active child of a transaction that was rolled
back, although the child has failed with its parent. -/
theorem uncommitted_reads_see_below_failures :
    let reader : Handle := ⟨⟨3⟩, [], .readUncommitted⟩
    Served activeUnderFailed [⟨⟨2⟩, [⟨1⟩], .snapshot⟩, ⟨⟨1⟩, [], .snapshot⟩] ∧
      (∀ id ∈ [(⟨2⟩ : Timestamp), ⟨1⟩], reader.isInFamily id = false) ∧
      Step.answer (Registry.effectiveStatus ⟨2⟩) activeUnderFailed = .ok (.failed .rolledBack) ∧
      Step.answer (isWriterVisible ⟨2⟩ none ⟨3⟩ reader) ⟨activeUnderFailed, .empty⟩ =
        .ok true := by
  have hopening : Served (.inMemory 4) [] := @Served.opening 4 none nofun
  refine ⟨((hopening.started (by simp)).started (by decide)).settled _ _, by decide, rfl, ?_⟩
  -- a walk up a chain of writers is only evaluated by the kernel
  decide +kernel

end Reading

end SnapshotIsolation
