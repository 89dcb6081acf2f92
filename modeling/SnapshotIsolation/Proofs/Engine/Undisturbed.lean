import SnapshotIsolation.Proofs.Engine.Marking

/-!
# What calls leave undisturbed

A write or a delete has to do with what its own transaction wrote in its row, and only a delete
takes cells away, of data at that. A compaction changes the values of unresolved markers and moves
nothing. So whatever a transaction that is settled wrote, other than markers, stays for good. All of
this holds of any engine that calls lead to, whatever timestamps its source gives.

Main results:

- Theorem {lit}`Call.Affects.vacates`: which places a call can leave empty.
- Theorem {lit}`Session.calls_disturb_no_others`: what calls do to the cells of a session.
-/

namespace SnapshotIsolation

open CellStore (Holds Confined Remarked)
open Registry (Table Coherent Extends)

namespace CellStore

variable {s s' : CellStore} {k : Cell.Key} {row : Bytes} {id : Timestamp}

/-! ## Places that are left empty -/

theorem Remarked.holds (h : Remarked s s') (hk : s'.Holds k) : s.Holds k := by
  rcases hk with ⟨c, hc, rfl⟩
  by_cases hkind : c.kind = .commitMarker
  · rcases h.markers hkind hc with hc | ⟨c₀, hc₀, hkey, _⟩
    · exact ⟨c, hc, rfl⟩
    · exact ⟨c₀, hc₀, hkey⟩
  · exact ⟨c, (h.others hkind).1 hc, rfl⟩

/-- A write leaves no place empty. -/
theorem Holds.written (h : s.Holds k) (row : Bytes) (id : Timestamp) (cancels : Bool)
    (columns : List (Bytes × Bytes)) : (s.written row id cancels columns).Holds k := by
  have hcolumns : ∀ (columns : List (Bytes × Bytes)) {s : CellStore}, s.Holds k →
      (columns.foldl (fun s c => s.put (Cell.data row c.1 id c.2)) s).Holds k := by
    intro columns
    induction columns with
    | nil => exact fun hs => hs
    | cons c columns ih => exact fun hs => ih (hs.put _)
  apply Holds.put
  apply hcolumns
  split
  · exact h.put _
  · exact h

/-- A delete leaves those places empty where its transaction had data in the row. -/
theorem Holds.deleted (h : s.Holds k) (hempty : ¬ (s.deleted row id).Holds k) :
    ∃ c ∈ s.toList, c.key = k ∧ c.kind = .userData ∧ c.row = row ∧ c.timestamp = id := by
  rcases h with ⟨c, hc, rfl⟩
  refine ⟨c, hc, rfl, ?_⟩
  by_contra hother
  refine hempty (Holds.put (Holds.put ⟨c, mem_remove_own.2 ⟨hc, ?_⟩, rfl⟩ _) _)
  rintro ⟨hrow, htimestamp, hkind⟩
  exact hother ⟨hkind, hrow, htimestamp⟩

end CellStore

/-- A place that a call leaves empty is one where the transaction that it deletes for had data in
the row, unless the call is a compaction. -/
theorem Call.Affects.vacates {t : Table} {s s' : CellStore} {call : Call} {k : Cell.Key}
    (h : call.Affects t s s') (hcompact : call ≠ .compact) (hk : s.Holds k)
    (hempty : ¬ s'.Holds k) :
    ∃ txn row, call = .delete txn row ∧
      ∃ c ∈ s.toList, c.key = k ∧ c.kind = .userData ∧ c.row = row ∧ c.timestamp = txn.id := by
  cases h with
  | kept => exact absurd hk hempty
  | wrote _ _ _ => exact absurd (hk.written _ _ _ _) hempty
  | deleted _ _ => exact ⟨_, _, rfl, hk.deleted hempty⟩
  | remarked _ => exact absurd rfl hcompact

namespace Session

variable {σ : Type} [TimestampSource σ] {s s' : Session σ}

/-- In every session that calls lead to: a call that is to write or delete changes nothing apart
from what its own transaction has in its row; a place is left empty only where the transaction that
deletes had data in the row; a compaction leaves no place empty, takes none, and changes none but
unresolved markers; no other call changes a cell; and what a settled transaction wrote, other than
markers, stays as it is from then on. -/
theorem calls_disturb_no_others {source : σ} {capacity : Nat} {journal : Option Journal}
    (hreach : Run (fun _ _ => True) (opening source capacity journal) s) :
    (∀ call id row, call.touches? = some (id, row) →
        Confined row id s.engine.cells (s.after call).engine.cells) ∧
      (∀ call k, s.engine.cells.Holds k → ¬ (s.after call).engine.cells.Holds k →
        ∃ txn row, call = .delete txn row ∧ ∃ c ∈ s.engine.cells.toList,
          c.key = k ∧ c.kind = .userData ∧ c.row = row ∧ c.timestamp = txn.id) ∧
      ((∀ k, (s.after .compact).engine.cells.Holds k ↔ s.engine.cells.Holds k) ∧
        ∀ c ∈ (s.after .compact).engine.cells.toList, c ∈ s.engine.cells.toList ∨
          ∃ m ∈ s.engine.cells.toList, m.key = c.key ∧ m.kind = .commitMarker ∧
            Marker.decode m.value = .ok .unresolved) ∧
      (∀ call, call.touches? = none → call ≠ .compact →
        (s.after call).engine.cells = s.engine.cells) ∧
      ∀ c ∈ s.engine.cells.toList,
        c.kind = .userData ∨ c.kind = .tombstone ∨ c.kind = .antiTombstone →
        ∀ record, s.table.get? c.timestamp = some record → record.status.isTerminal = true →
        ∀ s', Run (fun _ _ => True) s s' → c ∈ s'.engine.cells.toList := by
  have hcoherent := (extends_of_run hreach (Registry.coherent_inMemory capacity journal)).1
  have haffects := affects hcoherent
  have hremarked := (haffects .compact).remarked_of_touches?_eq_none rfl
  refine ⟨?_, ?_, ⟨?_, ?_⟩, ?_, ?_⟩
  · intro call id row htouches
    exact (haffects call).confined htouches
  · intro call k hk hempty
    refine (haffects call).vacates ?_ hk hempty
    rintro rfl
    exact hempty (holds_after_compact hk)
  · intro k
    exact ⟨hremarked.holds, holds_after_compact⟩
  · intro c hc
    by_cases hkind : c.kind = .commitMarker
    · refine (hremarked.markers hkind hc).imp_right ?_
      rintro ⟨m, hm, hkey, hempty⟩
      refine ⟨m, hm, hkey, (Cell.isMarker_congr hkey).2 hkind, ?_⟩
      rw [hempty]
      rfl
    · exact .inl ((hremarked.others hkind).1 hc)
  · intro call htouches hcompact
    have hspares : Engine.Spares (· = s.engine.cells)
        (call.perform : Engine.Action (RecordedSource σ) (Option Handle)) :=
      Engine.spares_perform htouches hcompact
    exact hspares.after rfl
  · intro c hc hkind record hsettled hterminal s' hrun
    have hother : c.kind ≠ .commitMarker := by
      rcases hkind with hkind | hkind | hkind <;> simp [hkind]
    exact (mem_iff_of_settled hcoherent hother hsettled hterminal hrun).2 hc

/-- A transaction deletes a row and commits. Another one begins at three, writes a column of the
row, deletes another row and commits at four. -/
def rewritesDeletedRow : List Call :=
  [.start .snapshot none, .delete ⟨⟨1⟩, [], .snapshot⟩ [7], .commit ⟨⟨1⟩, [], .snapshot⟩,
    .start .snapshot none, .write ⟨⟨3⟩, [], .snapshot⟩ [7] [([1], [8])],
    .delete ⟨⟨3⟩, [], .snapshot⟩ [5], .commit ⟨⟨3⟩, [], .snapshot⟩]

/-- A third one begins at five, writes both rows, deletes them again and is rolled back, with
compactions in between. -/
def strangerInBothRows : List Call :=
  [.start .readCommitted none, .write ⟨⟨5⟩, [], .readCommitted⟩ [7] [([1], [9])],
    .write ⟨⟨5⟩, [], .readCommitted⟩ [5] [([1], [9])], .compact,
    .delete ⟨⟨5⟩, [], .readCommitted⟩ [7], .delete ⟨⟨5⟩, [], .readCommitted⟩ [5],
    .rollback ⟨⟨5⟩, [], .readCommitted⟩, .compact]

/-- The data, the tombstone and the anti-tombstone of the second outlast the third, whose own data
its deletes take away. -/
theorem calls_disturb_no_others_strangerInBothRows :
    let s := rewritesDeletedRow.foldl after (opening (countingTo 5) 4 none)
    let written := (strangerInBothRows.take 4).foldl after s
    let s' := strangerInBothRows.foldl after s
    (∀ c ∈ [Cell.data [7] [1] ⟨3⟩ [8], Cell.antiTombstone [7] ⟨3⟩, Cell.tombstone [5] ⟨3⟩],
        c ∈ s'.engine.cells.toList) ∧
      Cell.data [7] [1] ⟨5⟩ [9] ∈ written.engine.cells.toList ∧
      Cell.data [7] [1] ⟨5⟩ [9] ∉ s'.engine.cells.toList := by
  intro s written s'
  have hsettles : Run (fun _ _ => True) (opening (countingTo 5) 4 none) s :=
    .of_admits .nil (by decide +kernel)
  have hstrange : Run (fun _ _ => True) s s' := .of_admits .nil (by decide +kernel)
  have hwrote : ∀ c ∈ [Cell.data [7] [1] ⟨3⟩ [8], Cell.antiTombstone [7] ⟨3⟩,
      Cell.tombstone [5] ⟨3⟩], c ∈ s.engine.cells.toList ∧
        (c.kind = .userData ∨ c.kind = .tombstone ∨ c.kind = .antiTombstone) ∧
        s.table.get? c.timestamp = some ⟨⟨⟨3⟩, [], .snapshot⟩, .committed, some ⟨4⟩, some ⟨4⟩⟩ := by
    decide +kernel
  refine ⟨?_, by decide +kernel, by decide +kernel⟩
  intro c hc
  obtain ⟨hmem, hkind, hwriter⟩ := hwrote c hc
  obtain ⟨_, _, _, _, hkept⟩ := calls_disturb_no_others hsettles
  exact hkept c hmem hkind _ hwriter rfl s' hstrange

end Session

end SnapshotIsolation
