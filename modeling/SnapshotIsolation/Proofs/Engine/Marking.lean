import SnapshotIsolation.Proofs.Engine.Writes

/-!
# Markers beside what was written

A transaction that writes or deletes leaves a marker in the row once it is done. Nothing removes
or moves a marker, so every other cell has one of its writer beside it.

Main results:

- Theorems {lit}`CellStore.Marked.written` and {lit}`CellStore.Marked.deleted`: a write and a delete
  leave all cells marked.
- Theorem {lit}`Session.Regular.marked_after`: so does every call.
-/

namespace SnapshotIsolation

open Step (Preserves)

/-- The place of the commit marker of a writer in a row. -/
def Cell.markerKey (row : Bytes) (writer : Timestamp) : Cell.Key :=
  (Cell.unresolvedMarker row writer).key

namespace CellStore

variable {s : CellStore} {c : Cell} {k : Cell.Key} {row : Bytes} {id : Timestamp}

/-! ## Places that are taken -/

/-- A cell stands at the place. -/
def Holds (s : CellStore) (k : Cell.Key) : Prop := ∃ c ∈ s.toList, c.key = k

theorem holds_put_self (s : CellStore) (c : Cell) : (s.put c).Holds c.key :=
  ⟨c, mem_put.2 (.inl rfl), rfl⟩

theorem Holds.put (h : s.Holds k) (c : Cell) : (s.put c).Holds k := by
  by_cases hkey : k = c.key
  · exact hkey ▸ holds_put_self s c
  · rcases h with ⟨x, hx, rfl⟩
    exact ⟨x, mem_put.2 (.inr ⟨hkey, hx⟩), rfl⟩

theorem Holds.remove (h : s.Holds k) (hother : k ≠ c.key) : (s.remove c).Holds k := by
  rcases h with ⟨x, hx, rfl⟩
  exact ⟨x, mem_remove.2 ⟨hother, hx⟩, rfl⟩

theorem Holds.existsUnique (h : s.Holds k) : ∃! c, c ∈ s.toList ∧ c.key = k := by
  rcases h with ⟨c, hc, rfl⟩
  refine ⟨c, ⟨hc, rfl⟩, ?_⟩
  rintro x ⟨hx, hkey⟩
  rw [mem_toList] at hc hx
  rw [hkey, hc] at hx
  exact (Option.some.inj hx).symm

theorem Holds.replaceRow (h : s.Holds k) (before after : List Cell) :
    (s.replaceRow before after).Holds k := by
  unfold CellStore.replaceRow
  induction before.zip after generalizing s with
  | nil => exact h
  | cons pair pairs ih =>
    rw [List.foldl_cons]
    split
    · exact ih h
    · exact ih (h.put pair.2)

/-! ## Cells and the markers beside them -/

/-- Every cell other than a marker has a marker of its writer beside it. -/
def Marked (s : CellStore) : Prop :=
  ∀ c ∈ s.toList, c.kind ≠ .commitMarker → s.Holds (Cell.markerKey c.row c.timestamp)

/-- Every cell other than a marker has a marker of its writer beside it, except perhaps for what
one transaction wrote in one row. -/
def MarkedBut (row : Bytes) (id : Timestamp) (s : CellStore) : Prop :=
  ∀ c ∈ s.toList, c.kind ≠ .commitMarker →
    c.row = row ∧ c.timestamp = id ∨ s.Holds (Cell.markerKey c.row c.timestamp)

theorem Marked.but (h : s.Marked) (row : Bytes) (id : Timestamp) : s.MarkedBut row id :=
  fun c hc hkind => .inr (h c hc hkind)

theorem MarkedBut.put (h : s.MarkedBut row id) (hrow : c.row = row) (hid : c.timestamp = id) :
    (s.put c).MarkedBut row id := by
  intro x hx hkind
  rcases mem_put.1 hx with rfl | ⟨_, hx⟩
  · exact .inl ⟨hrow, hid⟩
  · exact (h x hx hkind).imp_right fun hholds => hholds.put c

theorem MarkedBut.put_columns (h : s.MarkedBut row id) (columns : List (Bytes × Bytes)) :
    (columns.foldl (fun s c => s.put (Cell.data row c.1 id c.2)) s).MarkedBut row id := by
  induction columns generalizing s with
  | nil => exact h
  | cons c columns ih => exact ih (h.put rfl rfl)

/-- A marker makes good what was excepted. -/
theorem MarkedBut.mark (h : s.MarkedBut row id) :
    (s.put (Cell.unresolvedMarker row id)).Marked := by
  intro x hx hkind
  rcases mem_put.1 hx with rfl | ⟨_, hx⟩
  · exact absurd (Cell.kind_unresolvedMarker row id) hkind
  · rcases h x hx hkind with ⟨rfl, rfl⟩ | hholds
    · exact holds_put_self s _
    · exact hholds.put _

theorem Marked.remove (h : s.Marked) (hkind : c.kind ≠ .commitMarker) : (s.remove c).Marked := by
  intro x hx hkind'
  have hmarker : Cell.markerKey x.row x.timestamp ≠ c.key := by
    intro hkey
    exact hkind ((Cell.isMarker_congr hkey).1 (Cell.kind_unresolvedMarker ..))
  exact (h x (mem_remove.1 hx).2 hkind').remove hmarker

theorem Marked.remove_all {cells : List Cell} (h : s.Marked)
    (hkind : ∀ c ∈ cells, c.kind ≠ .commitMarker) : (cells.foldl CellStore.remove s).Marked := by
  induction cells generalizing s with
  | nil => exact h
  | cons c cells ih =>
    exact ih (h.remove (hkind c List.mem_cons_self)) fun x hx => hkind x (List.mem_cons_of_mem _ hx)

/-- What a transaction writes in a row is marked. -/
theorem Marked.written (h : s.Marked) (row : Bytes) (id : Timestamp) (cancels : Bool)
    (columns : List (Bytes × Bytes)) : (s.written row id cancels columns).Marked := by
  have hcanceled : (if cancels then s.put (Cell.antiTombstone row id) else s).MarkedBut row id := by
    split
    · exact (h.but row id).put rfl rfl
    · exact h.but row id
  exact (hcanceled.put_columns columns).mark

/-- So is the tombstone of a row that it deletes. -/
theorem Marked.deleted (h : s.Marked) (row : Bytes) (id : Timestamp) : (s.deleted row id).Marked := by
  have hown : ∀ c ∈ (s.row row).filter (fun c => c.timestamp = id ∧ c.kind = .userData),
      c.kind ≠ .commitMarker := by
    intro c hc
    have howned := (List.mem_filter.1 hc).2
    rw [decide_eq_true_eq] at howned
    simp [howned.2]
  have htombstone := ((h.remove_all hown).but row id).put (c := Cell.tombstone row id) rfl rfl
  exact htombstone.mark

/-- Resolving markers leaves all cells marked. -/
theorem Marked.of_resolved {t : Registry.Table} {s' : CellStore} (h : s.Marked)
    (hresolved : Resolved t s s') (hholds : ∀ k, s.Holds k → s'.Holds k) : s'.Marked :=
  fun c hc hkind => hholds _ (h c ((hresolved.others hkind).1 hc) hkind)

end CellStore

/-- A compaction takes no cell away from its place. -/
theorem Engine.holds_compact {σ : Type} (k : Cell.Key) :
    Spares (·.Holds k) (compact : Action σ CompactionStats) :=
  spares_compact fun _ _ after hs _ => hs.replaceRow _ after

theorem Session.holds_after_compact {σ : Type} [TimestampSource σ] {s : Session σ} {k : Cell.Key}
    (h : s.engine.cells.Holds k) : (s.after .compact).engine.cells.Holds k := by
  have hperform : Engine.Spares (·.Holds k)
      (Call.compact.perform : Engine.Action (RecordedSource σ) (Option Handle)) :=
    (Engine.holds_compact k).bind fun _ => Step.preserves_pure _
  exact hperform.after h

/-- Every call of a session leaves all cells marked. -/
theorem Session.Regular.marked_after {σ : Type} [TimestampSource σ] {s : Session σ}
    (h : Regular s) (hmarked : s.engine.cells.Marked) (call : Call) :
    (s.after call).engine.cells.Marked := by
  have hholds : ∀ k, call = .compact → s.engine.cells.Holds k →
      (s.after call).engine.cells.Holds k := by
    rintro k rfl hk
    exact holds_after_compact hk
  have halters := h.alters call
  generalize (s.after call).engine.cells = cells' at halters hholds ⊢
  cases halters with
  | kept => exact hmarked
  | wrote _ _ _ => exact hmarked.written _ _ _ _
  | deleted _ _ => exact hmarked.deleted _ _
  | resolved hresolved => exact hmarked.of_resolved hresolved fun k => hholds k rfl

end SnapshotIsolation
