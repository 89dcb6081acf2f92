import SnapshotIsolation.Cell.Basic
import SnapshotIsolation.Error
import SnapshotIsolation.SortedMap
import SnapshotIsolation.Step

/-!
# The cell store

All cells in one sorted map: by row, family and qualifier in the order of bytes, and within a
column the newest version first. A row is one contiguous stretch of the map.

Main results:

- Theorems `CellStore.get?_put` and `CellStore.get?_remove`: what stands at a place after a cell
  was put or removed.
- Theorem `CellStore.mem_toList`: the cells of a store are those that stand at their places.
-/

namespace SnapshotIsolation

namespace Cell

/-- Where a cell stands. -/
structure Key where
  /-- The row. -/
  row : Bytes
  /-- The column family. -/
  family : Bytes
  /-- The column within the family. -/
  qualifier : Bytes
  /-- The transaction that wrote the version. -/
  timestamp : Timestamp
deriving DecidableEq, Repr

namespace Key

/-- The order of versions: the newest first. -/
def compareVersions (a b : Key) : Ordering := compare b.timestamp a.timestamp

instance : Ord Key where
  compare := compareLex (compareOn row)
    (compareLex (compareOn family) (compareLex (compareOn qualifier) compareVersions))

instance : Std.TransCmp compareVersions where
  eq_swap {a b} := Std.OrientedOrd.eq_swap (a := b.timestamp) (b := a.timestamp)
  isLE_trans {a b c} hab hbc :=
    Std.TransOrd.isLE_trans (a := c.timestamp) (b := b.timestamp) (c := a.timestamp) hbc hab

instance : Std.TransOrd Key :=
  inferInstanceAs (Std.TransCmp (compareLex (compareOn row)
    (compareLex (compareOn family) (compareLex (compareOn qualifier) compareVersions))))

instance : Std.LawfulEqOrd Key where
  eq_of_compare {a b} h := by
    obtain ⟨hrow, h⟩ := Ordering.then_eq_eq.1 h
    obtain ⟨hfamily, h⟩ := Ordering.then_eq_eq.1 h
    obtain ⟨hqualifier, hversion⟩ := Ordering.then_eq_eq.1 h
    have row : a.row = b.row := Std.LawfulEqOrd.eq_of_compare hrow
    have family : a.family = b.family := Std.LawfulEqOrd.eq_of_compare hfamily
    have qualifier : a.qualifier = b.qualifier := Std.LawfulEqOrd.eq_of_compare hqualifier
    have version : b.timestamp = a.timestamp := Std.LawfulEqOrd.eq_of_compare hversion
    cases a
    cases b
    simp_all

/-- The place before all cells of a row. -/
def rowStart (row : Bytes) : Key := ⟨row, [], [], ⟨0xFFFFFFFFFFFFFFFF⟩⟩

/-- The cell at a place. -/
def cell (k : Key) (value : Bytes) : Cell :=
  ⟨k.row, k.family, k.qualifier, k.timestamp, value⟩

end Key

/-- Where a cell stands. -/
def key (c : Cell) : Key := ⟨c.row, c.family, c.qualifier, c.timestamp⟩

@[simp]
theorem cell_key (c : Cell) : c.key.cell c.value = c := rfl

@[simp]
theorem key_cell (k : Key) (value : Bytes) : (k.cell value).key = k := rfl

end Cell

/-- A sorted collection of cells, at most one at each place. -/
structure CellStore where
  /-- The value at each place. -/
  values : SortedMap Cell.Key Bytes
deriving Inhabited

/-- What a compaction went through. -/
structure CompactionOutcome where
  /-- Number of rows. -/
  rows : Nat
  /-- Number of cells. -/
  cells : Nat
  /-- Number of cells that got another value. -/
  changed : Nat
deriving DecidableEq, Repr, Inhabited

namespace CellStore

/-- The store without cells. -/
def empty : CellStore := ⟨.empty⟩

/-- Number of cells. -/
def size (s : CellStore) : Nat := s.values.size

/-- Whether there are no cells. -/
def isEmpty (s : CellStore) : Bool := s.values.entries.isEmpty

/-- All cells in order. -/
def toList (s : CellStore) : List Cell := s.values.entries.map fun e => e.1.cell e.2

/-- The cell at a place. -/
def get? (s : CellStore) (k : Cell.Key) : Option Cell := (s.values.get? k).map k.cell

/-- Puts a cell, in place of one that stood there. -/
def put (s : CellStore) (c : Cell) : CellStore := ⟨s.values.insert c.key c.value⟩

/-- Removes the cell that stands where the given one does. -/
def remove (s : CellStore) (c : Cell) : CellStore := ⟨s.values.erase c.key⟩

/-- The cells of a row: the stretch of the map from the row's start to the next row. -/
def row (s : CellStore) (r : Bytes) : List Cell :=
  ((s.values.entries.dropWhile fun e => compare e.1 (Cell.Key.rowStart r) == .lt).takeWhile
    fun e => e.1.row == r).map fun e => e.1.cell e.2

/-- A list with each run of equal neighbours made one. -/
def squeeze : List Bytes → List Bytes
  | [] => []
  | [r] => [r]
  | r :: r' :: rest => if r = r' then squeeze (r' :: rest) else r :: squeeze (r' :: rest)

/-- The rows that hold cells, in order. -/
def rows (s : CellStore) : List Bytes := squeeze (s.values.keys.map (·.row))

/-- What stands at a place after a cell was put. -/
theorem get?_put (s : CellStore) (c : Cell) (k : Cell.Key) :
    (s.put c).get? k = if c.key = k then some c else s.get? k := by
  rw [get?, put, SortedMap.get?_insert]
  split
  · next h =>
    have same : c.key = k := Std.LawfulEqOrd.eq_of_compare h
    rw [if_pos same, ← same]
    rfl
  · next h =>
    have other : c.key ≠ k := fun same => h (same ▸ Std.ReflOrd.compare_self)
    rw [if_neg other, get?]

/-- What stands at a place after a cell was removed. -/
theorem get?_remove (s : CellStore) (c : Cell) (k : Cell.Key) :
    (s.remove c).get? k = if c.key = k then none else s.get? k := by
  rw [get?, remove, SortedMap.get?_erase]
  split
  · next h => rw [if_pos (Std.LawfulEqOrd.eq_of_compare h).symm, Option.map_none]
  · next h =>
    have other : c.key ≠ k := fun same => h (same ▸ Std.ReflOrd.compare_self)
    rw [if_neg other, get?]

/-- The cells of a store are those that stand at their places. -/
theorem mem_toList {s : CellStore} {c : Cell} : c ∈ s.toList ↔ s.get? c.key = some c := by
  rw [toList, List.mem_map, get?, Option.map_eq_some_iff]
  constructor
  · rintro ⟨⟨k, value⟩, h, rfl⟩
    exact ⟨value, SortedMap.get?_eq_some_iff.2 h, rfl⟩
  · rintro ⟨value, h, same⟩
    exact ⟨(c.key, value), SortedMap.get?_eq_some_iff.1 h, same⟩

/-! ## Compaction -/

/-- What a compaction asks of each row: the cells of the row as they are to be. -/
abbrev Hook (σ : Type) := List Cell → Step StorageError σ (List Cell)

/-- Puts every cell of a row whose value changed. -/
def replaceRow (before after : List Cell) (s : CellStore) : CellStore :=
  (before.zip after).foldl (fun s pair => if pair.1.value = pair.2.value then s else s.put pair.2) s

/-- How many cells of a row change their value. -/
def countChanged (before after : List Cell) : Nat :=
  (before.zip after).countP fun pair => pair.1.value != pair.2.value

/-- Compacts one row. -/
def compactRow {σ : Type} (hook : Hook σ) (total : CompactionOutcome) (r : Bytes) :
    Step StorageError (CellStore × σ) CompactionOutcome := do
  let before := (← get).1.row r
  let after ← Step.focus Prod.snd (fun t s => (s.1, t)) (hook before)
  if after.length ≠ before.length then
    throw (.encoding (.batchSizeMismatch before.length after.length))
  modify fun s => (s.1.replaceRow before after, s.2)
  return {
    rows := total.rows + 1
    cells := total.cells + before.length
    changed := total.changed + countChanged before after }

/-- Passes every row, in order, through a hook and stores what comes back. The first failure
ends the compaction; the rows before it stay changed. -/
def compact {σ : Type} (hook : Hook σ) : Step StorageError (CellStore × σ) CompactionOutcome := do
  (← get).1.rows.foldlM (compactRow hook) ⟨0, 0, 0⟩

end CellStore

end SnapshotIsolation
