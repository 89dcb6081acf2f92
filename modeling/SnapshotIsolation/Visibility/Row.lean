import SnapshotIsolation.Cell.Store
import SnapshotIsolation.Visibility.Writer

/-!
# Rows as a reader sees them

Of each data column a reader sees the newest version whose writer it sees, unless a newer
tombstone that it sees deletes the row. Tombstones are judged first, then the versions that
can still matter, both in the order in which the cells are given. The verdict on a writer is
kept for the rest of the row, so that it is reached only once.
-/

namespace SnapshotIsolation

/-- The name of a column: its family and its qualifier. -/
structure Column where
  /-- The column family. -/
  family : Bytes
  /-- The column within the family. -/
  qualifier : Bytes
deriving DecidableEq, Repr

namespace Column

instance : Ord Column where
  compare := compareLex (compareOn family) (compareOn qualifier)

instance : Std.TransOrd Column :=
  inferInstanceAs (Std.TransCmp (compareLex (compareOn family) (compareOn qualifier)))

instance : Std.LawfulEqOrd Column where
  eq_of_compare {a b} h := by
    obtain ⟨hfamily, hqualifier⟩ := Ordering.then_eq_eq.1 h
    have family : a.family = b.family := Std.LawfulEqOrd.eq_of_compare hfamily
    have qualifier : a.qualifier = b.qualifier := Std.LawfulEqOrd.eq_of_compare hqualifier
    cases a
    cases b
    simp_all

end Column

/-- The column of a cell. -/
def Cell.column (c : Cell) : Column := ⟨c.family, c.qualifier⟩

namespace Reading

/-- The commit marker of each writer among the cells; of several, the last one given. -/
def markers (cells : List Cell) : Except EncodingError (SortedMap Timestamp Marker) :=
  cells.foldlM (fun found c =>
    if c.kind = .commitMarker then do return found.insert c.timestamp (← Marker.decode c.value)
    else return found) .empty

section Folding

variable {m : Type → Type} [Monad m]

/-- The time of the newest deletion so far, after one more cell was looked at. -/
def deletionStep (visible : Timestamp → m Bool) (deletedAt : Option Timestamp) (c : Cell) :
    m (Option Timestamp) := do
  if c.kind = .tombstone then
    if ← visible c.timestamp then
      return some (deletedAt.elim c.timestamp (max · c.timestamp))
  return deletedAt

/-- The version of each column so far, after one more cell was looked at. -/
def versionStep (visible : Timestamp → m Bool) (deletedAt : Option Timestamp)
    (columns : SortedMap Column Cell) (c : Cell) : m (SortedMap Column Cell) := do
  if c.kind ≠ .userData then return columns
  if deletedAt.any (c.timestamp < ·) then return columns
  if (columns.get? c.column).any (c.timestamp ≤ ·.timestamp) then return columns
  if ← visible c.timestamp then return columns.insert c.column c
  return columns

/-- The versions among the cells that are visible, by family and qualifier. -/
def visibleCells (visible : Timestamp → m Bool) (cells : List Cell) : m (List Cell) := do
  let deletedAt ← cells.foldlM (deletionStep visible) none
  let columns ← cells.foldlM (versionStep visible deletedAt) .empty
  return columns.values

end Folding

/-- The verdicts reached so far, by writer. -/
abbrev Verdicts := SortedMap Timestamp Bool

/-- The verdict on a writer: the one that was reached before, or else a new one, which is kept. -/
def judgeOnce (visible : Timestamp → Reading Bool) (writer : Timestamp) :
    StateT Verdicts Reading Bool := do
  match (← get).get? writer with
  | some verdict => return verdict
  | none =>
    let verdict ← visible writer
    modify fun verdicts => verdicts.insert writer verdict
    return verdict

/-- The versions of a row that a reader sees, by family and qualifier. -/
def readRow (cells : List Cell) (reader : Handle) : Reading (List Cell) := do
  let found ← Step.ofExcept ((markers cells).mapError .encoding)
  let visible := fun writer => isWriterVisible writer (found.get? writer) reader.snapshot reader
  (visibleCells (judgeOnce visible) cells).run' .empty

end Reading

end SnapshotIsolation
