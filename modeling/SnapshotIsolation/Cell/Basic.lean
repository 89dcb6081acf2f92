import SnapshotIsolation.Timestamp.Basic

/-!
# Cells

A cell is one version of one column of a row. Data lives in the data family; each writer also
leaves a commit marker in the status family of every row it touches, and a tombstone there if
it deletes the row. A write over a row that another transaction deleted leaves an
anti-tombstone in place of a tombstone.
-/

namespace SnapshotIsolation

/-- One version of one column of a row. -/
structure Cell where
  /-- The row. -/
  row : Bytes
  /-- The column family. -/
  family : Bytes
  /-- The column within the family. -/
  qualifier : Bytes
  /-- The transaction that wrote the version. -/
  timestamp : Timestamp
  /-- The content. -/
  value : Bytes
deriving DecidableEq, Repr, Inhabited

namespace Cell

/-- What a cell is for. -/
inductive Kind where
  | userData
  | commitMarker
  | tombstone
  | antiTombstone
  /-- A cell of the status family without a meaning. -/
  | other
deriving DecidableEq, Repr

/-- The family of data. -/
def dataFamily : Bytes := [0x56]

/-- The family of markers and tombstones. -/
def statusFamily : Bytes := [0x53]

/-- The column of commit markers. -/
def markerQualifier : Bytes := [0x74]

/-- The column of tombstones. -/
def tombstoneQualifier : Bytes := [0x64]

/-- The content of an anti-tombstone. -/
def antiTombstoneValue : Bytes := [0x30]

/-- What a column is for. -/
def classify (family qualifier : Bytes) : Kind :=
  if family = statusFamily then
    if qualifier = markerQualifier then .commitMarker
    else if qualifier = tombstoneQualifier then .tombstone
    else .other
  else .userData

/-- Whether a value is that of a tombstone. -/
def isTombstoneValue (value : Bytes) : Bool := value.isEmpty

/-- Whether a value is that of an anti-tombstone. -/
def isAntiTombstoneValue (value : Bytes) : Bool := value == antiTombstoneValue

/-- What a cell is for. -/
def kind (c : Cell) : Kind :=
  match classify c.family c.qualifier with
  | .tombstone =>
    if isAntiTombstoneValue c.value then .antiTombstone
    else if isTombstoneValue c.value then .tombstone
    else .other
  | kind => kind

/-- The cell with another value. -/
def withValue (c : Cell) (value : Bytes) : Cell := { c with value := value }

/-- A cell of data. -/
def data (row qualifier : Bytes) (writer : Timestamp) (value : Bytes) : Cell :=
  ⟨row, dataFamily, qualifier, writer, value⟩

/-- A commit marker that says nothing yet. -/
def unresolvedMarker (row : Bytes) (writer : Timestamp) : Cell :=
  ⟨row, statusFamily, markerQualifier, writer, []⟩

/-- A tombstone. -/
def tombstone (row : Bytes) (writer : Timestamp) : Cell :=
  ⟨row, statusFamily, tombstoneQualifier, writer, []⟩

/-- An anti-tombstone. -/
def antiTombstone (row : Bytes) (writer : Timestamp) : Cell :=
  ⟨row, statusFamily, tombstoneQualifier, writer, antiTombstoneValue⟩

@[simp]
theorem kind_data (row qualifier : Bytes) (writer : Timestamp) (value : Bytes) :
    (data row qualifier writer value).kind = .userData := rfl

@[simp]
theorem kind_unresolvedMarker (row : Bytes) (writer : Timestamp) :
    (unresolvedMarker row writer).kind = .commitMarker := rfl

@[simp]
theorem kind_tombstone (row : Bytes) (writer : Timestamp) :
    (tombstone row writer).kind = .tombstone := rfl

@[simp]
theorem kind_antiTombstone (row : Bytes) (writer : Timestamp) :
    (antiTombstone row writer).kind = .antiTombstone := rfl

end Cell

end SnapshotIsolation
