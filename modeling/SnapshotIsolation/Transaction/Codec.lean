import SnapshotIsolation.Transaction.Record
import SnapshotIsolation.Wire

/-!
# Transactions as bytes

How the parts of a transaction are written in the wire format. Records are read as they come:
nothing about a record that was read is checked.

Main results:

- Theorems `Handle.run_read_put` and `Record.run_read_put`: a handle and a record are read back,
  whatever follows them, if their ancestors can be counted in a word.
-/

namespace SnapshotIsolation

namespace Timestamp

/-- Writes a timestamp as a word. -/
def put (t : Timestamp) : Bytes := Wire.putWord t.raw

/-- Reads a timestamp. -/
def read : Reader Timestamp := Timestamp.mk <$> Wire.word

/-- A timestamp is read back, whatever follows it. -/
theorem run_read_put (t : Timestamp) (rest : Bytes) : read.run (t.put ++ rest) = .ok (t, rest) :=
  Reader.run_map_of_run (Wire.run_word_putWord t.raw rest)

end Timestamp

namespace Isolation

/-- Writes an isolation as its index. -/
def put : Isolation → Bytes
  | .snapshot => [0]
  | .readCommitted => [1]
  | .readUncommitted => [2]

/-- Reads an isolation. -/
def read : Reader Isolation := do
  match (← Wire.index) with
  | 0 => return .snapshot
  | 1 => return .readCommitted
  | 2 => return .readUncommitted
  | _ => throw .unknownVariant

/-- An isolation is read back, whatever follows it. -/
theorem run_read_put (i : Isolation) (rest : Bytes) : read.run (i.put ++ rest) = .ok (i, rest) := by
  cases i <;> rfl

end Isolation

namespace Status

/-- Writes a status as its index. -/
def put : Status → Bytes
  | .active => [0]
  | .committed => [1]
  | .rolledBack => [2]
  | .error => [3]

/-- Reads a status. -/
def read : Reader Status := do
  match (← Wire.index) with
  | 0 => return .active
  | 1 => return .committed
  | 2 => return .rolledBack
  | 3 => return .error
  | _ => throw .unknownVariant

/-- A status is read back, whatever follows it. -/
theorem run_read_put (s : Status) (rest : Bytes) : read.run (s.put ++ rest) = .ok (s, rest) := by
  cases s <;> rfl

end Status

namespace Handle

/-- Writes a handle. -/
def put (h : Handle) : Bytes :=
  h.id.put ++ Wire.putList Timestamp.put h.ancestors ++ h.isolation.put

/-- Reads a handle without checking its ancestors. -/
def read : Reader Handle := do
  let id ← Timestamp.read
  let ancestors ← Wire.list Timestamp.read
  let isolation ← Isolation.read
  return ⟨id, ancestors, isolation⟩

/-- A handle is read back, whatever follows it. -/
theorem run_read_put {h : Handle} (fits : h.ancestors.length < UInt64.size) (rest : Bytes) :
    read.run (h.put ++ rest) = .ok (h, rest) := by
  rw [read, put, List.append_assoc, List.append_assoc,
    Reader.run_bind_of_run (h.id.run_read_put _),
    Reader.run_bind_of_run (Wire.run_list_putList Timestamp.run_read_put fits _),
    Reader.run_bind_of_run (h.isolation.run_read_put _)]
  rfl

end Handle

namespace Record

/-- Writes a record. -/
def put (r : Record) : Bytes :=
  r.toHandle.put ++ r.status.put ++ Wire.putOption Timestamp.put r.commitTs
    ++ Wire.putOption Timestamp.put r.globalCommitTs

/-- Reads a record. -/
def read : Reader Record := do
  let handle ← Handle.read
  let status ← Status.read
  let commitTs ← Wire.option Timestamp.read
  let globalCommitTs ← Wire.option Timestamp.read
  return { handle with status, commitTs, globalCommitTs }

/-- A record is read back, whatever follows it. -/
theorem run_read_put {r : Record} (fits : r.ancestors.length < UInt64.size) (rest : Bytes) :
    read.run (r.put ++ rest) = .ok (r, rest) := by
  rw [read, put, List.append_assoc, List.append_assoc, List.append_assoc,
    Reader.run_bind_of_run (Handle.run_read_put fits _),
    Reader.run_bind_of_run (r.status.run_read_put _),
    Reader.run_bind_of_run (Wire.run_option_putOption Timestamp.run_read_put _ _),
    Reader.run_bind_of_run (Wire.run_option_putOption Timestamp.run_read_put _ _)]
  rfl

end Record

end SnapshotIsolation
