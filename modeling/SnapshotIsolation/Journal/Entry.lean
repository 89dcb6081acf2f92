import SnapshotIsolation.Transaction.Codec

/-!
# Journal entries

Each entry of the journal tells one thing that happened to one transaction. Its number gives
its place in the order of events.
-/

namespace SnapshotIsolation.Journal

/-- What happened to a transaction. -/
inductive Event where
  /-- It began. -/
  | began (ancestors : List Timestamp) (isolation : Isolation)
  /-- It was settled. -/
  | settled (outcome : Outcome)
deriving DecidableEq, Repr

/-- One numbered event. -/
structure Entry where
  /-- The number of the entry. -/
  lsn : UInt64
  /-- The transaction it is about. -/
  txn : Timestamp
  /-- What happened. -/
  event : Event
deriving DecidableEq, Repr

namespace Event

/-- Writes an event. -/
def put : Event → Bytes
  | .began ancestors isolation => 0 :: Wire.putList Timestamp.put ancestors ++ isolation.put
  | .settled (.commit ts) => 1 :: ts.put
  | .settled .rollback => [2]
  | .settled .error => [3]

/-- Reads an event. -/
def read : Reader Event := do
  match (← Wire.index) with
  | 0 =>
    let ancestors ← Wire.list Timestamp.read
    let isolation ← Isolation.read
    return .began ancestors isolation
  | 1 => return .settled (.commit (← Timestamp.read))
  | 2 => return .settled .rollback
  | 3 => return .settled .error
  | _ => throw .unknownVariant

end Event

namespace Entry

/-- Writes an entry. -/
def put (e : Entry) : Bytes := Wire.putWord e.lsn ++ e.txn.put ++ e.event.put

/-- Reads an entry. -/
def read : Reader Entry := do
  let lsn ← Wire.word
  let txn ← Timestamp.read
  let event ← Event.read
  return ⟨lsn, txn, event⟩

/-- The entry at the start of the bytes; what follows it does not matter. -/
def decode (bytes : Bytes) : Except WireError Entry := Wire.ofPrefix read bytes

end Entry

end SnapshotIsolation.Journal
