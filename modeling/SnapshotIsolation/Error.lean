import SnapshotIsolation.Journal.Frame
import SnapshotIsolation.Timestamp.Error
import SnapshotIsolation.Transaction.Error

/-!
# Storage failures

Why an operation of the engine fails: a transaction refuses it, the timestamp service or the
journal fails, or stored bytes do not mean what they should.
-/

namespace SnapshotIsolation

/-- Stored bytes that do not mean what they should. -/
inductive EncodingError where
  /-- A commit marker has neither no bytes nor those of a timestamp. -/
  | malformedMarker (length : Nat)
  /-- A compaction gave a row another number of cells. -/
  | batchSizeMismatch (input output : Nat)
deriving DecidableEq, Repr

/-- The wording of an encoding error. -/
def EncodingError.message : EncodingError → String
  | .malformedMarker length =>
    "commit marker of " ++ toString length ++ " bytes is neither unresolved nor a timestamp"
  | .batchSizeMismatch input output =>
    "compaction must emit one cell per input, got " ++ toString output ++ " for "
      ++ toString input

/-- Why an operation of the engine fails. -/
inductive StorageError where
  | transaction (cause : TransactionError)
  | timestamp (cause : TimestampError)
  | journal (cause : JournalError)
  | encoding (cause : EncodingError)
deriving DecidableEq, Repr

namespace StorageError

/-- The wording of the cause alone. -/
def causeMessage : StorageError → String
  | .transaction cause => cause.message
  | .timestamp cause => cause.message
  | .journal cause => cause.message
  | .encoding cause => cause.message

/-- The wording of a storage failure: its part of the engine, then its cause. -/
def message (e : StorageError) : String :=
  let part := match e with
    | .transaction _ => "Transaction error: "
    | .timestamp _ => "Timestamp error: "
    | .journal _ => "WAL error: "
    | .encoding _ => "Encoding error: "
  part ++ e.causeMessage

/-- The wordings of the causes behind a storage failure, nearest first. -/
def causes : StorageError → List String
  | .journal (.io error) => [(JournalError.io error).message, error.message]
  | e => [e.causeMessage]

end StorageError

end SnapshotIsolation
