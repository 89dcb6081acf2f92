import SnapshotIsolation.Timestamp.Basic

/-!
# Transactions

A transaction is named by its begin timestamp. It is active until it is settled, once and for
all, with one of three outcomes. A nested transaction also depends on its ancestors: its
effective status is that of the whole chain.
-/

namespace SnapshotIsolation

/-- What a transaction may see of others. -/
inductive Isolation where
  /-- What was committed when it began. -/
  | snapshot
  /-- What is committed when it looks. -/
  | readCommitted
  /-- Whatever has not failed. -/
  | readUncommitted
deriving DecidableEq, Repr, Inhabited

/-- The state of a transaction's own record. -/
inductive Status where
  | active
  | committed
  | rolledBack
  | error
deriving DecidableEq, Repr, Inhabited

namespace Status

/-- The name of a status inside messages. -/
def text : Status → String
  | .active => "Active"
  | .committed => "Committed"
  | .rolledBack => "RolledBack"
  | .error => "Error"

/-- Whether the transaction is settled. -/
def isTerminal (s : Status) : Bool := s != .active

/-- Whether the transaction was settled without success. -/
def isFailed : Status → Bool
  | .rolledBack | .error => true
  | _ => false

end Status

/-- How a transaction is settled. -/
inductive Outcome where
  /-- Successfully, at a time of its own. -/
  | commit (ts : Timestamp)
  /-- Undone by its owner. -/
  | rollback
  /-- Undone because it could not go on. -/
  | error
deriving DecidableEq, Repr

/-- The status of a transaction together with its ancestors. -/
inductive EffectiveStatus where
  | active
  | committed (ts : Timestamp)
  | failed (status : Status)
deriving DecidableEq, Repr

/-- Whether an effective status can no longer change. -/
def EffectiveStatus.isTerminal (s : EffectiveStatus) : Bool := s != .active

end SnapshotIsolation
