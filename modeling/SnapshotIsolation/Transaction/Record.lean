import SnapshotIsolation.Transaction.Error

/-!
# Handles and records

A handle names a transaction, its ancestors and its isolation; a client holds it. A record
adds how far the transaction has come. Settling a record is final: a settled record accepts
only the outcome it already has.
-/

namespace SnapshotIsolation

/-- The first fault of a chain whose last checked member is `below`. -/
def ancestorFault? (below : Timestamp) : List Timestamp → Option ChainFault
  | [] => none
  | ancestor :: rest =>
    if below ≤ ancestor ∨ ancestor = .zero then some (.unordered ancestor below)
    else ancestorFault? ancestor rest

/-- The first fault of a transaction id with its ancestors, nearest first. -/
def chainFault? (id : Timestamp) (ancestors : List Timestamp) : Option ChainFault :=
  if id = .zero then some .zeroId else ancestorFault? id ancestors

/-- What a client holds of a transaction. -/
structure Handle where
  /-- The transaction's begin timestamp, which is also its snapshot. -/
  id : Timestamp
  /-- The ancestors, nearest first. -/
  ancestors : List Timestamp
  /-- What the transaction may see. -/
  isolation : Isolation
deriving DecidableEq, Repr, Inhabited

namespace Handle

/-- A handle whose ancestors form a chain below its id. -/
def ofChain (id : Timestamp) (ancestors : List Timestamp) (isolation : Isolation) :
    Except TransactionError Handle :=
  match chainFault? id ancestors with
  | some fault => .error (.invalidChain id fault)
  | none => .ok ⟨id, ancestors, isolation⟩

/-- The time at which the transaction reads. -/
def snapshot (h : Handle) : Timestamp := h.id

/-- The nearest ancestor. -/
def parent? (h : Handle) : Option Timestamp := h.ancestors.head?

/-- Whether a transaction is an ancestor. -/
def isAncestor (h : Handle) (ts : Timestamp) : Bool := h.ancestors.contains ts

/-- Whether a transaction is this one or an ancestor. -/
def isInFamily (h : Handle) (ts : Timestamp) : Bool := h.id == ts || h.isAncestor ts

end Handle

/-- What is recorded of a transaction. -/
structure Record extends Handle where
  /-- How far the transaction has come. -/
  status : Status
  /-- When it was settled: its commit time, or its own id if it failed. -/
  commitTs : Option Timestamp
  /-- When it became visible to everyone, for a transaction without ancestors. -/
  globalCommitTs : Option Timestamp
deriving DecidableEq, Repr, Inhabited

namespace Record

/-- The record of a transaction that begins. -/
def start (id : Timestamp) (ancestors : List Timestamp) (isolation : Isolation) :
    Except TransactionError Record := do
  let handle ← Handle.ofChain id ancestors isolation
  return { handle with status := .active, commitTs := none, globalCommitTs := none }

/-- Whether the transaction has no ancestors. -/
def isTopLevel (r : Record) : Bool := r.ancestors.isEmpty

/-- Settles an active record without success; it is closed by its own id. -/
def abandon (r : Record) (target : Status) : Except TransactionError Record :=
  if r.status = .active then .ok { r with status := target, commitTs := some r.id }
  else if r.status = target then .ok r
  else .error (.invalidTransition r.id r.status target)

/-- Commits a record at a time after its begin. -/
def commit (r : Record) (ts : Timestamp) : Except TransactionError Record :=
  match r.status, r.commitTs with
  | .active, none =>
    if ts ≤ r.id then .error (.commitBeforeBegin r.id ts)
    else .ok { r with
      status := .committed
      commitTs := some ts
      globalCommitTs := if r.isTopLevel then some ts else r.globalCommitTs }
  | .committed, some existing =>
    if existing = ts then .ok r else .error (.commitConflict r.id existing ts)
  | .active, some existing => .error (.commitConflict r.id existing ts)
  | source, _ => .error (.invalidTransition r.id source .committed)

/-- Settles a record. -/
def settle (r : Record) : Outcome → Except TransactionError Record
  | .commit ts => r.commit ts
  | .rollback => r.abandon .rolledBack
  | .error => r.abandon .error

/-- The later of a transaction's begin and the time it was settled. -/
def latest (r : Record) : Timestamp :=
  match r.commitTs with
  | some ts => max ts r.id
  | none => r.id

end Record

end SnapshotIsolation
