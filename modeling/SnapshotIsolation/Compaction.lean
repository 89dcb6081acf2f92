import SnapshotIsolation.Cell.Store
import SnapshotIsolation.Visibility.Scope
import SnapshotIsolation.Cell.Marker

/-!
# Resolving commit markers

A compaction pass resolves each unresolved commit marker whose writer is settled, so that
later readers need not look the writer up. A marker whose writer is not settled, or cannot be
looked up, is left for a later pass; a pass never fails.
-/

namespace SnapshotIsolation

/-- What a pass did with the unresolved markers that it met. -/
structure CompactionStats where
  /-- Markers that now hold a commit time. -/
  resolvedCommitted : Nat
  /-- Markers that now say failed. -/
  resolvedFailed : Nat
  /-- Markers left as they were. -/
  leftUnresolved : Nat
  /-- Markers left because a look-up failed. -/
  lookupFailures : Nat
deriving DecidableEq, Repr, Inhabited

/-- A pass in progress. -/
structure CompactionPass where
  /-- What the pass has looked up. -/
  scope : Scope
  /-- The settled statuses that the pass has found. -/
  statuses : SortedMap Timestamp EffectiveStatus
  /-- What the pass has done. -/
  stats : CompactionStats
deriving Inhabited

namespace CompactionPass

/-- A pass at its start. -/
def start : CompactionPass := ⟨.empty, .empty, ⟨0, 0, 0, 0⟩⟩

/-- A computation of a pass over a registry; it does not fail. -/
abbrev Action (α : Type) := StateM (Registry × CompactionPass) α

/-- A reading within the pass, with its failure as a value. -/
def reading {α : Type} (act : Reading α) : Action (Except StorageError α) := fun (r, p) =>
  let (result, s) := (Step.attempt act).run ⟨r, p.scope⟩
  (result, s.registry, { p with scope := s.scope })

/-- The pass once the status of a writer was looked up. An active one may still change, so only
settled ones are kept. -/
def keepStatus (writer : Timestamp) (found : Except StorageError EffectiveStatus)
    (p : CompactionPass) : CompactionPass :=
  match found with
  | .ok status =>
    if status.isTerminal then { p with statuses := p.statuses.insert writer status } else p
  | .error _ => p

/-- The effective status of a writer: the one that was kept, or else what its chain tells. -/
def effectiveStatus (writer : Timestamp) : Action (Except StorageError EffectiveStatus) := do
  match (← get).2.statuses.get? writer with
  | some status => return .ok status
  | none =>
    let found ← reading (Reading.effectiveStatus writer)
    modify fun (r, p) => (r, p.keepStatus writer found)
    return found

/-- Counts something. -/
def count (change : CompactionStats → CompactionStats) : Action Unit :=
  modify fun (r, p) => (r, { p with stats := change p.stats })

/-- The count of one more marker resolved to a settled status. -/
def countResolved (status : EffectiveStatus) (s : CompactionStats) : CompactionStats :=
  match status with
  | .committed _ => { s with resolvedCommitted := s.resolvedCommitted + 1 }
  | _ => { s with resolvedFailed := s.resolvedFailed + 1 }

/-- The count of one more marker left as it was. -/
def countLeft (s : CompactionStats) : CompactionStats :=
  { s with leftUnresolved := s.leftUnresolved + 1 }

/-- The count of one more marker left because a look-up failed. -/
def countLookupFailure (s : CompactionStats) : CompactionStats :=
  { countLeft s with lookupFailures := s.lookupFailures + 1 }

/-- The value of the resolved marker of a writer with the given effective status. -/
def resolvedValue (writer : Timestamp) (status : EffectiveStatus) : Reading Bytes := do
  let record ← Reading.find writer
  let marker ← Step.ofExcept ((Marker.resolved record status).mapError .transaction)
  return marker.encode

/-- Resolves a commit marker if its writer is settled. -/
def resolveMarker (c : Cell) : Action Cell := do
  match ← effectiveStatus c.timestamp with
  | .error _ =>
    count countLookupFailure
    return c
  | .ok .active =>
    count countLeft
    return c
  | .ok status =>
    match ← reading (resolvedValue c.timestamp status) with
    | .ok value =>
      count (countResolved status)
      return c.withValue value
    | .error _ =>
      count countLeft
      return c

/-- What becomes of a cell in the pass. -/
def resolveCell (c : Cell) : Action Cell :=
  if c.kind = .commitMarker ∧ Marker.isUnresolvedValue c.value then resolveMarker c else return c

/-- What becomes of a batch of cells in the pass. -/
def resolveCells (cells : List Cell) : Action (List Cell) := cells.mapM resolveCell

/-- The pass as a compaction of rows. -/
def hook : CellStore.Hook (Registry × CompactionPass) := fun cells =>
  Step.ofState (resolveCells cells)

end CompactionPass

end SnapshotIsolation
