import SnapshotIsolation.Cell.Marker
import SnapshotIsolation.Visibility.Scope

/-!
# Visibility of writers

Whether a reader sees what a transaction wrote. A reader sees itself and its ancestors. A
resolved commit marker settles the question for other writers. Without one, the writer's chain
is walked upward until a member decides: one that failed, one that is still active, the
outermost one, or one that committed into the reader or into an ancestor of it.
-/

namespace SnapshotIsolation

/-- Whether a reader sees what was committed at a time. -/
def Handle.seesCommit (reader : Handle) (snapshot commitTs : Timestamp) : Bool :=
  match reader.isolation with
  | .snapshot => commitTs ≤ snapshot
  | .readCommitted | .readUncommitted => true

namespace Reading

/-- Walks a writer's chain upward. In every registry that can be reached, a member's parent lies
below it. The last branch is there for other tables only, over which the walk has to end as well: it
gives up at a parent that does not lie below its child. The walk without that branch is
{lit}`Reading.walkWithin`, and {lit}`Reading.run_walkWithin` says that over registries that can be
reached both end alike. -/
def walkChain (reader : Handle) (snapshot member : Timestamp) : Reading Bool := do
  let record ← find member
  match record.status, record.commitTs with
  | .rolledBack, _ | .error, _ => return false
  | .active, _ | .committed, none => return reader.isolation == .readUncommitted
  | .committed, some commitTs =>
    match record.parent? with
    | none => return reader.seesCommit snapshot commitTs
    | some parent =>
      if parent = reader.id then return true
      else if reader.isAncestor parent then return reader.seesCommit snapshot commitTs
      else if _h : parent < member then walkChain reader snapshot parent
      else return false
termination_by member.toNat
decreasing_by exact Timestamp.lt_iff_toNat_lt.1 _h

/-- Whether a reader sees what a transaction wrote, given its commit marker if there is one. -/
def isWriterVisible (writer : Timestamp) (marker : Option Marker) (snapshot : Timestamp)
    (reader : Handle) : Reading Bool := do
  if writer = reader.id then return true
  if reader.isAncestor writer then
    return !(← find writer).status.isFailed
  match marker with
  | some (.committed commitTs) => return reader.seesCommit snapshot commitTs
  | some .failed => return false
  | some .unresolved | none => walkChain reader snapshot writer

/-- Whether a reader sees a cell, judged by its writer's record. -/
def isVisible (c : Cell) (snapshot : Timestamp) (reader : Handle) : Reading Bool :=
  isWriterVisible c.timestamp none snapshot reader

end Reading

end SnapshotIsolation
