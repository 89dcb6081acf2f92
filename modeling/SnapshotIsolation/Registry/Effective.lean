import SnapshotIsolation.Registry.Basic

/-!
# Effective status

A transaction counts for others only together with its ancestors: a failed member fails the
chain, an active member keeps it open, and otherwise the chain is committed when its
outermost member was.
-/

namespace SnapshotIsolation

namespace EffectiveStatus

variable {m : Type → Type} [Monad m]

/-- Walks the remaining ancestors. `active` tells whether an active member was met, and
`outermost` when the last settled member was committed. -/
def walk (lookup : Timestamp → m Record) (active : Bool) (outermost : Option Timestamp) :
    List Timestamp → m EffectiveStatus
  | [] =>
    match outermost with
    | some ts => return if active then .active else .committed ts
    | none => return .active
  | ancestor :: rest => do
    let record ← lookup ancestor
    if record.status.isFailed then return .failed record.status
    else if record.status = .active then walk lookup true outermost rest
    else walk lookup active record.commitTs rest

/-- The status of a record together with its ancestors, which are looked up nearest first. -/
def resolve (record : Record) (lookup : Timestamp → m Record) : m EffectiveStatus :=
  if record.status.isFailed then return .failed record.status
  else walk lookup (record.status = .active) record.commitTs record.ancestors

end EffectiveStatus

/-- The effective status of a transaction in the registry. -/
def Registry.effectiveStatus (id : Timestamp) : Registry.Action EffectiveStatus := do
  EffectiveStatus.resolve (← Registry.find id) Registry.find

end SnapshotIsolation
