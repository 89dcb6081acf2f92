import SnapshotIsolation.Registry.Effective

/-!
# Read scopes

A scope remembers the records that were looked up during one operation, so that each
transaction is looked up once and counts with the status it had then.
-/

namespace SnapshotIsolation

/-- The records looked up so far, by id. -/
structure Scope where
  /-- The records. -/
  records : SortedMap Timestamp Record
deriving Inhabited

namespace Scope

/-- The scope of an operation that has looked nothing up. -/
def empty : Scope := ⟨.empty⟩

/-- Number of transactions looked up. -/
def size (s : Scope) : Nat := s.records.size

/-- Whether nothing was looked up. -/
def isEmpty (s : Scope) : Bool := s.records.entries.isEmpty

end Scope

/-- A registry under reading. -/
structure ReadState where
  /-- The registry. -/
  registry : Registry
  /-- What was looked up in it. -/
  scope : Scope

/-- An operation that reads a registry through a scope. -/
abbrev Reading (α : Type) := Step StorageError ReadState α

namespace Reading

/-- An operation of the registry. -/
def onRegistry {α : Type} (act : Registry.Action α) : Reading α :=
  Step.focus ReadState.registry (fun r s => { s with registry := r }) act

/-- The record of an id: the one in the scope, or else the registry's, which joins the scope. -/
def find (id : Timestamp) : Reading Record := do
  match (← get).scope.records.get? id with
  | some record => return record
  | none =>
    let record ← onRegistry (Registry.find id)
    modify fun s => { s with scope := ⟨s.scope.records.insert id record⟩ }
    return record

/-- The effective status of a transaction, looked up through the scope. -/
def effectiveStatus (id : Timestamp) : Reading EffectiveStatus := do
  EffectiveStatus.resolve (← find id) find

end Reading

end SnapshotIsolation
