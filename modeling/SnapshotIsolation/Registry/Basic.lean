import SnapshotIsolation.Error
import SnapshotIsolation.Journal.Basic
import SnapshotIsolation.Registry.Cache

/-!
# The transaction registry

The registry holds the record of every transaction. A change of a record is checked on a
copy, then journalled, then made; a change that would change nothing is not journalled.
Opening a registry over a journal replays it, and whatever was active when the last process
ended is settled as an error.
-/

namespace SnapshotIsolation

/-- The records of all transactions. -/
structure Registry where
  /-- The record of each id. -/
  table : SortedMap Timestamp Record
  /-- The ids of active transactions. -/
  active : SortedMap Timestamp Unit
  /-- Settled records looked up lately. -/
  cache : TerminalCache
  /-- Where changes are recorded, if they are to survive. -/
  journal : Option Journal
  /-- How many look-ups were made. -/
  lookups : Nat

namespace Registry

/-- How many settled records are cached unless told otherwise. -/
def standardCapacity : Nat := 1024

/-- An empty registry without a journal. -/
def inMemory (capacity : Nat) : Registry :=
  ⟨.empty, .empty, .ofCapacity capacity, none, 0⟩

instance : Inhabited Registry := ⟨inMemory standardCapacity⟩

/-- An operation on a registry. -/
abbrev Action (α : Type) := Step StorageError Registry α

/-- Refuses with a transaction's cause. -/
def refuse {α : Type} (cause : TransactionError) : Action α := throw (.transaction cause)

/-- The outcome of a check on records, as an operation. -/
def check {α : Type} (result : Except TransactionError α) : Action α :=
  Step.ofExcept (result.mapError .transaction)

/-! ## Looking up -/

/-- The record of an id. The look-up is counted, and a settled record is cached. -/
def find (id : Timestamp) : Action Record := do
  modify fun r => { r with lookups := r.lookups + 1 }
  let registry ← get
  match registry.cache.find? id with
  | some record =>
    set { registry with cache := registry.cache.touch id record }
    return record
  | none =>
    match registry.table.get? id with
    | none => refuse (.notFound id)
    | some record =>
      if record.status.isTerminal then
        set { registry with cache := registry.cache.touch id record }
      return record

/-- The least id of an active transaction. -/
def lowWatermark (r : Registry) : Option Timestamp := r.active.minKey?

/-- The greatest timestamp in any record. -/
def maxTimestamp (r : Registry) : Option Timestamp :=
  r.table.values.foldl (fun top record => some (top.elim record.latest (max record.latest))) none

/-- Number of records. -/
def size (r : Registry) : Nat := r.table.size

/-! ## Changing -/

/-- Records an event in the journal, if there is one. -/
def record (id : Timestamp) (event : Journal.Event) : Action Unit :=
  modify fun r => { r with journal := r.journal.map fun j => (j.log id event).2 }

/-- The ancestors of a child of the given parent: the parent, which must be active, and the
parent's ancestors as its handle tells them. -/
def ancestorsUnder : Option Handle → Action (List Timestamp)
  | none => return []
  | some parent => do
    let found ← find parent.id
    if found.status ≠ .active then refuse (.parentNotActive parent.id found.status)
    return parent.id :: parent.ancestors

/-- Begins a transaction. -/
def start (id : Timestamp) (parent : Option Handle) (isolation : Isolation) : Action Handle := do
  let ancestors ← ancestorsUnder parent
  let fresh ← check (Record.start id ancestors isolation)
  if (← get).table.contains id then refuse (.alreadyExists id)
  record id (.began ancestors isolation)
  modify fun r => { r with
    table := r.table.insert id fresh
    active := r.active.insert id () }
  return fresh.toHandle

/-- Settles a transaction. -/
def settle (id : Timestamp) (outcome : Outcome) : Action Unit := do
  match (← get).table.get? id with
  | none => refuse (.notFound id)
  | some old =>
    let new ← check (old.settle outcome)
    if new ≠ old then
      record id (.settled outcome)
      modify fun r => { r with
        table := r.table.insert id new
        active := r.active.erase id }

/-! ## Opening -/

/-- What one journal entry does to the table. -/
def replayEntry (table : SortedMap Timestamp Record) (e : Journal.Entry) :
    Except TransactionError (SortedMap Timestamp Record) := do
  match e.event with
  | .began ancestors isolation =>
    return table.insert e.txn (← Record.start e.txn ancestors isolation)
  | .settled outcome =>
    match table.get? e.txn with
    | none => throw (.notFound e.txn)
    | some old => return table.insert e.txn (← old.settle outcome)

/-- The table that journal entries lead to. -/
def replay (entries : List Journal.Entry) :
    Except TransactionError (SortedMap Timestamp Record) :=
  entries.foldlM replayEntry .empty

/-- The ids of records that are active. -/
def inFlight (r : Registry) : List Timestamp :=
  (r.table.entries.filter fun e => e.2.status = .active).map (·.1)

/-- Settles as an error whatever is active, the oldest first. -/
def abandonInFlight : Action Unit := do
  (← get).inFlight.forM fun id => settle id .error

/-- What stands at the journal's path, if there is a journal. -/
def journalNode (r : Registry) : Option Node := r.journal.map Journal.node

/-- Opens the registry over the journal at a path. -/
def openAt (capacity : Nat) : Step StorageError FileSlot Registry := do
  let journal ← Step.mapError .journal Journal.openAt
  let (found, journal) := journal.readAll
  let entries ← Step.ofExcept (found.mapError .journal)
  let table ← Step.ofExcept ((replay entries).mapError .transaction)
  let registry := { inMemory capacity with table := table, journal := some journal }
  match abandonInFlight.run registry with
  | .ok () registry =>
    modify fun slot => { slot with node := registry.journalNode.getD slot.node }
    return registry
  | .error e registry =>
    modify fun slot => { slot with node := registry.journalNode.getD slot.node }
    throw e

/-- A change by another program to the journal's file. -/
def editJournal (change : Node → Node) (r : Registry) : Registry :=
  { r with journal := r.journal.map (Journal.edit change) }

end Registry

/-- A registry while it is open, and the path of its journal, if it has one. -/
structure RegistrySite where
  /-- Whether the registry keeps a journal. -/
  journalled : Bool
  /-- How many settled records are cached. -/
  capacity : Nat
  /-- The journal's path, as it was when the registry was last opened. -/
  slot : FileSlot
  /-- The registry, if it is open. -/
  registry : Option Registry

namespace RegistrySite

/-- What stands at the journal's path. -/
def node (s : RegistrySite) : Node := (s.registry.bind Registry.journalNode).getD s.slot.node

/-- A change by another program to what stands at the journal's path. -/
def edit (change : Node → Node) (s : RegistrySite) : RegistrySite :=
  match s.registry.bind Registry.journalNode with
  | some _ => { s with registry := s.registry.map (Registry.editJournal change) }
  | none => { s with slot := s.slot.edit change }

/-- Closes the registry, if it is open, and opens it again. -/
def reopen : Step StorageError RegistrySite Unit := fun s =>
  let slot : FileSlot := { s.slot with node := s.node }
  if s.journalled then
    match (Registry.openAt s.capacity).run slot with
    | .ok r slot => .ok () { s with slot := slot, registry := some r }
    | .error e slot => .error e { s with slot := slot, registry := none }
  else .ok () { s with slot := slot, registry := some (.inMemory s.capacity) }

end RegistrySite

end SnapshotIsolation
