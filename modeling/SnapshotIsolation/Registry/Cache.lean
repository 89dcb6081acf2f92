import SnapshotIsolation.SortedMap
import SnapshotIsolation.Transaction.Record

/-!
# The cache of settled transactions

A bounded list of settled records, the most recently used first.
-/

namespace SnapshotIsolation

/-- The records used last, at most `capacity` of them. -/
structure TerminalCache where
  /-- How many records are kept. -/
  capacity : Nat
  /-- The records by id, the most recently used first. -/
  recent : List (Timestamp × Record)
deriving DecidableEq, Repr

namespace TerminalCache

/-- An empty cache; it keeps at least one record. -/
def ofCapacity (capacity : Nat) : TerminalCache := ⟨max capacity 1, []⟩

/-- The record of an id, if it is kept. -/
def find? (c : TerminalCache) (id : Timestamp) : Option Record :=
  (c.recent.find? fun e => e.1 = id).map (·.2)

/-- Makes a record the most recently used one; the least recently used goes if it must. -/
def touch (c : TerminalCache) (id : Timestamp) (r : Record) : TerminalCache :=
  { c with recent := ((id, r) :: c.recent.filter fun e => e.1 ≠ id).take c.capacity }

end TerminalCache

end SnapshotIsolation
