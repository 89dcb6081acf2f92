import SnapshotIsolation.Proofs.Outcome
import SnapshotIsolation.Proofs.SortedMap
import SnapshotIsolation.Proofs.Timestamp.Order
import SnapshotIsolation.Registry.Effective

/-!
# Looking up through the cache

The cache holds settled records only, and those never change, so a look-up always tells what
the table holds.

Main results:

- Theorem {lit}`Registry.run_find`: over a coherent cache a look-up answers from the table, keeps
  the cache coherent and moves nothing else.
-/

namespace SnapshotIsolation

/-- What the cache keeps after one more record was used: that record and earlier ones. -/
theorem TerminalCache.mem_recent_touch {c : TerminalCache} {id : Timestamp} {r : Record}
    {e : Timestamp × Record} (h : e ∈ (c.touch id r).recent) : e = (id, r) ∨ e ∈ c.recent := by
  rcases List.mem_cons.1 (List.mem_of_mem_take h) with h | h
  · exact .inl h
  · exact .inr (List.mem_filter.1 h).1

theorem TerminalCache.mem_recent_of_find? {c : TerminalCache} {id : Timestamp} {r : Record}
    (h : c.find? id = some r) : (id, r) ∈ c.recent := by
  rcases Option.map_eq_some_iff.1 h with ⟨e, he, rfl⟩
  have hid : e.1 = id := by simpa using List.find?_some he
  subst hid
  exact List.mem_of_find?_eq_some he

namespace Registry

/-- The records of all transactions by id. -/
abbrev Table := SortedMap Timestamp Record

/-- What a look-up in the table answers. -/
def lookUp (t : Table) (id : Timestamp) : Except StorageError Record :=
  match t.get? id with
  | some record => .ok record
  | none => .error (.transaction (.notFound id))

theorem lookUp_of_get? {t : Table} {id : Timestamp} {record : Record}
    (h : t.get? id = some record) : lookUp t id = .ok record := by
  rw [lookUp, h]

theorem lookUp_of_get?_eq_none {t : Table} {id : Timestamp} (h : t.get? id = none) :
    lookUp t id = .error (.transaction (.notFound id)) := by
  rw [lookUp, h]

/-- Cached records are settled and as the table has them. -/
def Coherent (r : Registry) : Prop :=
  ∀ e ∈ r.cache.recent, r.table.get? e.1 = some e.2 ∧ e.2.status.isTerminal = true

/-- Between two states of a registry nothing but look-ups happened. -/
structure Consulted (r r' : Registry) : Prop where
  table : r'.table = r.table
  active : r'.active = r.active
  journal : r'.journal = r.journal
  coherent : Coherent r'

theorem Consulted.refl {r : Registry} (h : Coherent r) : Consulted r r :=
  ⟨rfl, rfl, rfl, h⟩

theorem Consulted.trans {r₁ r₂ r₃ : Registry} (h₁ : Consulted r₁ r₂) (h₂ : Consulted r₂ r₃) :
    Consulted r₁ r₃ :=
  ⟨h₂.table.trans h₁.table, h₂.active.trans h₁.active, h₂.journal.trans h₁.journal, h₂.coherent⟩

theorem coherent_inMemory (capacity : Nat) (journal : Option Journal) :
    Coherent { inMemory capacity with journal := journal } := by
  intro e he
  simp [inMemory, TerminalCache.ofCapacity] at he

/-- The registry after a look-up that found a settled record. -/
def touched (r : Registry) (id : Timestamp) (record : Record) : Registry :=
  { r with cache := r.cache.touch id record, lookups := r.lookups + 1 }

theorem consulted_touched {r : Registry} (h : Coherent r) {id : Timestamp} {record : Record}
    (hfound : r.table.get? id = some record) (hterminal : record.status.isTerminal = true) :
    Consulted r (r.touched id record) := by
  refine ⟨rfl, rfl, rfl, ?_⟩
  intro e he
  rcases TerminalCache.mem_recent_touch he with rfl | he
  · exact ⟨hfound, hterminal⟩
  · exact h e he

/-- Over a coherent cache a look-up answers from the table. -/
theorem run_find {r : Registry} (h : Coherent r) (id : Timestamp) :
    ∃ r', Consulted r r' ∧ (find id).run r = Step.ending (lookUp r.table id) r' := by
  have hcounted : Consulted r { r with lookups := r.lookups + 1 } := ⟨rfl, rfl, rfl, h⟩
  simp only [find, EStateM.run_bind, EStateM.run_modify, EStateM.run_get]
  cases hcache : r.cache.find? id with
  | some record =>
    have hcached : r.table.get? id = some record ∧ record.status.isTerminal = true :=
      h _ (TerminalCache.mem_recent_of_find? hcache)
    rw [lookUp_of_get? hcached.1]
    exact ⟨_, consulted_touched h hcached.1 hcached.2, rfl⟩
  | none =>
    cases hfound : r.table.get? id with
    | none =>
      rw [lookUp, hfound]
      exact ⟨_, hcounted, rfl⟩
    | some record =>
      rw [lookUp_of_get? hfound]
      by_cases hterminal : record.status.isTerminal = true
      · refine ⟨_, consulted_touched h hfound hterminal, ?_⟩
        simp [hterminal, touched]
      · refine ⟨_, hcounted, ?_⟩
        simp [hterminal]

end Registry

end SnapshotIsolation
