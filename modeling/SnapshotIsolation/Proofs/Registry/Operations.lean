import Mathlib.Data.List.Induction
import SnapshotIsolation.Proofs.Journal.Holding
import SnapshotIsolation.Proofs.Registry.Changes

/-!
# Operations and what the journal tells of them

An operation that changes the table is recorded by one journal entry, and replaying the entry
makes the same change. All other operations leave table and journal as they were.

Main results:

- Theorems {lit}`Registry.Operation.after_perform_of_some` and
  {lit}`Registry.Operation.after_perform_of_none`: what operations do to table and journal.
- Theorem {lit}`Registry.Told.replay`: replaying what the journal tells of operations leads to the
  table that the operations themselves lead to.
-/

namespace SnapshotIsolation

namespace Registry

/-- A call that begins or settles a transaction. -/
inductive Operation where
  | start (id : Timestamp) (parent : Option Handle) (isolation : Isolation)
  | settle (id : Timestamp) (outcome : Outcome)

namespace Operation

/-- Carries out the operation. -/
def perform : Operation → Action Unit
  | .start id parent isolation => (fun _ => ()) <$> Registry.start id parent isolation
  | .settle id outcome => Registry.settle id outcome

/-- The transaction that the operation is about. -/
def txn : Operation → Timestamp
  | .start id _ _ => id
  | .settle id _ => id

/-- What the journal tells of the operation. -/
def event : Operation → Journal.Event
  | .start _ none isolation => .began [] isolation
  | .start _ (some parent) isolation => .began (parent.id :: parent.ancestors) isolation
  | .settle _ outcome => .settled outcome

/-- The record that the operation puts into a table, if it changes the table. -/
def put? (t : Table) : Operation → Option Record
  | .start id parent isolation => (freshRecord t id parent isolation).toOption
  | .settle id outcome =>
    (settledRecord t id outcome).toOption.filter fun new => t.get? id ≠ some new

variable {r : Registry} {t : Table} {op : Operation} {new : Record}

theorem freshRecord_of_put? {id : Timestamp} {parent : Option Handle} {isolation : Isolation}
    (h : put? t (.start id parent isolation) = some new) :
    freshRecord t id parent isolation = .ok new := by
  cases hfresh : freshRecord t id parent isolation with
  | error e => simp [put?, hfresh, Except.toOption] at h
  | ok fresh =>
    simp only [put?, hfresh, Except.toOption, Option.some.injEq] at h
    rw [h]

theorem settledRecord_of_put? {id : Timestamp} {outcome : Outcome}
    (h : put? t (.settle id outcome) = some new) :
    settledRecord t id outcome = .ok new ∧ t.get? id ≠ some new := by
  cases hsettled : settledRecord t id outcome with
  | error e => simp [put?, hsettled, Except.toOption] at h
  | ok record =>
    simp only [put?, hsettled, Except.toOption, Option.filter_eq_some_iff, Option.some.injEq,
      decide_eq_true_eq] at h
    rcases h with ⟨rfl, hchanged⟩
    exact ⟨rfl, hchanged⟩

theorem event_start {id : Timestamp} {parent : Option Handle} {isolation : Isolation}
    (h : freshRecord t id parent isolation = .ok new) :
    event (.start id parent isolation) = .began new.ancestors new.isolation := by
  have hbegins := begins_of_freshRecord h
  cases parent with
  | none => rw [event, hbegins.topLevel rfl, hbegins.isolated]
  | some p => rw [event, (hbegins.nested p rfl).1, hbegins.isolated]

theorem extends_insert_of_put? (h : op.put? t = some new) : Extends t (t.insert op.txn new) := by
  cases op with
  | start id parent isolation =>
    exact extends_insert_of_unused (begins_of_freshRecord (freshRecord_of_put? h)).unused new
  | settle id outcome =>
    rcases settledRecord_of_put? h with ⟨hsettled, hchanged⟩
    rcases settledRecord_cases hsettled with ⟨old, hfound, ⟨_, rfl⟩ | hcloses⟩
    · exact absurd hfound hchanged
    · exact extends_insert_of_closes hfound hcloses

theorem after_perform_start {id : Timestamp} {parent : Option Handle} {isolation : Isolation}
    (h : Coherent r) (hput : put? r.table (.start id parent isolation) = some new) :
    ∃ r', Consulted r r' ∧
      Step.after (perform (.start id parent isolation)) r = r'.withBegun id new := by
  have hfresh := freshRecord_of_put? hput
  rcases run_start h id parent isolation with ⟨r', hconsulted, hrun⟩
  refine ⟨r', hconsulted, ?_⟩
  simp [Step.after, perform, hrun, hfresh]

theorem after_perform_settle {id : Timestamp} {outcome : Outcome}
    (hput : put? r.table (.settle id outcome) = some new) :
    Step.after (perform (.settle id outcome)) r = r.withSettled id outcome new := by
  rcases settledRecord_of_put? hput with ⟨hsettled, hchanged⟩
  simp [Step.after, perform, run_settle, hsettled, hchanged]

/-- An operation that changes the table puts one record and adds one entry. -/
theorem after_perform_of_some (h : Coherent r) (hput : op.put? r.table = some new) :
    Coherent (Step.after op.perform r) ∧
      (Step.after op.perform r).table = r.table.insert op.txn new ∧
      (Step.after op.perform r).journal = r.journal.map fun j => (j.log op.txn op.event).2 := by
  have hextends := extends_insert_of_put? hput
  cases op with
  | start id parent isolation =>
    rcases after_perform_start h hput with ⟨r', hconsulted, hafter⟩
    rw [hafter, event_start (freshRecord_of_put? hput)]
    refine ⟨hconsulted.coherent.of_extends rfl ?_, ?_, ?_⟩
    · rw [hconsulted.table]
      exact hconsulted.table ▸ hextends
    · rw [withBegun, hconsulted.table]
      rfl
    · rw [withBegun, hconsulted.journal]
      rfl
  | settle id outcome =>
    rw [after_perform_settle hput]
    exact ⟨h.of_extends rfl hextends, rfl, rfl⟩

/-- An operation that changes nothing leaves nothing behind but look-ups. -/
theorem consulted_after_perform (h : Coherent r) (hput : op.put? r.table = none) :
    Consulted r (Step.after op.perform r) := by
  cases op with
  | start id parent isolation =>
    rcases run_start h id parent isolation with ⟨r', hconsulted, hrun⟩
    have hafter : Step.after (perform (.start id parent isolation)) r = r' := by
      cases hfresh : freshRecord r.table id parent isolation with
      | ok fresh => simp [put?, hfresh, Except.toOption] at hput
      | error e =>
        simp [Step.after, perform, hrun, hfresh]
    exact hafter ▸ hconsulted
  | settle id outcome =>
    have hafter : Step.after (perform (.settle id outcome)) r = r := by
      cases hsettled : settledRecord r.table id outcome with
      | error e => simp [Step.after, perform, run_settle, hsettled]
      | ok new =>
        have hsame : r.table.get? id = some new := by
          simpa [put?, hsettled, Except.toOption] using hput
        simp [Step.after, perform, run_settle, hsettled, hsame]
    exact hafter.symm ▸ .refl h

/-- An operation that changes nothing leaves table and journal alone. -/
theorem after_perform_of_none (h : Coherent r) (hput : op.put? r.table = none) :
    Coherent (Step.after op.perform r) ∧ (Step.after op.perform r).table = r.table ∧
      (Step.after op.perform r).journal = r.journal :=
  have hconsulted := consulted_after_perform h hput
  ⟨hconsulted.coherent, hconsulted.table, hconsulted.journal⟩

theorem answer_perform_start (h : Coherent r) (id : Timestamp) (parent : Option Handle)
    (isolation : Isolation) :
    Step.answer (perform (.start id parent isolation)) r =
      (freshRecord r.table id parent isolation).map fun _ => () := by
  rcases run_start h id parent isolation with ⟨r', _, hrun⟩
  rw [perform, Step.answer_map, Step.answer, hrun]
  cases freshRecord r.table id parent isolation <;> rfl

/-- An operation that is to put a record is not refused. -/
theorem answer_perform_of_put? (h : Coherent r) (hput : op.put? r.table = some new) :
    Step.answer op.perform r = .ok () := by
  cases op with
  | start id parent isolation =>
    rw [answer_perform_start h, freshRecord_of_put? hput]
    rfl
  | settle id outcome =>
    rcases settledRecord_of_put? hput with ⟨hsettled, hchanged⟩
    simp [Step.answer, perform, run_settle, hsettled, hchanged]

theorem start_of_freshRecord {id : Timestamp} {parent : Option Handle} {isolation : Isolation}
    (h : freshRecord t id parent isolation = .ok new) :
    Record.start id new.ancestors new.isolation = .ok new := by
  unfold freshRecord at h
  split at h
  · cases h
  · split at h
    · cases h
    · rename_i fresh hstart
      rcases Record.eq_of_start hstart with ⟨_, rfl⟩
      split at h
      · cases h
      · cases h
        exact hstart

/-- Replaying the entry of an operation puts the same record. -/
theorem replayEntry_of_put? (h : op.put? t = some new) (lsn : UInt64) :
    replayEntry t ⟨lsn, op.txn, op.event⟩ = .ok (t.insert op.txn new) := by
  cases op with
  | start id parent isolation =>
    have hfresh := freshRecord_of_put? h
    rw [event_start hfresh]
    simp only [replayEntry, txn, start_of_freshRecord hfresh]
    rfl
  | settle id outcome =>
    rcases settledRecord_of_put? h with ⟨hsettled, _⟩
    unfold settledRecord at hsettled
    split at hsettled
    · cases hsettled
    · rename_i old hfound
      split at hsettled
      · cases hsettled
      · rename_i record hsettle
        cases hsettled
        simp only [replayEntry, txn, event, get?_of_lookUp hfound, hsettle]
        rfl

end Operation

/-! ## Operations one after another -/

/-- The registry that operations lead to when no journal is kept. -/
def enact (ops : List Operation) : Registry :=
  ops.foldl (fun r op => Step.after op.perform r) (inMemory standardCapacity)

/-- The entries that tell of operations, numbered in order. -/
def ledger (ops : List Operation) : List Journal.Entry :=
  ops.foldl (fun entries op =>
    entries ++ [⟨entries.foldl Journal.lsnAfter 0, op.txn, op.event⟩]) []

variable {ops : List Operation} {op : Operation} {new : Record}

theorem enact_concat (ops : List Operation) (op : Operation) :
    enact (ops ++ [op]) = Step.after op.perform (enact ops) := by
  rw [enact, List.foldl_append]
  rfl

theorem ledger_concat (ops : List Operation) (op : Operation) :
    ledger (ops ++ [op]) =
      ledger ops ++ [⟨(ledger ops).foldl Journal.lsnAfter 0, op.txn, op.event⟩] := by
  rw [ledger, List.foldl_append]
  rfl

theorem coherent_enact (ops : List Operation) : Coherent (enact ops) := by
  induction ops using List.reverseRecOn with
  | nil => exact coherent_inMemory standardCapacity none
  | append_singleton ops op ih =>
    rw [enact_concat]
    cases hput : op.put? (enact ops).table with
    | none => exact (Operation.after_perform_of_none ih hput).1
    | some new => exact (Operation.after_perform_of_some ih hput).1

theorem table_enact_concat (h : op.put? (enact ops).table = some new) :
    (enact (ops ++ [op])).table = (enact ops).table.insert op.txn new := by
  rw [enact_concat, (Operation.after_perform_of_some (coherent_enact ops) h).2.1]

/-- All of the operations changed the table, and frames can tell the lengths of their entries. -/
inductive Told : List Operation → Prop
  | nothing : Told []
  | more {ops : List Operation} {op : Operation} {new : Record} : Told ops →
    op.put? (enact ops).table = some new →
    Journal.Entry.Fits ⟨(ledger ops).foldl Journal.lsnAfter 0, op.txn, op.event⟩ →
    Told (ops ++ [op])

theorem length_ledger (ops : List Operation) : (ledger ops).length = ops.length := by
  induction ops using List.reverseRecOn with
  | nil => rfl
  | append_singleton ops op ih => simp [ledger_concat, ih]

theorem Told.legible (h : Told ops) : Journal.Legible (ledger ops) := by
  induction h with
  | nothing => exact Journal.legible_nil
  | more _ _ hfits ih =>
    rw [ledger_concat]
    exact ih.concat rfl hfits

/-- Replaying what the journal tells of operations leads to the table that they lead to. -/
theorem Told.replay (h : Told ops) : replay (ledger ops) = .ok (enact ops).table := by
  induction h with
  | nothing => rfl
  | more _ hput _ ih =>
    rw [ledger_concat, Registry.replay, List.foldlM_append, ← Registry.replay, ih,
      table_enact_concat hput]
    simp only [List.foldlM_cons, List.foldlM_nil, bind, Except.bind,
      Operation.replayEntry_of_put? hput]
    rfl

theorem ledger_take (ops : List Operation) (k : Nat) :
    (ledger ops).take k = ledger (ops.take k) := by
  induction ops using List.reverseRecOn with
  | nil => simp [ledger]
  | append_singleton ops op ih =>
    by_cases hk : k ≤ ops.length
    · rw [ledger_concat, List.take_append_of_le_length (by rw [length_ledger]; exact hk),
        List.take_append_of_le_length hk, ih]
    · have hall : (ops ++ [op]).length ≤ k := by
        simp only [List.length_append, List.length_singleton]
        omega
      rw [List.take_of_length_le hall, List.take_of_length_le (by rwa [length_ledger])]

/-- What is told of operations is told of the first of them. -/
theorem Told.take (h : Told ops) (k : Nat) : Told (ops.take k) := by
  induction h with
  | nothing =>
    rw [List.take_nil]
    exact .nothing
  | @more ops op _ htold hput hfits ih =>
    by_cases hk : k ≤ ops.length
    · rw [List.take_append_of_le_length hk]
      exact ih
    · have hall : (ops ++ [op]).length ≤ k := by
        simp only [List.length_append, List.length_singleton]
        omega
      rw [List.take_of_length_le hall]
      exact htold.more hput hfits

end Registry

end SnapshotIsolation
