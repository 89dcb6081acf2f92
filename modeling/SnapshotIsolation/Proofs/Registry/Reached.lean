import SnapshotIsolation.Proofs.Preservation
import SnapshotIsolation.Proofs.Registry.Operations

/-!
# Registries that can be reached

A registry is opened, empty or over whatever file, and then only ever looked up in and operated
on. Handles are data that anyone may make up, so all that holds of such a registry holds whatever
handles it was given.

Main results:

- Theorem {lit}`Registry.Enduring.reached`: what holds of records when their transactions begin, and
  goes on holding when they are settled, holds of all of them.
- Theorem {lit}`Registry.Reached.coherent`: the cache of a registry agrees with its table.
- Theorem {lit}`Registry.Reached.proper`: its records are what begins and settlements make.
-/

namespace SnapshotIsolation

namespace Registry

open Step (Preserves)

/-! ## Invariants -/

/-- Look-ups and operations preserve the invariant, whether they answer or fail. -/
structure Invariant (I : Registry → Prop) : Prop where
  find (id : Timestamp) : Preserves I (find id)
  perform (op : Operation) : Preserves I op.perform

variable {I : Registry → Prop}

theorem Invariant.settle (h : Invariant I) (id : Timestamp) (outcome : Outcome) :
    Preserves I (settle id outcome) :=
  h.perform (.settle id outcome)

theorem Invariant.start (h : Invariant I) (id : Timestamp) (parent : Option Handle)
    (isolation : Isolation) : Preserves I (start id parent isolation) := by
  apply Step.preserves_of_after
  intro r hr
  have hafter := (h.perform (.start id parent isolation)).after hr
  rwa [Operation.perform, Step.after_map] at hafter

theorem Invariant.abandonInFlight (h : Invariant I) : Preserves I abandonInFlight := by
  unfold Registry.abandonInFlight
  apply Step.preserves_get.bind
  intro r
  exact Step.preserves_forM (fun id => h.settle id .error) r.inFlight

theorem Invariant.walk (h : Invariant I) (active : Bool) (outermost : Option Timestamp)
    (ancestors : List Timestamp) :
    Preserves I (EffectiveStatus.walk Registry.find active outermost ancestors) := by
  induction ancestors generalizing active outermost with
  | nil =>
    unfold EffectiveStatus.walk
    split <;> exact Step.preserves_pure _
  | cons ancestor ancestors ih =>
    unfold EffectiveStatus.walk
    apply (h.find ancestor).bind
    intro record
    split
    · exact Step.preserves_pure _
    · split
      · exact ih _ _
      · exact ih _ _

theorem Invariant.effectiveStatus (h : Invariant I) (id : Timestamp) :
    Preserves I (effectiveStatus id) := by
  apply (h.find id).bind
  intro record
  unfold EffectiveStatus.resolve
  split
  · exact Step.preserves_pure _
  · exact h.walk _ _ _

/-- What look-ups leave alone and every change of the table keeps is an invariant. -/
theorem invariant_of_changes (hcoherent : ∀ {r}, I r → Coherent r)
    (hconsulted : ∀ {r r'}, I r → Consulted r r' → I r')
    (hchanged : ∀ {r op new}, I r → Operation.put? r.table op = some new →
      I (Step.after op.perform r)) : Invariant I := by
  constructor
  · intro id
    apply Step.preserves_of_after
    intro r hr
    rcases run_find (hcoherent hr) id with ⟨r', hlooked, hrun⟩
    rw [Step.after_of_run hrun]
    exact hconsulted hr hlooked
  · intro op
    apply Step.preserves_of_after
    intro r hr
    cases hput : op.put? r.table with
    | none => exact hconsulted hr (Operation.consulted_after_perform (hcoherent hr) hput)
    | some new => exact hchanged hr hput

/-- What every record that is put keeps of the table holds throughout, if the cache agrees with
the table. -/
theorem invariant_table {J : Table → Prop}
    (h : ∀ {t op new}, J t → Operation.put? t op = some new → J (t.insert op.txn new)) :
    Invariant fun r => Coherent r ∧ J r.table := by
  apply invariant_of_changes And.left
  · rintro r r' ⟨_, htable⟩ hconsulted
    exact ⟨hconsulted.coherent, hconsulted.table.symm ▸ htable⟩
  · rintro r op new ⟨hcoherent, htable⟩ hput
    rcases Operation.after_perform_of_some hcoherent hput with ⟨hcoherent', hnew, _⟩
    exact ⟨hcoherent', hnew ▸ h htable hput⟩

theorem invariant_extends (t : Table) : Invariant fun r => Coherent r ∧ Extends t r.table :=
  invariant_table fun hextends hput => hextends.trans (Operation.extends_insert_of_put? hput)

/-! ## Records -/

variable {P : Timestamp → Record → Prop} {t t' : Table}

/-- Records satisfy the condition when their transactions begin, and go on doing so when they are
settled. -/
structure Enduring (P : Timestamp → Record → Prop) : Prop where
  start {id : Timestamp} {ancestors : List Timestamp} {isolation : Isolation} {fresh : Record} :
    Record.start id ancestors isolation = .ok fresh → P id fresh
  settle {id : Timestamp} {outcome : Outcome} {old new : Record} :
    P id old → old.settle outcome = .ok new → P id new

/-- Every record of the table satisfies the condition. -/
def Each (P : Timestamp → Record → Prop) (t : Table) : Prop :=
  ∀ id record, t.get? id = some record → P id record

theorem each_empty : Each P .empty :=
  nofun

theorem Each.insert {id : Timestamp} {new : Record} (h : Each P t) (hnew : P id new) :
    Each P (t.insert id new) := by
  intro k record hfound
  rcases SortedMap.eq_or_get?_of_insert hfound with ⟨rfl, rfl⟩ | hfound
  · exact hnew
  · exact h k record hfound

theorem Enduring.insert_of_put? {op : Operation} {new : Record} (hP : Enduring P) (h : Each P t)
    (hput : op.put? t = some new) : Each P (t.insert op.txn new) := by
  cases op with
  | start id parent isolation =>
    have hstart := Operation.start_of_freshRecord (Operation.freshRecord_of_put? hput)
    exact h.insert (hP.start hstart)
  | settle id outcome =>
    rcases settle_of_settledRecord (Operation.settledRecord_of_put? hput).1 with
      ⟨old, hfound, hsettle⟩
    exact h.insert (hP.settle (h id old hfound) hsettle)

theorem Enduring.replayEntry {e : Journal.Entry} (hP : Enduring P) (h : Each P t)
    (hentry : replayEntry t e = .ok t') : Each P t' := by
  unfold Registry.replayEntry at hentry
  split at hentry
  · rename_i ancestors isolation _
    cases hstart : Record.start e.txn ancestors isolation with
    | error cause =>
      rw [hstart] at hentry
      cases hentry
    | ok fresh =>
      rw [hstart] at hentry
      cases hentry
      exact h.insert (hP.start hstart)
  · rename_i outcome _
    split at hentry
    · cases hentry
    · rename_i old hfound
      cases hsettle : old.settle outcome with
      | error cause =>
        rw [hsettle] at hentry
        cases hentry
      | ok new =>
        rw [hsettle] at hentry
        cases hentry
        exact h.insert (hP.settle (h e.txn old hfound) hsettle)

theorem Enduring.replayFrom {entries : List Journal.Entry} (hP : Enduring P) (h : Each P t)
    (hreplay : entries.foldlM Registry.replayEntry t = .ok t') : Each P t' := by
  induction entries generalizing t with
  | nil =>
    cases hreplay
    exact h
  | cons e entries ih =>
    rw [List.foldlM_cons] at hreplay
    cases hentry : Registry.replayEntry t e with
    | error cause =>
      rw [hentry] at hreplay
      cases hreplay
    | ok next =>
      rw [hentry] at hreplay
      exact ih (hP.replayEntry h hentry) hreplay

theorem Enduring.invariant (hP : Enduring P) : Invariant fun r => Coherent r ∧ Each P r.table :=
  invariant_table fun h hput => hP.insert_of_put? h hput

/-- Every record lies under its own id. An active one has no closing time, and a committed one was
committed after it began. -/
structure Proper (t : Table) : Prop where
  named {id : Timestamp} {record : Record} : t.get? id = some record → record.id = id
  unclosed {id : Timestamp} {record : Record} : t.get? id = some record →
    record.status = .active → record.commitTs = none
  committed {id : Timestamp} {record : Record} : t.get? id = some record →
    record.status = .committed → ∃ ts, record.commitTs = some ts ∧ id < ts

/-- What is proper of a single record. -/
structure ProperAt (id : Timestamp) (record : Record) : Prop where
  named : record.id = id
  unclosed : record.status = .active → record.commitTs = none
  committed : record.status = .committed → ∃ ts, record.commitTs = some ts ∧ id < ts

theorem proper_iff : Proper t ↔ Each ProperAt t := by
  constructor
  · intro h id record hfound
    exact ⟨h.named hfound, h.unclosed hfound, h.committed hfound⟩
  · intro h
    exact ⟨fun hfound => (h _ _ hfound).named, fun hfound => (h _ _ hfound).unclosed,
      fun hfound => (h _ _ hfound).committed⟩

theorem enduring_properAt : Enduring ProperAt := by
  constructor
  · intro id ancestors isolation fresh hstart
    rcases Record.eq_of_start hstart with ⟨_, rfl⟩
    exact ⟨rfl, fun _ => rfl, nofun⟩
  · intro id outcome old new h hsettle
    rcases Record.settle_cases hsettle with ⟨_, rfl⟩ | hcloses
    · exact h
    · refine ⟨?_, ?_, ?_⟩
      · rw [hcloses.handle, h.named]
      · intro hactive
        exact absurd (hcloses.status.symm.trans hactive) outcome.status_ne_active
      · intro hcommitted
        rcases Outcome.eq_commit_of_status (hcloses.status.symm.trans hcommitted) with ⟨ts, rfl⟩
        exact ⟨ts, hcloses.commitTs, h.named ▸ hcloses.follows ts rfl⟩

theorem invariant_proper : Invariant fun r => Coherent r ∧ Proper r.table := by
  simp only [proper_iff]
  exact enduring_properAt.invariant

/-! ## Reaching -/

/-- What opening over a file gives: the records replayed from its journal, with those in flight
abandoned. -/
theorem replayed_of_openAt {capacity : Nat} {slot slot' : FileSlot} {r : Registry}
    (h : (openAt capacity).run slot = .ok r slot') :
    ∃ journal slot₁ entries t, Journal.openAt.run slot = .ok journal slot₁ ∧
      replay entries = .ok t ∧
      abandonInFlight.run { inMemory capacity with table := t, journal := some journal.readAll.2 } =
        .ok () r := by
  unfold openAt at h
  cases hjournal : Journal.openAt.run slot with
  | error e slot₁ =>
    rw [Step.run_bind_of_error (Step.run_mapError_of_error hjournal)] at h
    cases h
  | ok journal slot₁ =>
    rw [Step.run_bind_of_ok (Step.run_mapError_of_ok hjournal)] at h
    simp only at h
    cases hfound : journal.readAll.1 with
    | error e =>
      rw [hfound, Step.run_bind_of_error (Step.run_ofExcept ..)] at h
      cases h
    | ok entries =>
      rw [hfound, Step.run_bind_of_ok (Step.run_ofExcept ..)] at h
      cases hreplay : replay entries with
      | error e =>
        rw [hreplay, Step.run_bind_of_error (Step.run_ofExcept ..)] at h
        cases h
      | ok t =>
        rw [hreplay, Step.run_bind_of_ok (Step.run_ofExcept ..)] at h
        refine ⟨journal, slot₁, entries, t, rfl, hreplay, ?_⟩
        split at h
        · rename_i r₁ hrun
          cases h
          exact hrun
        · cases h

/-- From one state of a registry to a later one, by look-ups and operations. -/
inductive Onward (r₀ : Registry) : Registry → Prop
  | here : Onward r₀ r₀
  | found {r : Registry} (id : Timestamp) : Onward r₀ r → Onward r₀ (Step.after (find id) r)
  | performed {r : Registry} (op : Operation) : Onward r₀ r →
      Onward r₀ (Step.after op.perform r)

theorem Invariant.onward (h : Invariant I) {r₀ r : Registry} (honward : Onward r₀ r) (hr₀ : I r₀) :
    I r := by
  induction honward with
  | here => exact hr₀
  | found id _ ih => exact (h.find id).after ih
  | performed op _ ih => exact (h.perform op).after ih

/-- The registries that there can be: one is opened, empty or over a file, and then used. -/
inductive Reached : Registry → Prop
  | inMemory {capacity : Nat} {r : Registry} : Onward (inMemory capacity) r → Reached r
  | opened {capacity : Nat} {slot slot' : FileSlot} {r₀ r : Registry} :
      (openAt capacity).run slot = .ok r₀ slot' → Onward r₀ r → Reached r

theorem invariant_reached : Invariant Reached := by
  constructor
  · intro id
    apply Step.preserves_of_after
    intro r hr
    cases hr with
    | inMemory honward => exact .inMemory (.found id honward)
    | opened hopen honward => exact .opened hopen (.found id honward)
  · intro op
    apply Step.preserves_of_after
    intro r hr
    cases hr with
    | inMemory honward => exact .inMemory (.performed op honward)
    | opened hopen honward => exact .opened hopen (.performed op honward)

/-- Whatever operations lead to can be reached. -/
theorem reached_enact (ops : List Operation) : Reached (enact ops) := by
  induction ops using List.reverseRecOn with
  | nil => exact .inMemory .here
  | append_singleton ops op ih =>
    rw [enact_concat]
    exact (invariant_reached.perform op).after ih

theorem Enduring.reached {r : Registry} (hP : Enduring P) (h : Reached r) :
    Coherent r ∧ Each P r.table := by
  cases h with
  | @inMemory capacity _ honward =>
    exact hP.invariant.onward honward ⟨coherent_inMemory capacity none, each_empty⟩
  | @opened capacity _ _ _ _ hopen honward =>
    rcases replayed_of_openAt hopen with ⟨journal, _, entries, t, _, hreplay, hrun⟩
    have hreplayed : Coherent { Registry.inMemory capacity with
        table := t, journal := some journal.readAll.2 } ∧ Each P t :=
      ⟨nofun, hP.replayFrom each_empty hreplay⟩
    have hend := hP.invariant.abandonInFlight _ hreplayed
    rw [hrun] at hend
    exact hP.invariant.onward honward hend

theorem Reached.coherent_proper {r : Registry} (h : Reached r) : Coherent r ∧ Proper r.table := by
  rw [proper_iff]
  exact enduring_properAt.reached h

/-- The cache of a registry agrees with its table. -/
theorem Reached.coherent {r : Registry} (h : Reached r) : Coherent r :=
  h.coherent_proper.1

/-- The records of a registry are what begins and settlements make. -/
theorem Reached.proper {r : Registry} (h : Reached r) : Proper r.table :=
  h.coherent_proper.2

end Registry

end SnapshotIsolation
