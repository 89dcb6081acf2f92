import SnapshotIsolation.Proofs.Registry.Coherence
import SnapshotIsolation.Proofs.Transaction.Settling

/-!
# What begins and settlements do to the registry

Whether an operation goes ahead depends on the table alone, and one that does writes one
journal entry and one record. All else is refused and leaves no trace but the look-ups.

Main results:

- Theorems {lit}`Registry.run_start` and {lit}`Registry.run_settle`: how the operations end.
- Theorems {lit}`Registry.extends_insert_of_unused` and {lit}`Registry.extends_insert_of_closes`:
  neither loses a record, changes a handle or touches what was settled.
-/

namespace SnapshotIsolation

namespace Registry

variable {r r' : Registry} {t t' : Table} {id : Timestamp}

/-! ## Beginning -/

/-- The ancestors of a child of the given parent, which must be active in the table. -/
def ancestryUnder (t : Table) : Option Handle → Except StorageError (List Timestamp)
  | none => .ok []
  | some parent =>
    match lookUp t parent.id with
    | .error e => .error e
    | .ok found =>
      if found.status = .active then .ok (parent.id :: parent.ancestors)
      else .error (.transaction (.parentNotActive parent.id found.status))

/-- The record of a transaction that begins over a table, or why it may not. -/
def freshRecord (t : Table) (id : Timestamp) (parent : Option Handle) (isolation : Isolation) :
    Except StorageError Record :=
  match ancestryUnder t parent with
  | .error e => .error e
  | .ok ancestors =>
    match Record.start id ancestors isolation with
    | .error e => .error (.transaction e)
    | .ok fresh => if t.contains id then .error (.transaction (.alreadyExists id)) else .ok fresh

/-- The registry once a transaction has begun. -/
def withBegun (r : Registry) (id : Timestamp) (fresh : Record) : Registry :=
  { r with
    journal := r.journal.map fun j => (j.log id (.began fresh.ancestors fresh.isolation)).2
    table := r.table.insert id fresh
    active := r.active.insert id () }

@[simp]
theorem run_refuse {α : Type} (cause : TransactionError) (r : Registry) :
    (refuse cause : Action α).run r = .error (.transaction cause) r :=
  rfl

@[simp]
theorem run_check_ok {α : Type} (a : α) (r : Registry) : (check (.ok a)).run r = .ok a r :=
  rfl

@[simp]
theorem run_check_error {α : Type} (e : TransactionError) (r : Registry) :
    (check (.error e) : Action α).run r = .error (.transaction e) r :=
  rfl

@[simp]
theorem run_record (id : Timestamp) (event : Journal.Event) (r : Registry) :
    (record id event).run r =
      .ok () { r with journal := r.journal.map fun j => (j.log id event).2 } :=
  rfl

theorem run_ancestorsUnder (h : Coherent r) (parent : Option Handle) :
    ∃ r', Consulted r r' ∧
      (ancestorsUnder parent).run r = Step.ending (ancestryUnder r.table parent) r' := by
  cases parent with
  | none => exact ⟨r, .refl h, rfl⟩
  | some parent =>
    rcases run_find h parent.id with ⟨r', hconsulted, hfind⟩
    refine ⟨r', hconsulted, ?_⟩
    unfold ancestorsUnder ancestryUnder
    cases hfound : lookUp r.table parent.id with
    | error e =>
      rw [hfound] at hfind
      simp [hfind, hfound]
    | ok found =>
      rw [hfound] at hfind
      by_cases hactive : found.status = .active <;> simp [hfind, hfound, hactive]

/-- A start goes ahead exactly if the table allows it. -/
theorem run_start (h : Coherent r) (id : Timestamp) (parent : Option Handle)
    (isolation : Isolation) :
    ∃ r', Consulted r r' ∧
      (start id parent isolation).run r =
        match freshRecord r.table id parent isolation with
        | .ok fresh => .ok fresh.toHandle (r'.withBegun id fresh)
        | .error e => .error e r' := by
  rcases run_ancestorsUnder h parent with ⟨r', hconsulted, hancestors⟩
  refine ⟨r', hconsulted, ?_⟩
  unfold start freshRecord
  cases hancestry : ancestryUnder r.table parent with
  | error e =>
    rw [hancestry] at hancestors
    simp [hancestors]
  | ok ancestors =>
    rw [hancestry] at hancestors
    cases hstart : Record.start id ancestors isolation with
    | error e => simp [hancestors, hstart]
    | ok fresh =>
      rcases Record.eq_of_start hstart with ⟨_, rfl⟩
      cases hknown : r.table.contains id with
      | true => simp [hancestors, hstart, hconsulted.table, hknown]
      | false => simp [hancestors, hstart, hconsulted.table, hknown, withBegun]

/-- What a start that went ahead found. -/
structure Begins (t : Table) (id : Timestamp) (parent : Option Handle) (isolation : Isolation)
    (fresh : Record) : Prop where
  unused : t.get? id = none
  status : fresh.status = .active
  commitTs : fresh.commitTs = none
  named : fresh.id = id
  isolated : fresh.isolation = isolation
  chained : chainFault? id fresh.ancestors = none
  topLevel : parent = none → fresh.ancestors = []
  nested : ∀ p, parent = some p → fresh.ancestors = p.id :: p.ancestors ∧
    ∃ found, t.get? p.id = some found ∧ found.status = .active

theorem get?_of_lookUp {record : Record} (h : lookUp t id = .ok record) :
    t.get? id = some record := by
  unfold lookUp at h
  split at h
  · rename_i hfound
    cases h
    exact hfound
  · cases h

theorem begins_of_freshRecord {parent : Option Handle} {isolation : Isolation} {fresh : Record}
    (h : freshRecord t id parent isolation = .ok fresh) : Begins t id parent isolation fresh := by
  unfold freshRecord at h
  split at h
  · cases h
  · rename_i ancestors hancestry
    split at h
    · cases h
    · rename_i record hstart
      rcases Record.eq_of_start hstart with ⟨hchain, rfl⟩
      split at h
      · cases h
      · rename_i hunused
        cases h
        refine ⟨?_, rfl, rfl, rfl, rfl, hchain, ?_, ?_⟩
        · rw [SortedMap.contains, Bool.not_eq_true, Option.isSome_eq_false_iff,
            Option.isNone_iff_eq_none] at hunused
          exact hunused
        · rintro rfl
          cases hancestry
          rfl
        · rintro p rfl
          simp only [ancestryUnder] at hancestry
          split at hancestry
          · cases hancestry
          · rename_i found hfound
            split at hancestry
            · rename_i hactive
              cases hancestry
              exact ⟨rfl, found, get?_of_lookUp hfound, hactive⟩
            · cases hancestry

/-! ## Settling -/

/-- The record of a transaction once it is settled over a table, or why it may not be. -/
def settledRecord (t : Table) (id : Timestamp) (outcome : Outcome) : Except StorageError Record :=
  match lookUp t id with
  | .error e => .error e
  | .ok old =>
    match old.settle outcome with
    | .error e => .error (.transaction e)
    | .ok new => .ok new

/-- The registry once a transaction was settled. -/
def withSettled (r : Registry) (id : Timestamp) (outcome : Outcome) (new : Record) : Registry :=
  { r with
    journal := r.journal.map fun j => (j.log id (.settled outcome)).2
    table := r.table.insert id new
    active := r.active.erase id }

/-- A settlement goes ahead exactly if the record allows it, and one that says nothing new
writes nothing. -/
theorem run_settle (r : Registry) (id : Timestamp) (outcome : Outcome) :
    (settle id outcome).run r =
      match settledRecord r.table id outcome with
      | .ok new =>
        if r.table.get? id = some new then .ok () r else .ok () (r.withSettled id outcome new)
      | .error e => .error e r := by
  unfold settle settledRecord lookUp
  cases hfound : r.table.get? id with
  | none => simp [hfound]
  | some old =>
    cases hsettle : old.settle outcome with
    | error e => simp [hfound, hsettle]
    | ok new =>
      by_cases hsame : new = old
      · subst hsame
        simp [hfound, hsettle]
      · have hchanged : ¬ some old = some new := fun heq => hsame (Option.some.inj heq).symm
        simp [hfound, hsettle, hsame, hchanged, withSettled]

theorem settle_of_settledRecord {outcome : Outcome} {new : Record}
    (h : settledRecord t id outcome = .ok new) :
    ∃ old, t.get? id = some old ∧ old.settle outcome = .ok new := by
  unfold settledRecord at h
  split at h
  · cases h
  · rename_i old hfound
    split at h
    · cases h
    · rename_i record hsettle
      cases h
      exact ⟨old, get?_of_lookUp hfound, hsettle⟩

/-- A settlement that goes ahead repeats the outcome of a record or closes an active one. -/
theorem settledRecord_cases {outcome : Outcome} {new : Record}
    (h : settledRecord t id outcome = .ok new) :
    ∃ old, t.get? id = some old ∧
      (old.status = outcome.status ∧ new = old ∨ Record.Closes old outcome new) := by
  rcases settle_of_settledRecord h with ⟨old, hfound, hsettle⟩
  exact ⟨old, hfound, Record.settle_cases hsettle⟩

/-! ## What changes keep -/

/-- The later table has every record of the earlier one, under the same handle, and those that
were settled unchanged. -/
structure Extends (t t' : Table) : Prop where
  kept {id : Timestamp} {record : Record} : t.get? id = some record →
    ∃ record', t'.get? id = some record' ∧ record'.toHandle = record.toHandle
  terminal {id : Timestamp} {record : Record} : t.get? id = some record →
    record.status.isTerminal = true → t'.get? id = some record

theorem Extends.refl (t : Table) : Extends t t :=
  ⟨fun h => ⟨_, h, rfl⟩, fun h _ => h⟩

theorem Extends.trans {t₁ t₂ t₃ : Table} (h₁ : Extends t₁ t₂) (h₂ : Extends t₂ t₃) :
    Extends t₁ t₃ := by
  constructor
  · intro id record hfound
    rcases h₁.kept hfound with ⟨record₂, hfound₂, hhandle₂⟩
    rcases h₂.kept hfound₂ with ⟨record₃, hfound₃, hhandle₃⟩
    exact ⟨record₃, hfound₃, hhandle₃.trans hhandle₂⟩
  · intro id record hfound hterminal
    exact h₂.terminal (h₁.terminal hfound hterminal) hterminal

theorem extends_insert_of_unused (h : t.get? id = none) (fresh : Record) :
    Extends t (t.insert id fresh) := by
  have hother : ∀ {id' record}, t.get? id' = some record →
      (t.insert id fresh).get? id' = some record := by
    intro id' record hfound
    rw [SortedMap.get?_insert_of_ne, hfound]
    rintro rfl
    rw [h] at hfound
    cases hfound
  exact ⟨fun hfound => ⟨_, hother hfound, rfl⟩, fun hfound _ => hother hfound⟩

theorem extends_insert_of_closes {old new : Record} {outcome : Outcome}
    (h : t.get? id = some old) (hcloses : Record.Closes old outcome new) :
    Extends t (t.insert id new) := by
  constructor
  · intro id' record hfound
    by_cases hid : id' = id
    · subst hid
      rw [h] at hfound
      cases hfound
      exact ⟨new, SortedMap.get?_insert_self .., hcloses.handle⟩
    · exact ⟨record, by rw [SortedMap.get?_insert_of_ne _ _ hid, hfound], rfl⟩
  · intro id' record hfound hterminal
    rw [SortedMap.get?_insert_of_ne, hfound]
    rintro rfl
    rw [h] at hfound
    cases hfound
    exact Status.isTerminal_iff.1 hterminal hcloses.wasActive

/-- A cache of settled records outlives every change of the table. -/
theorem Coherent.of_extends (h : Coherent r) (hcache : r'.cache = r.cache)
    (hextends : Extends r.table r'.table) : Coherent r' := by
  intro e he
  rw [hcache] at he
  rcases h e he with ⟨hfound, hterminal⟩
  exact ⟨hextends.terminal hfound hterminal, hterminal⟩

end Registry

end SnapshotIsolation
