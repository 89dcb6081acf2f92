import SnapshotIsolation.Proofs.Registry.Chronicles

/-!
# Registries and the handles that they handed out

Transactions begin under handles that the registry handed out before, and anyone may settle any of
them at any time. The journal may be opened again; handles that were handed out before remain
those of records then.

Main results:

- Theorem {lit}`Registry.Served.sound`: the records of such a registry form lineages.
- Theorem {lit}`Registry.Served.recorded`: every handle is that of a record.
-/

namespace SnapshotIsolation

namespace Registry

variable {r : Registry} {handles : List Handle}

/-- The registries that look-ups, begins and settlements lead to, with the handles handed out on
the way. A registry begins without records, in memory or over a journal opened where no file stood.
A transaction begins under a handle handed out before, or under none. -/
inductive Served : Registry → List Handle → Prop
  | opening {capacity : Nat} {journal : Option Journal} :
      (∀ j, journal = some j → Journal.openAt.run ⟨false, .missing⟩ = .ok j ⟨false, .file []⟩) →
      Served { inMemory capacity with journal := journal } []
  | found {r : Registry} {handles : List Handle} (id : Timestamp) : Served r handles →
      Served (Step.after (find id) r) handles
  | started {r : Registry} {handles : List Handle} {id : Timestamp} {parent : Option Handle}
      {isolation : Isolation} : Served r handles → (∀ p ∈ parent, p ∈ handles) →
      Served (Step.after (start id parent isolation) r)
        ((Step.answer (start id parent isolation) r).toOption.toList ++ handles)
  | settled {r : Registry} {handles : List Handle} (id : Timestamp) (outcome : Outcome) :
      Served r handles → Served (Step.after (settle id outcome) r) handles
  | reopened {r r' : Registry} {handles : List Handle} {capacity : Nat} {slot slot' : FileSlot} :
      Served r handles → r.journalNode = some slot.node →
      (openAt capacity).run slot = .ok r' slot' → Served r' handles

/-- Every handle is that of a record. -/
def Recorded (t : Table) (handles : List Handle) : Prop :=
  ∀ h ∈ handles, ∃ record, t.get? h.id = some record ∧ record.toHandle = h

theorem Recorded.of_extends {t t' : Table} (h : Recorded t handles) (hextends : Extends t t') :
    Recorded t' handles := by
  intro handle hhandle
  rcases h handle hhandle with ⟨record, hfound, rfl⟩
  exact hextends.kept hfound

theorem extends_after {α : Type} {act : Action α} (hcoherent : Coherent r)
    (h : ∀ t, Step.Preserves (fun r => Coherent r ∧ Extends t r.table) act) :
    Extends r.table (Step.after act r).table :=
  ((h r.table).after ⟨hcoherent, .refl _⟩).2

/-- A settlement keeps the table sound. -/
theorem Sound.after_settle (h : Sound r.table) (hcoherent : Coherent r) (id : Timestamp)
    (outcome : Outcome) : Sound (Step.after (settle id outcome) r).table := by
  cases hput : (Operation.settle id outcome).put? r.table with
  | none =>
    have htable := (Operation.after_perform_of_none hcoherent hput).2.1
    exact htable ▸ h
  | some new =>
    have htable := (Operation.after_perform_of_some hcoherent hput).2.1
    rcases Operation.settledRecord_of_put? hput with ⟨hsettled, hchanged⟩
    rcases settledRecord_cases hsettled with ⟨old, hold, ⟨_, rfl⟩ | hcloses⟩
    · exact absurd hold hchanged
    · exact htable ▸ h.insert_closed hold hcloses

/-- A begin under a recorded handle keeps the table sound and hands out the handle of a record. -/
theorem Sound.after_start (h : Sound r.table) (hcoherent : Coherent r)
    (hrecorded : Recorded r.table handles) {id : Timestamp} {parent : Option Handle}
    {isolation : Isolation} (hparent : ∀ p ∈ parent, p ∈ handles) :
    Sound (Step.after (start id parent isolation) r).table ∧
      Recorded (Step.after (start id parent isolation) r).table
        (Step.answer (start id parent isolation) r).toOption.toList := by
  rcases run_start hcoherent id parent isolation with ⟨r', hconsulted, hrun⟩
  cases hfresh : freshRecord r.table id parent isolation with
  | error e =>
    rw [hfresh] at hrun
    have hafter : Step.after (start id parent isolation) r = r' := by rw [Step.after, hrun]
    have hanswer : Step.answer (start id parent isolation) r = .error e := by
      rw [Step.answer, hrun]
    rw [hafter, hanswer, hconsulted.table]
    exact ⟨h, fun _ hhandle => absurd hhandle List.not_mem_nil⟩
  | ok fresh =>
    rw [hfresh] at hrun
    have hafter : Step.after (start id parent isolation) r = r'.withBegun id fresh := by
      rw [Step.after, hrun]
    have hanswer : Step.answer (start id parent isolation) r = .ok fresh.toHandle := by
      rw [Step.answer, hrun]
    have htable : (r'.withBegun id fresh).table = r.table.insert id fresh := by
      rw [withBegun, hconsulted.table]
    have hbegins := begins_of_freshRecord hfresh
    rw [hafter, hanswer, htable]
    refine ⟨h.insert_begun hbegins fun p hp => hrecorded p (hparent p hp), ?_⟩
    intro handle hhandle
    obtain rfl := List.mem_singleton.1 hhandle
    exact ⟨fresh, by rw [hbegins.named, SortedMap.get?_insert_self], rfl⟩

/-- What holds of a registry throughout: its journal tells of its table, its records form lineages
and its handles are those of records. -/
theorem Served.holds (h : Served r handles) :
    Chronicled r ∧ Sound r.table ∧ Recorded r.table handles := by
  induction h with
  | @opening capacity journal hjournal =>
    refine ⟨chronicled_inMemory capacity ?_, sound_empty, nofun⟩
    intro j hj
    have hopen := (hjournal j hj).symm.trans Journal.run_openAt_missing
    cases hopen
    rfl
  | @found r handles id _ ih =>
    rcases ih with ⟨hchronicled, hsound, hrecorded⟩
    rcases run_find hchronicled.coherent id with ⟨r', hconsulted, hrun⟩
    have htable : (Step.after (find id) r).table = r.table := by
      rw [Step.after_of_run hrun, hconsulted.table]
    exact ⟨(invariant_chronicled.find id).after hchronicled, htable ▸ hsound, htable ▸ hrecorded⟩
  | @started r handles id parent isolation _ hparent ih =>
    rcases ih with ⟨hchronicled, hsound, hrecorded⟩
    have hextends : Extends r.table (Step.after (start id parent isolation) r).table :=
      extends_after hchronicled.coherent fun t => (invariant_extends t).start id parent isolation
    rcases hsound.after_start hchronicled.coherent hrecorded hparent with ⟨hsound', hnew⟩
    refine ⟨(invariant_chronicled.start id parent isolation).after hchronicled, hsound', ?_⟩
    intro handle hhandle
    rcases List.mem_append.1 hhandle with hhandle | hhandle
    · exact hnew handle hhandle
    · exact hrecorded.of_extends hextends handle hhandle
  | @settled r handles id outcome _ ih =>
    rcases ih with ⟨hchronicled, hsound, hrecorded⟩
    have hextends : Extends r.table (Step.after (settle id outcome) r).table :=
      extends_after hchronicled.coherent fun t => (invariant_extends t).settle id outcome
    exact ⟨(invariant_chronicled.settle id outcome).after hchronicled,
      hsound.after_settle hchronicled.coherent id outcome, hrecorded.of_extends hextends⟩
  | reopened _ hnode hopen ih =>
    rcases ih with ⟨hchronicled, hsound, hrecorded⟩
    rcases hchronicled.openAt hnode hopen with ⟨hchronicled', htable⟩
    rw [htable]
    exact ⟨hchronicled', hsound.map_abandoned, hrecorded.of_extends (extends_map_abandoned _)⟩

theorem Served.coherent (h : Served r handles) : Coherent r :=
  h.holds.1.coherent

/-- The records of such a registry form lineages. -/
theorem Served.sound (h : Served r handles) : Sound r.table :=
  h.holds.2.1

/-- Every handle is that of a record. -/
theorem Served.recorded (h : Served r handles) : Recorded r.table handles :=
  h.holds.2.2

end Registry

end SnapshotIsolation
