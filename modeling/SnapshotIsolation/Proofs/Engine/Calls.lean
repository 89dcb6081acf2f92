import SnapshotIsolation.Engine
import SnapshotIsolation.Proofs.Compaction
import SnapshotIsolation.Proofs.Visibility.Versions

/-!
# Calls of the engine

Every call looks records up, may ask once for a timestamp, during which others may settle
transactions, and then does at most one thing: it begins or settles one transaction, lets one
active transaction write, or resolves markers. {lit}`Engine.Effect` says so of one call.

Main results:

- Theorem {lit}`Registry.run_settling`: how an attempt to settle a transaction ends.
- Theorem {lit}`Registry.Interfered.extended`: what others do keeps the table's history.
-/

namespace SnapshotIsolation

open Registry (Table Coherent Consulted Begins Sound Bounded)

/-! ## Settlements by others -/

namespace Registry

/-- How an attempt to settle a transaction ends, and the table after it. -/
inductive Settling (t : Table) (id : Timestamp) (outcome : Outcome) :
    Except StorageError Unit → Table → Prop
  | refused (e : StorageError) : Settling t id outcome (.error e) t
  | repeated {old : Record} : t.get? id = some old → old.status = outcome.status →
      Settling t id outcome (.ok ()) t
  | closed {old new : Record} : t.get? id = some old → Record.Closes old outcome new →
      Settling t id outcome (.ok ()) (t.insert id new)

theorem Settling.extended {t t' : Table} {id : Timestamp} {outcome : Outcome}
    {result : Except StorageError Unit} (h : Settling t id outcome result t') : Extends t t' := by
  cases h with
  | refused e => exact .refl t
  | repeated _ _ => exact .refl t
  | closed hold hcloses => exact extends_insert_of_closes hold hcloses

theorem run_settling {r : Registry} (h : Coherent r) (id : Timestamp) (outcome : Outcome) :
    ∃ result r', Coherent r' ∧ Settling r.table id outcome result r'.table ∧
      (settle id outcome).run r = Step.ending result r' := by
  rw [run_settle]
  cases hsettled : settledRecord r.table id outcome with
  | error e => exact ⟨.error e, r, h, .refused e, rfl⟩
  | ok new =>
    rcases settledRecord_cases hsettled with ⟨old, hold, hcases⟩
    rcases hcases with ⟨hstatus, rfl⟩ | hcloses
    · exact ⟨.ok (), r, h, .repeated hold hstatus, by simp [hold]⟩
    · have hchanged : r.table.get? id ≠ some new := by
        rw [hold]
        exact fun heq => hcloses.ne (Option.some.inj heq).symm
      refine ⟨.ok (), r.withSettled id outcome new, ?_, .closed hold hcloses, by simp [hchanged]⟩
      exact h.of_extends rfl (extends_insert_of_closes hold hcloses)

/-- The table after others attempted their settlements, one after the other. -/
inductive Interfered : Meanwhile → Table → Table → Prop
  | nil {t : Table} : Interfered [] t t
  | cons {t₁ t₂ t₃ : Table} {id : Timestamp} {outcome : Outcome} {others : Meanwhile}
      {result : Except StorageError Unit} : Settling t₁ id outcome result t₂ →
      Interfered others t₂ t₃ → Interfered ((id, outcome) :: others) t₁ t₃

theorem Interfered.extended {others : Meanwhile} {t t' : Table} (h : Interfered others t t') :
    Extends t t' := by
  induction h with
  | nil => exact .refl _
  | cons hsettling _ ih => exact hsettling.extended.trans ih

theorem Interfered.eq_of_nil {t t' : Table} (h : Interfered [] t t') : t' = t := by
  cases h
  rfl

end Registry

open Registry (Interfered Settling)

/-! ## Calls -/

/-- A source of timestamps together with the answers it has given. -/
structure RecordedSource (σ : Type) where
  source : σ
  answers : List Answer

instance {σ : Type} [TimestampSource σ] : TimestampSource (RecordedSource σ) where
  next := fun s =>
    let (answer, source) := TimestampSource.next.run s.source
    (answer, ⟨source, s.answers ++ [answer]⟩)
  remember ts := Step.focus RecordedSource.source (fun source s => { s with source := source })
    (TimestampSource.remember ts)

/-- A call of the engine. -/
inductive Call where
  | start (isolation : Isolation) (parent : Option Handle)
  | write (txn : Handle) (row : Bytes) (columns : List (Bytes × Bytes))
  | delete (txn : Handle) (row : Bytes)
  | commit (txn : Handle)
  | rollback (txn : Handle)
  | readRow (txn : Handle) (row : Bytes)
  | isVisible (c : Cell) (txn : Handle)
  | compact
  | rememberWatermark

namespace Call

/-- The handles that a call names. -/
def handles : Call → List Handle
  | .start _ parent => parent.toList
  | .write txn _ _ | .delete txn _ | .commit txn | .rollback txn | .readRow txn _
  | .isVisible _ txn => [txn]
  | .compact | .rememberWatermark => []

/-- The transaction that a call wants to write, delete or settle for. -/
def actor? : Call → Option Handle
  | .write txn _ _ | .delete txn _ | .commit txn | .rollback txn => some txn
  | _ => none

/-- Makes a call; a start answers the handle of the transaction it began. -/
def perform {σ : Type} [TimestampSource σ] : Call → Engine.Action σ (Option Handle)
  | .start isolation parent => do return some (← Engine.start isolation parent)
  | .write txn row columns => do
    Engine.write txn row columns
    return none
  | .delete txn row => do
    Engine.delete txn row
    return none
  | .commit txn => do
    let _ ← Engine.commit txn
    return none
  | .rollback txn => do
    Engine.rollback txn
    return none
  | .readRow txn row => do
    let _ ← Engine.readRow txn row
    return none
  | .isVisible c txn => do
    let _ ← Engine.isVisible c txn
    return none
  | .compact => do
    let _ ← Engine.compact
    return none
  | .rememberWatermark => do
    let _ ← Engine.rememberWatermark
    return none

end Call

/-- What a call that found table `t₀` does to the table `t` and the cells `s` once it was given
the answers it asked for. -/
inductive Deed (t₀ : Table) (asked : List Answer) (t : Table) (s : CellStore) :
    Call → Except StorageError (Option Handle) → Table → CellStore → Prop
  | looked {call : Call} {result : Except StorageError (Option Handle)} :
      (∀ h, result ≠ .ok (some h)) → Deed t₀ asked t s call result t s
  | began {m : Meanwhile} {id : Timestamp} {parent : Option Handle} {isolation : Isolation}
      {fresh : Record} : asked = [⟨m, .ok id⟩] → Begins t id parent isolation fresh →
      Deed t₀ asked t s (.start isolation parent) (.ok (some fresh.toHandle)) (t.insert id fresh) s
  | committed {m : Meanwhile} {ts : Timestamp} {txn : Handle} {old new : Record} :
      asked = [⟨m, .ok ts⟩] → t.get? txn.id = some old → Record.Closes old (.commit ts) new →
      (∀ parent rest, old.ancestors = parent :: rest →
        ∃ above, t₀.get? parent = some above ∧ above.status = .active) →
      Deed t₀ asked t s (.commit txn) (.ok none) (t.insert txn.id new) s
  | failed {txn : Handle} {old new : Record} {e : StorageError} : t.get? txn.id = some old →
      Record.Closes old .error new →
      Deed t₀ asked t s (.commit txn) (.error e) (t.insert txn.id new) s
  | rolledBack {txn : Handle} {old new : Record} : t.get? txn.id = some old →
      Record.Closes old .rollback new →
      Deed t₀ asked t s (.rollback txn) (.ok none) (t.insert txn.id new) s
  | wrote {call : Call} {txn : Handle} {record : Record} {s' : CellStore} :
      call.actor? = some txn → t.get? txn.id = some record → record.status = .active →
      CellStore.WrittenBy txn.id s s' → Deed t₀ asked t s call (.ok none) t s'
  | resolved {s' : CellStore} : CellStore.Resolved t s s' →
      Deed t₀ asked t s .compact (.ok none) t s'

/-- What a call does from its beginning to its end. -/
structure Engine.Effect {σ : Type} (call : Call) (result : Except StorageError (Option Handle))
    (e e' : Engine (RecordedSource σ)) : Prop where
  coherent : Coherent e'.registry
  deed : ∃ asked t, e'.source.answers = e.source.answers ++ asked ∧
    Interfered (asked.flatMap (·.meanwhile)) e.registry.table t ∧
    Deed e.registry.table asked t e.cells call result e'.registry.table e'.cells

end SnapshotIsolation
