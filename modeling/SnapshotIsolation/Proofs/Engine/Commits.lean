import SnapshotIsolation.Proofs.Engine.Calls
import SnapshotIsolation.Proofs.Registry.Reached

/-!
# How commits end

A commit looks its transaction and the parent up, asks for a timestamp while others go on settling
transactions, and settles the transaction with the answer. Whatever the others did and whatever
the answer is, the commit time that it tells is the one on record, and it touches no other record.

Main results:

- Theorem {lit}`Engine.run_finishCommit`: how a commit ends once it was given a timestamp or
  refused one.
- Theorems {lit}`Engine.run_commit_of_not_mayCommit` and {lit}`Engine.run_commit_of_mayCommit`: how
  a commit ends.
- Theorem {lit}`Engine.commits_agree`: what commits tell and do under any interference.
-/

namespace SnapshotIsolation

open Registry (Table Coherent Consulted Interfered Onward Reached Proper)

/-! ## Settling in the way of a commit -/

namespace Record

variable {old new : Record} {ts : Timestamp} {target : Status} {cause : TransactionError}

theorem commitTs_of_commit (h : old.commit ts = .ok new) : new.commitTs = some ts := by
  unfold commit at h
  split at h
  · split at h
    · cases h
    · cases h
      rfl
  · rename_i existing _ hts
    split at h
    · rename_i hsame
      cases h
      rw [hts, hsame]
    · cases h
  · cases h
  · cases h

theorem exists_abandon (h : old.status = .active) (target : Status) :
    ∃ new, old.abandon target = .ok new :=
  ⟨_, if_pos h⟩

/-- An active record refuses a commit time only if it is too early or the record has one. -/
theorem early_of_commit_error (h : old.commit ts = .error cause) (hactive : old.status = .active) :
    ts ≤ old.id ∨ old.commitTs ≠ none := by
  unfold commit at h
  split at h
  · split at h
    · rename_i hearly
      exact .inl hearly
    · cases h
  · rename_i hcommitted _
    rw [hactive] at hcommitted
    cases hcommitted
  · rename_i hts
    exact .inr (by simp [hts])
  · rename_i hnone _ hsome
    cases hts : old.commitTs with
    | none => exact absurd hts (hnone hactive)
    | some existing => exact absurd hts (hsome existing hactive)

end Record

namespace Registry

variable {r r₁ r₂ : Registry} {t : Table} {id : Timestamp} {outcome : Outcome}

/-- How an attempt to settle a transaction ends: it is refused for the record's own reasons, it
repeats what the record says, or it closes the record. -/
theorem settle_cases {r : Registry} (h : Coherent r) (id : Timestamp) (outcome : Outcome) :
    (∃ cause, (settle id outcome).run r = Step.ending (.error cause) r ∧
        ∀ old, r.table.get? id = some old →
          ∃ fault, old.settle outcome = .error fault ∧ cause = .transaction fault) ∨
      ((settle id outcome).run r = Step.ending (.ok ()) r ∧
        ∃ old, r.table.get? id = some old ∧ old.settle outcome = .ok old ∧
          old.status = outcome.status) ∨
      ∃ r' old new, (settle id outcome).run r = Step.ending (.ok ()) r' ∧ Coherent r' ∧
        r'.table = r.table.insert id new ∧ r.table.get? id = some old ∧
          Record.Closes old outcome new := by
  have hrun := run_settle r id outcome
  cases hfound : r.table.get? id with
  | none =>
    have hsettled : settledRecord r.table id outcome = .error (.transaction (.notFound id)) := by
      rw [settledRecord, lookUp_of_get?_eq_none hfound]
    rw [hsettled] at hrun
    exact .inl ⟨_, hrun, nofun⟩
  | some old =>
    cases hsettle : old.settle outcome with
    | error fault =>
      have hsettled : settledRecord r.table id outcome = .error (.transaction fault) := by
        simp only [settledRecord, lookUp_of_get? hfound, hsettle]
      rw [hsettled] at hrun
      refine .inl ⟨_, hrun, ?_⟩
      rintro _ ⟨⟩
      exact ⟨fault, hsettle, rfl⟩
    | ok new =>
      have hsettled : settledRecord r.table id outcome = .ok new := by
        simp only [settledRecord, lookUp_of_get? hfound, hsettle]
      rw [hsettled] at hrun
      rcases Record.settle_cases hsettle with ⟨hstatus, rfl⟩ | hcloses
      · simp only [hfound, if_true] at hrun
        exact .inr (.inl ⟨hrun, new, rfl, hsettle, hstatus⟩)
      · have hchanged : r.table.get? id ≠ some new := by
          rw [hfound]
          exact fun heq => hcloses.ne (Option.some.inj heq).symm
        simp only [hchanged, if_false] at hrun
        have hextends : Extends r.table (r.withSettled id outcome new).table :=
          extends_insert_of_closes hfound hcloses
        exact .inr (.inr ⟨_, old, new, hrun, h.of_extends rfl hextends, rfl, rfl, hcloses⟩)

/-- What a settlement makes of the table is a matter of the table. -/
theorem table_after_settle_congr (h : r₁.table = r₂.table) (id : Timestamp) (outcome : Outcome) :
    (Step.after (settle id outcome) r₁).table = (Step.after (settle id outcome) r₂).table := by
  simp only [Step.after, run_settle, h]
  cases settledRecord r₂.table id outcome with
  | error e => exact h
  | ok new =>
    by_cases hsame : r₂.table.get? id = some new
    · simpa only [hsame, if_true] using h
    · simp only [hsame, if_false, withSettled, h]

end Registry

namespace Engine

variable {σ α : Type}

/-! ## Running parts of calls -/

theorem run_onRegistry {e : Engine σ} {act : Registry.Action α} {result : Except StorageError α}
    {r' : Registry} (h : act.run e.registry = Step.ending result r') :
    (onRegistry act : Action σ α).run e = Step.ending result { e with registry := r' } :=
  Step.run_focus_of_ending h

theorem answer_onRegistry (act : Registry.Action α) (e : Engine σ) :
    Step.answer (onRegistry act) e = Step.answer act e.registry :=
  Step.answer_of_run (run_onRegistry (Step.run_eq_ending act e.registry))

theorem after_onRegistry (act : Registry.Action α) (e : Engine σ) :
    Step.after (onRegistry act) e = { e with registry := Step.after act e.registry } :=
  Step.after_of_run (run_onRegistry (Step.run_eq_ending act e.registry))

theorem interfere_cons (other : Timestamp × Outcome) (others : Meanwhile) :
    interfere (other :: others) =
      (Step.ofState (Step.attempt (Registry.settle other.1 other.2)) >>= fun _ => interfere others :
        Registry.Action Unit) :=
  rfl

theorem run_interfere_cons (other : Timestamp × Outcome) (others : Meanwhile) (r : Registry) :
    (interfere (other :: others)).run r =
      (interfere others).run (Step.after (Registry.settle other.1 other.2) r) := by
  rw [interfere_cons]
  exact Step.run_bind_of_ok (Step.run_ofState_attempt (Step.run_eq_ending ..))

theorem run_interfere (others : Meanwhile) (r : Registry) :
    (interfere others).run r = .ok () (Step.after (interfere others) r) := by
  induction others generalizing r with
  | nil => rfl
  | cons other others ih => rw [Step.after, run_interfere_cons, ih]

theorem after_interfere_cons (other : Timestamp × Outcome) (others : Meanwhile) (r : Registry) :
    Step.after (interfere (other :: others)) r =
      Step.after (interfere others) (Step.after (Registry.settle other.1 other.2) r) := by
  rw [Step.after, Step.after, run_interfere_cons]

theorem interfered_after_interfere {r : Registry} (h : Coherent r) (others : Meanwhile) :
    Coherent (Step.after (interfere others) r) ∧
      Interfered others r.table (Step.after (interfere others) r).table := by
  induction others generalizing r with
  | nil => exact ⟨h, .nil⟩
  | cons other others ih =>
    rcases Registry.run_settling h other.1 other.2 with ⟨result, r₁, hcoherent₁, hsettling, hrun₁⟩
    rw [after_interfere_cons, Step.after_of_run hrun₁]
    rcases ih hcoherent₁ with ⟨hcoherent₂, hinterfered⟩
    exact ⟨hcoherent₂, .cons hsettling hinterfered⟩

/-- What others make of the table is a matter of the table. -/
theorem table_after_interfere_congr {r₁ r₂ : Registry} (h : r₁.table = r₂.table)
    (others : Meanwhile) :
    (Step.after (interfere others) r₁).table = (Step.after (interfere others) r₂).table := by
  induction others generalizing r₁ r₂ with
  | nil => exact h
  | cons other others ih =>
    rw [after_interfere_cons, after_interfere_cons]
    exact ih (Registry.table_after_settle_congr h other.1 other.2)

section Waiting

variable [TimestampSource σ]

/-- What the source answers when it is asked next. -/
def nextAnswer (e : Engine σ) : Answer := (TimestampSource.next.run e.source).1

/-- The source once it has answered. -/
def nextSource (e : Engine σ) : σ := (TimestampSource.next.run e.source).2

/-- The registry as others leave it by the time of the next answer. -/
def registryMeanwhile (e : Engine σ) : Registry :=
  Step.after (interfere e.nextAnswer.meanwhile) e.registry

theorem run_nextTimestamp (e : Engine σ) :
    nextTimestamp.run e =
      .ok e.nextAnswer.result { e with source := e.nextSource, registry := e.registryMeanwhile } := by
  have hasked : (onRegistry (interfere e.nextAnswer.meanwhile) : Action σ Unit).run
      { e with source := e.nextSource } =
      Step.ending (.ok ()) { e with source := e.nextSource, registry := e.registryMeanwhile } :=
    run_onRegistry (run_interfere ..)
  unfold nextTimestamp
  rw [EStateM.run_bind, EStateM.run_get]
  show ((set { e with source := e.nextSource } : Action σ PUnit) >>= fun _ =>
    onRegistry (interfere e.nextAnswer.meanwhile) >>= fun _ => pure e.nextAnswer.result).run e = _
  rw [EStateM.run_bind, EStateM.run_set]
  simp only
  rw [Step.run_bind_of_ok hasked]
  rfl

end Waiting

/-! ## Finding out whether to ask -/

/-- A commit has to ask for a timestamp: the transaction is active, and so is its parent if it
has one. -/
def MayCommit (t : Table) (id : Timestamp) : Prop :=
  ∃ record, t.get? id = some record ∧ record.status = .active ∧
    ∀ parent, record.parent? = some parent →
      ∃ above, t.get? parent = some above ∧ above.status = .active

/-- The record of a transaction tells a commit time. -/
def CommittedAt (t : Table) (id ts : Timestamp) : Prop :=
  ∃ record, t.get? id = some record ∧ record.status = .committed ∧ record.commitTs = some ts

/-- Looks a transaction up and refuses it unless it is active. -/
def requireActive (id : Timestamp) (cause : Status → TransactionError) : Registry.Action Unit := do
  let status := (← Registry.find id).status
  if status ≠ .active then Registry.refuse (cause status)

theorem requireActive_bind (id : Timestamp) (cause : Status → TransactionError) (a : α) :
    (requireActive id cause >>= fun _ => pure a : Registry.Action α) = (do
      let found ← Registry.find id
      if found.status ≠ .active then Registry.refuse (cause found.status)
      return a) := by
  rw [requireActive, bind_assoc]
  refine bind_congr fun found => ?_
  by_cases hactive : found.status = .active
  · rw [if_neg (not_not.2 hactive), if_neg (not_not.2 hactive), pure_bind]
  · rw [if_pos hactive, if_pos hactive]

theorem run_requireActive {r : Registry} (h : Coherent r) (id : Timestamp)
    (cause : Status → TransactionError) :
    ∃ result r', Consulted r r' ∧ (requireActive id cause).run r = Step.ending result r' ∧
      (result = .ok () ↔ ∃ record, r.table.get? id = some record ∧ record.status = .active) := by
  rcases Registry.run_find h id with ⟨r', hconsulted, hfind⟩
  unfold requireActive
  cases hfound : r.table.get? id with
  | none =>
    rw [Registry.lookUp_of_get?_eq_none hfound] at hfind
    exact ⟨.error _, r', hconsulted, Step.run_bind_of_error hfind, by simp⟩
  | some record =>
    rw [Registry.lookUp_of_get? hfound] at hfind
    rw [Step.run_bind_of_ok hfind]
    by_cases hactive : record.status = .active
    · exact ⟨.ok (), r', hconsulted, by simp [hactive], by simp [hactive]⟩
    · exact ⟨.error (.transaction (cause record.status)), r', hconsulted, by simp [hactive],
        by simp [hactive]⟩

/-- A commit finds out that it has to ask for a timestamp, or else tells a commit time that is on
record or refuses. -/
theorem run_prepareCommit {r : Registry} (h : Coherent r) (txn : Handle) :
    ∃ result r', Consulted r r' ∧ (prepareCommit txn).run r = Step.ending result r' ∧
      (result = .ok none ↔ MayCommit r.table txn.id) ∧
      ∀ ts, result = .ok (some ts) → CommittedAt r.table txn.id ts := by
  rcases Registry.run_find h txn.id with ⟨r₁, hconsulted₁, hfind⟩
  unfold prepareCommit MayCommit CommittedAt
  cases hfound : r.table.get? txn.id with
  | none =>
    rw [Registry.lookUp_of_get?_eq_none hfound] at hfind
    exact ⟨.error _, r₁, hconsulted₁, Step.run_bind_of_error hfind, by simp, by simp⟩
  | some record =>
    rw [Registry.lookUp_of_get? hfound] at hfind
    rw [Step.run_bind_of_ok hfind]
    simp only [Option.some.injEq, exists_eq_left']
    cases hstatus : record.status with
    | rolledBack => exact ⟨.error _, r₁, hconsulted₁, rfl, by simp, by simp⟩
    | error => exact ⟨.error _, r₁, hconsulted₁, rfl, by simp, by simp⟩
    | committed =>
      cases hts : record.commitTs with
      | none => exact ⟨.error _, r₁, hconsulted₁, rfl, by simp, by simp⟩
      | some ts => exact ⟨.ok (some ts), r₁, hconsulted₁, rfl, by simp, by simp⟩
    | active =>
      cases hparent : record.parent? with
      | none => exact ⟨.ok none, r₁, hconsulted₁, rfl, by simp, by simp⟩
      | some parent =>
        obtain ⟨result, r₂, hconsulted₂, hrequire, hactive⟩ :=
          run_requireActive hconsulted₁.coherent parent (.parentNotActive parent)
        have hconsulted := hconsulted₁.trans hconsulted₂
        rw [hconsulted₁.table] at hactive
        simp only
        rw [← requireActive_bind]
        cases result with
        | error cause =>
          exact ⟨.error cause, r₂, hconsulted, Step.run_bind_of_error hrequire,
            by simpa using hactive, by simp⟩
        | ok _ =>
          exact ⟨.ok none, r₂, hconsulted, Step.run_bind_of_ok hrequire,
            by simpa using hactive, by simp⟩

/-! ## Settling with the answer -/

theorem run_adoptCommit {r : Registry} (h : Coherent r) (txn : Handle) :
    ∃ result r', Consulted r r' ∧ (adoptCommit txn).run r = Step.ending result r' ∧
      ∀ ts, result = .ok ts ↔ CommittedAt r.table txn.id ts := by
  rcases Registry.run_find h txn.id with ⟨r', hconsulted, hfind⟩
  unfold adoptCommit CommittedAt
  cases hfound : r.table.get? txn.id with
  | none =>
    rw [Registry.lookUp_of_get?_eq_none hfound] at hfind
    exact ⟨.error _, r', hconsulted, Step.run_bind_of_error hfind, by simp⟩
  | some record =>
    rw [Registry.lookUp_of_get? hfound] at hfind
    rw [Step.run_bind_of_ok hfind]
    split
    · rename_i existing hstatus hts
      exact ⟨.ok existing, r', hconsulted, rfl, by simp [hstatus, hts]⟩
    · rename_i hother
      refine ⟨.error _, r', hconsulted, rfl, ?_⟩
      simpa using hother

/-- How a commit ends over the table that others left, once it has its answer: it settles the
transaction, or it leaves the table alone. -/
inductive Finishing (t : Table) (id : Timestamp) :
    Except TimestampError Timestamp → Except StorageError Timestamp → Table → Prop
  | committed {old new : Record} {ts : Timestamp} : t.get? id = some old →
      Record.Closes old (.commit ts) new → Finishing t id (.ok ts) (.ok ts) (t.insert id new)
  | abandoned {old new : Record} {cause : TimestampError} : t.get? id = some old →
      Record.Closes old .error new →
        Finishing t id (.error cause) (.error (.timestamp cause)) (t.insert id new)
  | unavailable {cause : TimestampError} :
      (∀ old, t.get? id = some old → old.status ≠ .active) →
        Finishing t id (.error cause) (.error (.timestamp cause)) t
  | adopted {ts existing : Timestamp} : CommittedAt t id existing →
      Finishing t id (.ok ts) (.ok existing) t
  | refused {ts : Timestamp} {cause : StorageError} : (∀ existing, ¬ CommittedAt t id existing) →
      (∀ old, t.get? id = some old → old.status = .active → ts ≤ old.id ∨ old.commitTs ≠ none) →
        Finishing t id (.ok ts) (.error cause) t

/-- Without a timestamp a commit leaves what settling its transaction as an error leaves. -/
theorem run_finishCommit_of_settle {r r' : Registry} {txn : Handle}
    {result : Except StorageError Unit}
    (hsettle : (Registry.settle txn.id .error).run r = Step.ending result r')
    (cause : TimestampError) :
    (finishCommit txn (.error cause)).run r = .error (.timestamp cause) r' :=
  Step.run_bind_of_ok (Step.run_ofState_attempt hsettle)

/-- Without a timestamp a commit settles the transaction as an error, if nobody else settled it
meanwhile. -/
theorem run_finishCommit_error {r : Registry} (h : Coherent r) (txn : Handle)
    (cause : TimestampError) :
    ∃ r', Coherent r' ∧
      (finishCommit txn (.error cause)).run r = .error (.timestamp cause) r' ∧
      Finishing r.table txn.id (.error cause) (.error (.timestamp cause)) r'.table := by
  rcases Registry.settle_cases h txn.id .error with
    ⟨e, hrun, hrefused⟩ | ⟨hrun, old, hfound, _, hstatus⟩ |
      ⟨r', old, new, hrun, hcoherent, htable, hfound, hcloses⟩
  · refine ⟨r, h, run_finishCommit_of_settle hrun cause, .unavailable ?_⟩
    intro old hfound hactive
    rcases hrefused old hfound with ⟨fault, hfault, _⟩
    rcases Record.exists_abandon hactive .error with ⟨new, hnew⟩
    simp [Record.settle, hnew] at hfault
  · refine ⟨r, h, run_finishCommit_of_settle hrun cause, .unavailable ?_⟩
    intro old' hfound'
    rw [hfound, Option.some.injEq] at hfound'
    rw [← hfound', hstatus]
    exact Outcome.status_ne_active .error
  · refine ⟨r', hcoherent, run_finishCommit_of_settle hrun cause, ?_⟩
    rw [htable]
    exact .abandoned hfound hcloses

/-- With its timestamp a commit settles the transaction, or adopts the time at which someone else
committed it meanwhile. -/
theorem run_finishCommit_ok {r : Registry} (h : Coherent r) (txn : Handle) (ts : Timestamp) :
    ∃ result r', Coherent r' ∧ (finishCommit txn (.ok ts)).run r = Step.ending result r' ∧
      Finishing r.table txn.id (.ok ts) result r'.table := by
  unfold finishCommit
  simp only
  rcases Registry.settle_cases h txn.id (.commit ts) with
    ⟨e, hrun, hrefused⟩ | ⟨hrun, old, hfound, hsettle, hstatus⟩ |
      ⟨r', old, new, hrun, hcoherent, htable, hfound, hcloses⟩
  · have hearly : ∀ old, r.table.get? txn.id = some old → old.status = .active →
        ts ≤ old.id ∨ old.commitTs ≠ none := by
      intro old hfound hactive
      rcases hrefused old hfound with ⟨fault, hfault, _⟩
      exact Record.early_of_commit_error hfault hactive
    rw [Step.run_bind_of_ok (Step.run_ofState_attempt hrun)]
    split
    · rename_i heq
      cases heq
    · rcases run_adoptCommit h txn with ⟨result, r', hconsulted, hadopt, hresult⟩
      refine ⟨result, r', hconsulted.coherent, hadopt, ?_⟩
      rw [hconsulted.table]
      cases result with
      | ok existing => exact .adopted ((hresult existing).1 rfl)
      | error cause =>
        exact .refused (fun existing hcommitted => nomatch (hresult existing).2 hcommitted) hearly
    · rename_i other hother heq
      cases heq
      refine ⟨.error e, r, h, rfl, .refused ?_ hearly⟩
      rintro existing ⟨old, hfound, hstatus, hts⟩
      rcases hrefused old hfound with ⟨fault, hfault, rfl⟩
      by_cases hsame : existing = ts
      · simp [Record.settle, Record.commit, hstatus, hts, hsame] at hfault
      · simp only [Record.settle, Record.commit, hstatus, hts, hsame, if_false,
          Except.error.injEq] at hfault
        exact hother _ _ _ (by rw [hfault])
  · rw [Step.run_bind_of_ok (Step.run_ofState_attempt hrun)]
    exact ⟨.ok ts, r, h, rfl, .adopted ⟨old, hfound, hstatus, Record.commitTs_of_commit hsettle⟩⟩
  · rw [Step.run_bind_of_ok (Step.run_ofState_attempt hrun)]
    refine ⟨.ok ts, r', hcoherent, rfl, ?_⟩
    rw [htable]
    exact .committed hfound hcloses

/-- How a commit ends once it was given a timestamp or refused one. -/
theorem run_finishCommit {r : Registry} (h : Coherent r) (txn : Handle)
    (given : Except TimestampError Timestamp) :
    ∃ result r', Coherent r' ∧ (finishCommit txn given).run r = Step.ending result r' ∧
      Finishing r.table txn.id given result r'.table := by
  cases given with
  | error cause =>
    rcases run_finishCommit_error h txn cause with ⟨r', hcoherent, hrun, hfinishing⟩
    exact ⟨.error (.timestamp cause), r', hcoherent, hrun, hfinishing⟩
  | ok ts => exact run_finishCommit_ok h txn ts

/-! ## Whole commits -/

theorem CommittedAt.of_extends {t t' : Table} {id ts : Timestamp} (h : CommittedAt t id ts)
    (hextends : Registry.Extends t t') : CommittedAt t' id ts := by
  rcases h with ⟨record, hfound, hstatus, hts⟩
  exact ⟨record, hextends.terminal hfound (by rw [hstatus]; rfl), hstatus, hts⟩

theorem CommittedAt.unique {t : Table} {id ts ts' : Timestamp} (h : CommittedAt t id ts)
    (h' : CommittedAt t id ts') : ts = ts' := by
  rcases h with ⟨record, hfound, _, hts⟩
  rcases h' with ⟨record', hfound', _, hts'⟩
  rw [hfound, Option.some.injEq] at hfound'
  rw [hfound', hts', Option.some.injEq] at hts
  exact hts.symm

theorem Finishing.extends {t t' : Table} {id : Timestamp} {given : Except TimestampError Timestamp}
    {result : Except StorageError Timestamp} (h : Finishing t id given result t') :
    Registry.Extends t t' := by
  cases h with
  | committed hfound hcloses => exact Registry.extends_insert_of_closes hfound hcloses
  | abandoned hfound hcloses => exact Registry.extends_insert_of_closes hfound hcloses
  | unavailable _ => exact .refl t
  | adopted _ => exact .refl t
  | refused _ _ => exact .refl t

theorem Finishing.get?_of_ne {t t' : Table} {id id' : Timestamp}
    {given : Except TimestampError Timestamp} {result : Except StorageError Timestamp}
    (h : Finishing t id given result t') (hid : id' ≠ id) : t'.get? id' = t.get? id' := by
  cases h with
  | committed _ _ => exact SortedMap.get?_insert_of_ne _ _ hid
  | abandoned _ _ => exact SortedMap.get?_insert_of_ne _ _ hid
  | unavailable _ => rfl
  | adopted _ => rfl
  | refused _ _ => rfl

/-- A commit time that is told is on record. -/
theorem Finishing.committedAt {t t' : Table} {id ts : Timestamp}
    {given : Except TimestampError Timestamp} (h : Finishing t id given (.ok ts) t') :
    CommittedAt t' id ts := by
  cases h with
  | committed _ hcloses =>
    exact ⟨_, SortedMap.get?_insert_self .., hcloses.status, hcloses.commitTs⟩
  | adopted hcommitted => exact hcommitted

section Whole

variable [TimestampSource σ] {e : Engine σ} {txn : Handle}

/-- A commit that has nothing to ask for only looks things up. -/
theorem run_commit_of_not_mayCommit (h : Coherent e.registry)
    (hsettled : ¬ MayCommit e.registry.table txn.id) :
    ∃ result r', Consulted e.registry r' ∧
      (commit txn).run e = Step.ending result { e with registry := r' } ∧
      ∀ ts, result = .ok ts → CommittedAt e.registry.table txn.id ts := by
  rcases run_prepareCommit h txn with ⟨prepared, r', hconsulted, hprepare, hready, htold⟩
  have hprepared : (onRegistry (prepareCommit txn) : Action σ (Option Timestamp)).run e =
      Step.ending prepared { e with registry := r' } := run_onRegistry hprepare
  cases prepared with
  | error cause =>
    exact ⟨.error cause, r', hconsulted, Step.run_bind_of_error hprepared, by simp⟩
  | ok prepared =>
    cases prepared with
    | none => exact absurd (hready.1 rfl) hsettled
    | some ts =>
      refine ⟨.ok ts, r', hconsulted, Step.run_bind_of_ok hprepared, ?_⟩
      rintro _ ⟨⟩
      exact htold ts rfl

/-- Any other commit asks for one timestamp and finishes over the table that others left. -/
theorem run_commit_of_mayCommit (h : Coherent e.registry)
    (hmay : MayCommit e.registry.table txn.id) :
    ∃ result r', Coherent r' ∧
      Finishing e.registryMeanwhile.table txn.id e.nextAnswer.result result r'.table ∧
      (commit txn).run e = Step.ending result { e with source := e.nextSource, registry := r' } := by
  rcases run_prepareCommit h txn with ⟨prepared, r₁, hconsulted, hprepare, hready, _⟩
  obtain rfl := hready.2 hmay
  have hprepared : (onRegistry (prepareCommit txn) : Action σ (Option Timestamp)).run e =
      .ok none { e with registry := r₁ } := run_onRegistry hprepare
  let asked : Engine σ := { e with registry := r₁ }
  have hcoherent : Coherent asked.registryMeanwhile :=
    (interfered_after_interfere hconsulted.coherent _).1
  have htable : asked.registryMeanwhile.table = e.registryMeanwhile.table :=
    table_after_interfere_congr hconsulted.table _
  rcases run_finishCommit hcoherent txn asked.nextAnswer.result with
    ⟨result, r', hcoherent', hfinish, hfinishing⟩
  rw [htable] at hfinishing
  refine ⟨result, r', hcoherent', hfinishing, ?_⟩
  refine (Step.run_bind_of_ok hprepared).trans ?_
  exact (Step.run_bind_of_ok (run_nextTimestamp asked)).trans (run_onRegistry hfinish)

/-- What others do keeps every invariant of the registry. -/
theorem invariant_interfere {I : Registry → Prop} (h : Registry.Invariant I) {r : Registry}
    (hr : I r) (others : Meanwhile) : I (Step.after (interfere others) r) := by
  induction others generalizing r with
  | nil => exact hr
  | cons other others ih =>
    rw [after_interfere_cons]
    exact ih ((h.settle other.1 other.2).after hr)

/-! ## Agreement -/

/-- What a commit tells and does, whatever others do while it waits and whatever it is answered. -/
structure CommitsFaithfully (e : Engine σ) (txn : Handle) : Prop where
  /-- The commit time that it tells is on record when it returns. -/
  told {ts : Timestamp} : Step.answer (commit txn) e = .ok ts →
    CommittedAt (Step.after (commit txn) e).registry.table txn.id ts
  /-- A time that came to be on record while it waited is the one that it tells. -/
  overtaken {done rest : Meanwhile} {existing ts : Timestamp} :
    e.nextAnswer.meanwhile = done ++ rest →
      CommittedAt (Step.after (interfere done) e.registry).table txn.id existing →
        Step.answer (commit txn) e = .ok ts → ts = existing
  /-- Whoever commits the transaction later is told the same time. -/
  repeated {again : Engine σ} {ts ts' : Timestamp} : Step.answer (commit txn) e = .ok ts →
    Onward (Step.after (commit txn) e).registry again.registry →
      Step.answer (commit txn) again = .ok ts' → ts' = ts
  /-- If the transaction is settled or its parent is not active, no timestamp is asked for and
  nothing but look-ups happens. -/
  settled : ¬ MayCommit e.registry.table txn.id →
    (Step.after (commit txn) e).source = e.source ∧ (Step.after (commit txn) e).cells = e.cells ∧
      Consulted e.registry (Step.after (commit txn) e).registry
  /-- Otherwise one timestamp is asked for. -/
  asked : MayCommit e.registry.table txn.id →
    (Step.after (commit txn) e).source = e.nextSource ∧ (Step.after (commit txn) e).cells = e.cells
  /-- Without an answer the commit fails, and a transaction that is still active ends in error. -/
  unavailable {cause : TimestampError} : MayCommit e.registry.table txn.id →
    e.nextAnswer.result = .error cause →
      Step.answer (commit txn) e = .error (.timestamp cause) ∧
        ∀ old, e.registryMeanwhile.table.get? txn.id = some old → old.status = .active →
          ∃ new, (Step.after (commit txn) e).registry.table.get? txn.id = some new ∧
            new.toHandle = old.toHandle ∧ new.status = .error
  /-- An answer that is not above the transaction's id is refused, and the transaction stays
  active. -/
  early {ts : Timestamp} {old : Record} : MayCommit e.registry.table txn.id →
    e.nextAnswer.result = .ok ts → e.registryMeanwhile.table.get? txn.id = some old →
      old.status = .active → ts ≤ txn.id →
        (∃ cause, Step.answer (commit txn) e = .error cause) ∧
          (Step.after (commit txn) e).registry.table.get? txn.id = some old
  /-- An answer above it is the commit time of a transaction that is still active. -/
  timely {ts : Timestamp} {old : Record} : MayCommit e.registry.table txn.id →
    e.nextAnswer.result = .ok ts → e.registryMeanwhile.table.get? txn.id = some old →
      old.status = .active → txn.id < ts → Step.answer (commit txn) e = .ok ts
  /-- A settled record stays as others left it. -/
  final {id : Timestamp} {record : Record} : MayCommit e.registry.table txn.id →
    e.registryMeanwhile.table.get? id = some record → record.status.isTerminal = true →
      (Step.after (commit txn) e).registry.table.get? id = some record
  /-- Every other record stays as others left it. -/
  others {id : Timestamp} : MayCommit e.registry.table txn.id → id ≠ txn.id →
    (Step.after (commit txn) e).registry.table.get? id = e.registryMeanwhile.table.get? id

/-- The commit time that a commit tells is on record when it returns. -/
theorem committedAt_of_answer (h : Coherent e.registry) {ts : Timestamp}
    (htold : Step.answer (commit txn) e = .ok ts) :
    CommittedAt (Step.after (commit txn) e).registry.table txn.id ts := by
  by_cases hmay : MayCommit e.registry.table txn.id
  · rcases run_commit_of_mayCommit h hmay with ⟨result, r', _, hfinishing, hrun⟩
    rw [Step.answer_of_run hrun] at htold
    rw [Step.after_of_run hrun]
    exact (htold ▸ hfinishing).committedAt
  · rcases run_commit_of_not_mayCommit h hmay with ⟨result, r', hconsulted, hrun, hresult⟩
    rw [Step.answer_of_run hrun] at htold
    rw [Step.after_of_run hrun]
    show CommittedAt r'.table txn.id ts
    rw [hconsulted.table]
    exact hresult ts htold

theorem after_interfere_append (done rest : Meanwhile) (r : Registry) :
    Step.after (interfere (done ++ rest)) r =
      Step.after (interfere rest) (Step.after (interfere done) r) := by
  induction done generalizing r with
  | nil => rfl
  | cons other done ih => rw [List.cons_append, after_interfere_cons, ih, after_interfere_cons]

/-- What was settled while a commit waited is so when it has its answer. -/
theorem extends_registryMeanwhile (h : Coherent e.registry) {done rest : Meanwhile}
    (hmeanwhile : e.nextAnswer.meanwhile = done ++ rest) :
    Registry.Extends (Step.after (interfere done) e.registry).table e.registryMeanwhile.table := by
  rw [registryMeanwhile, hmeanwhile, after_interfere_append]
  exact (interfered_after_interfere (interfered_after_interfere h done).1 rest).2.extended

theorem extends_commit (h : Coherent e.registry) (txn : Handle) :
    Registry.Extends e.registry.table (Step.after (commit txn) e).registry.table := by
  by_cases hmay : MayCommit e.registry.table txn.id
  · rcases run_commit_of_mayCommit h hmay with ⟨result, r', _, hfinishing, hrun⟩
    rw [Step.after_of_run hrun]
    exact (extends_registryMeanwhile h (List.nil_append _).symm).trans hfinishing.extends
  · rcases run_commit_of_not_mayCommit h hmay with ⟨result, r', hconsulted, hrun, _⟩
    rw [Step.after_of_run hrun]
    show Registry.Extends _ r'.table
    rw [hconsulted.table]
    exact .refl _

theorem eq_of_overtaken (h : Coherent e.registry) {done rest : Meanwhile} {existing ts : Timestamp}
    (hmeanwhile : e.nextAnswer.meanwhile = done ++ rest)
    (hexisting : CommittedAt (Step.after (interfere done) e.registry).table txn.id existing)
    (htold : Step.answer (commit txn) e = .ok ts) : ts = existing := by
  by_cases hmay : MayCommit e.registry.table txn.id
  · rcases run_commit_of_mayCommit h hmay with ⟨result, r', _, hfinishing, hrun⟩
    rw [Step.answer_of_run hrun] at htold
    subst htold
    have hextends := (extends_registryMeanwhile h hmeanwhile).trans hfinishing.extends
    exact hfinishing.committedAt.unique (hexisting.of_extends hextends)
  · rcases run_commit_of_not_mayCommit h hmay with ⟨result, r', _, hrun, hresult⟩
    rw [Step.answer_of_run hrun] at htold
    have hextends := (interfered_after_interfere h done).2.extended
    exact ((hresult ts htold).of_extends hextends).unique hexisting

theorem eq_of_repeated (h : Coherent e.registry) {again : Engine σ} {ts ts' : Timestamp}
    (htold : Step.answer (commit txn) e = .ok ts)
    (honward : Onward (Step.after (commit txn) e).registry again.registry)
    (hagain : Step.answer (commit txn) again = .ok ts') : ts' = ts := by
  have hcoherent : Coherent (Step.after (commit txn) e).registry := by
    by_cases hmay : MayCommit e.registry.table txn.id
    · rcases run_commit_of_mayCommit h hmay with ⟨result, r', hcoherent, _, hrun⟩
      rwa [Step.after_of_run hrun]
    · rcases run_commit_of_not_mayCommit h hmay with ⟨result, r', hconsulted, hrun, _⟩
      rw [Step.after_of_run hrun]
      exact hconsulted.coherent
  rcases (Registry.invariant_extends _).onward honward ⟨hcoherent, .refl _⟩ with
    ⟨hcoherent', hextends⟩
  have hextends' := hextends.trans (extends_commit hcoherent' txn)
  exact (committedAt_of_answer hcoherent' hagain).unique
    ((committedAt_of_answer h htold).of_extends hextends')

/-- What a commit does with its answer to a transaction that is still active. -/
theorem Finishing.active_cases {t t' : Table} {id : Timestamp}
    {given : Except TimestampError Timestamp} {result : Except StorageError Timestamp}
    (h : Finishing t id given result t') (hproper : Proper t) {old : Record}
    (hfound : t.get? id = some old) (hactive : old.status = .active) :
    match given with
    | .error _ => ∃ new, t'.get? id = some new ∧ new.toHandle = old.toHandle ∧ new.status = .error
    | .ok ts => if ts ≤ id then (∃ cause, result = .error cause) ∧ t' = t else result = .ok ts := by
  have hsame : ∀ {old'}, t.get? id = some old' → old' = old :=
    fun hfound' => Option.some.inj (hfound'.symm.trans hfound)
  cases h with
  | committed hold hcloses =>
    obtain rfl := hsame hold
    have hlater := hcloses.follows _ rfl
    rw [hproper.named hfound] at hlater
    simp [not_le_of_gt hlater]
  | abandoned hold hcloses =>
    obtain rfl := hsame hold
    exact ⟨_, SortedMap.get?_insert_self .., hcloses.handle, hcloses.status⟩
  | unavailable hnone => exact absurd hactive (hnone old hfound)
  | adopted hcommitted =>
    rcases hcommitted with ⟨record, hfound', hstatus, _⟩
    obtain rfl := hsame hfound'
    rw [hactive] at hstatus
    cases hstatus
  | @refused ts cause _ hearly =>
    have hle : ts ≤ id := by
      rw [← hproper.named hfound]
      exact (hearly old hfound hactive).resolve_right (not_not.2 (hproper.unclosed hfound hactive))
    simp [hle]

theorem Finishing.result_eq {t t' : Table} {id : Timestamp} {cause : TimestampError}
    {result : Except StorageError Timestamp} (h : Finishing t id (.error cause) result t') :
    result = .error (.timestamp cause) := by
  cases h <;> rfl

/-- Whatever others do while a commit waits and whatever it is answered, the commit time that it
tells is the one on record, for this and every other call, and the call does nothing but settle
its own transaction once. -/
theorem commits_agree (h : e.registry.Reached) (txn : Handle) : CommitsFaithfully e txn := by
  have hcoherent := h.coherent
  have hproper : Proper e.registryMeanwhile.table :=
    (invariant_interfere Registry.invariant_reached h _).proper
  constructor
  case told => exact committedAt_of_answer hcoherent
  case overtaken => exact eq_of_overtaken hcoherent
  case repeated => exact eq_of_repeated hcoherent
  case settled =>
    intro hsettled
    rcases run_commit_of_not_mayCommit hcoherent hsettled with ⟨result, r', hconsulted, hrun, _⟩
    rw [Step.after_of_run hrun]
    exact ⟨rfl, rfl, hconsulted⟩
  case asked =>
    intro hmay
    rcases run_commit_of_mayCommit hcoherent hmay with ⟨result, r', _, _, hrun⟩
    rw [Step.after_of_run hrun]
    exact ⟨rfl, rfl⟩
  case unavailable =>
    intro cause hmay hgiven
    rcases run_commit_of_mayCommit hcoherent hmay with ⟨result, r', _, hfinishing, hrun⟩
    rw [hgiven] at hfinishing
    rw [Step.answer_of_run hrun, Step.after_of_run hrun]
    exact ⟨hfinishing.result_eq,
      fun old hfound hactive => hfinishing.active_cases hproper hfound hactive⟩
  case early =>
    intro ts old hmay hgiven hfound hactive hearly
    rcases run_commit_of_mayCommit hcoherent hmay with ⟨result, r', _, hfinishing, hrun⟩
    rw [hgiven] at hfinishing
    rw [Step.answer_of_run hrun, Step.after_of_run hrun]
    have hcases := hfinishing.active_cases hproper hfound hactive
    simp only [hearly, if_true] at hcases
    exact ⟨hcases.1, hcases.2 ▸ hfound⟩
  case timely =>
    intro ts old hmay hgiven hfound hactive hlater
    rcases run_commit_of_mayCommit hcoherent hmay with ⟨result, r', _, hfinishing, hrun⟩
    rw [hgiven] at hfinishing
    rw [Step.answer_of_run hrun]
    have hcases := hfinishing.active_cases hproper hfound hactive
    simpa only [not_le_of_gt hlater, if_false] using hcases
  case final =>
    intro id record hmay hfound hterminal
    rcases run_commit_of_mayCommit hcoherent hmay with ⟨result, r', _, hfinishing, hrun⟩
    rw [Step.after_of_run hrun]
    exact hfinishing.extends.terminal hfound hterminal
  case others =>
    intro id hmay hid
    rcases run_commit_of_mayCommit hcoherent hmay with ⟨result, r', _, hfinishing, hrun⟩
    rw [Step.after_of_run hrun]
    exact hfinishing.get?_of_ne hid

end Whole

/-- A transaction that began at one is committed at three by someone else while its commit waits
for an answer. -/
def overtakenCommit : Engine PreparedSource where
  source := ⟨[⟨[(⟨1⟩, .commit ⟨3⟩)], .ok ⟨5⟩⟩], .zero⟩
  registry := Step.after (Registry.Operation.start ⟨1⟩ none .snapshot).perform (.inMemory 4)
  cells := .empty

/-- The commit tells the time at which the other one committed the transaction. -/
theorem commits_agree_overtaken :
    Step.answer (commit ⟨⟨1⟩, [], .snapshot⟩) overtakenCommit = .ok ⟨3⟩ ∧
      CommittedAt (Step.after (commit ⟨⟨1⟩, [], .snapshot⟩) overtakenCommit).registry.table ⟨1⟩ ⟨3⟩ ∧
        CommitsFaithfully overtakenCommit ⟨⟨1⟩, [], .snapshot⟩ := by
  have hreached : overtakenCommit.registry.Reached :=
    .inMemory (.performed (.start ⟨1⟩ none .snapshot) .here)
  have htold : Step.answer (commit ⟨⟨1⟩, [], .snapshot⟩) overtakenCommit = .ok ⟨3⟩ := rfl
  exact ⟨htold, (commits_agree hreached _).told htold, commits_agree hreached _⟩

end Engine

end SnapshotIsolation
