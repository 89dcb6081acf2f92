import SnapshotIsolation.Proofs.Cell.Compacting
import SnapshotIsolation.Proofs.Engine.Effects
import SnapshotIsolation.Proofs.Registry.Caching
import SnapshotIsolation.Proofs.Registry.Consistency

/-!
# Refused calls

An operation checks everything before it changes anything, so one that is refused leaves records,
index, journal and cells as they were. The only call that acts although it fails is a commit that
is given no timestamp: it settles its own transaction as an error, so that nobody finds it
committed later.

While a call waits for a timestamp others may settle transactions. What the call itself leaves
behind is told from the registry as they left it.

Main results:

- Theorem {lit}`Registry.Operation.alike_of_answer_error`: a refused operation on the registry.
- Theorem {lit}`Registry.stranded_after_settle`: what settling an active transaction as an error
  does.
- Theorem {lit}`Engine.refusals_leave_no_trace`: any refused operation and any refused call.
-/

namespace SnapshotIsolation

open Registry (Table Coherent Consulted Alike ActiveIn CacheBlind)

/-! ## Operations on the registry -/

namespace Registry

variable {r r' r₁ : Registry} {id : Timestamp}

/-- A refused operation leaves records, index and journal as they were. -/
theorem Operation.alike_of_answer_error (op : Operation) {cause : StorageError} (h : Coherent r)
    (hrefused : Step.answer op.perform r = .error cause) :
    Alike r (Step.after op.perform r) := by
  cases hput : op.put? r.table with
  | none => exact (consulted_after_perform h hput).alike h
  | some new =>
    rw [answer_perform_of_put? h hput] at hrefused
    cases hrefused

theorem alike_of_start_error {parent : Option Handle} {isolation : Isolation} {cause : StorageError}
    (h : Coherent r) (hrefused : Step.answer (start id parent isolation) r = .error cause) :
    Alike r (Step.after (start id parent isolation) r) := by
  have hperform : Step.answer (Operation.start id parent isolation).perform r = .error cause := by
    rw [Operation.perform, Step.answer_map, hrefused]
    rfl
  have halike := Operation.alike_of_answer_error (.start id parent isolation) h hperform
  rwa [Operation.perform, Step.after_map] at halike

/-- Between two registries one active record was settled as an error, it went from the index, and
the journal tells of that in one entry at its end. -/
structure Stranded (id : Timestamp) (r r' : Registry) : Prop where
  record : ∃ old, r.table.get? id = some old ∧ old.status = .active ∧
    r'.table = r.table.insert id old.abandoned
  index : r'.active = r.active.erase id
  journal : r'.journal = r.journal.map fun j => (j.log id (.settled .error)).2
  told {entries : List Journal.Entry} : r.journal = some (.holding entries) →
    r'.journal = some (.holding
      (entries ++ [⟨entries.foldl Journal.lsnAfter 0, id, .settled .error⟩]))

theorem Stranded.congr (h : Stranded id r₁ r') (halike : Alike r r₁) : Stranded id r r' := by
  rcases h with ⟨hrecord, hindex, hjournal, htold⟩
  rw [← halike.table] at hrecord
  rw [← halike.active] at hindex
  rw [← halike.journal] at hjournal
  exact ⟨hrecord, hindex, hjournal, fun hholding => htold (halike.journal ▸ hholding)⟩

/-- Settling an active transaction as an error goes ahead. -/
theorem stranded_after_settle (h : ActiveIn r.table id) :
    Stranded id r (Step.after (settle id .error) r) := by
  rcases h with ⟨old, hfound, hactive⟩
  have hafter : Step.after (settle id .error) r = r.withSettled id .error old.abandoned :=
    Operation.after_perform_settle (put?_settle_error hfound hactive)
  rw [hafter]
  refine ⟨⟨old, hfound, hactive, rfl⟩, rfl, rfl, ?_⟩
  intro entries hjournal
  simp only [withSettled, hjournal, Option.map_some, Journal.log_holding]

/-- Settling any other transaction as an error changes nothing. -/
theorem after_settle_error_of_not_activeIn (hcoherent : Coherent r) (h : ¬ ActiveIn r.table id) :
    Step.after (settle id .error) r = r := by
  rcases settle_cases hcoherent id .error with
    ⟨_, hrun, _⟩ | ⟨hrun, _⟩ | ⟨_, old, _, _, _, _, hfound, hcloses⟩
  · exact Step.after_of_run hrun
  · exact Step.after_of_run hrun
  · exact absurd ⟨old, hfound, hcloses.wasActive⟩ h

end Registry

/-! ## Calls of the engine -/

/-- The call is a commit that was given no timestamp while its transaction was active. -/
def Call.Strands (call : Call) (asked : List Answer) (t : Table) (id : Timestamp) : Prop :=
  ∃ txn others cause, call = .commit txn ∧ txn.id = id ∧ asked = [⟨others, .error cause⟩] ∧
    ActiveIn t id

namespace Engine

variable {σ α : Type}

/-- The registry as others leave it by the time that all of the answers have come. -/
def registryAfter (e : Engine σ) (asked : List Answer) : Registry :=
  Step.after (interfere (asked.flatMap (·.meanwhile))) e.registry

/-- What a refused call leaves behind once it was given the answers that it asked for. -/
structure Refused (call : Call) (asked : List Answer) (e e' : Engine (RecordedSource σ)) :
    Prop where
  /-- No other answers were asked for. -/
  answers : e'.source.answers = e.source.answers ++ asked
  /-- All cells are as they were. -/
  cells : e'.cells = e.cells
  /-- If nobody settled anything while the call waited, it is told from the registry as it was. -/
  alone : (∀ a ∈ asked, a.meanwhile = []) → e.registryAfter asked = e.registry
  /-- Records, index and journal are as others left them. -/
  undone : (∀ id, ¬ call.Strands asked (e.registryAfter asked).table id) →
    Alike (e.registryAfter asked) e'.registry
  /-- Only a commit that was given no timestamp settles its own record. -/
  stranded {id : Timestamp} : call.Strands asked (e.registryAfter asked).table id →
    Registry.Stranded id (e.registryAfter asked) e'.registry

theorem registryAfter_of_alone (e : Engine σ) {asked : List Answer}
    (h : ∀ a ∈ asked, a.meanwhile = []) : e.registryAfter asked = e.registry := by
  rw [registryAfter, List.flatMap_eq_nil_iff.2 h]
  rfl

/-- What others do is a matter of records, index and journal. -/
theorem cacheBlind_interfere (others : Meanwhile) : CacheBlind (interfere others) := by
  intro r₁ r₂ halike
  constructor
  · rw [Step.answer, Step.answer, run_interfere, run_interfere]
  · induction others generalizing r₁ r₂ with
    | nil => exact halike
    | cons other others ih =>
      rw [after_interfere_cons, after_interfere_cons]
      exact ih _ _ (Registry.cacheBlind_settle other.1 other.2 r₁ r₂ halike).2

/-! ### Commits that have their answer -/

/-- A commit that is refused although it was given a timestamp has changed nothing. -/
theorem alike_of_finishCommit_error {r : Registry} (h : Coherent r) {txn : Handle} {ts : Timestamp}
    {cause : StorageError} (hrefused : Step.answer (finishCommit txn (.ok ts)) r = .error cause) :
    Alike r (Step.after (finishCommit txn (.ok ts)) r) := by
  have hsettling := Step.run_eq_ending (Registry.settle txn.id (.commit ts)) r
  cases hresult : Step.answer (Registry.settle txn.id (.commit ts)) r with
  | ok _ =>
    rw [hresult] at hsettling
    rw [finishCommit, Step.answer_bind_of_ok (Step.run_ofState_attempt hsettling)] at hrefused
    cases hrefused
  | error e =>
    rw [hresult] at hsettling
    have halike : Alike r (Step.after (Registry.settle txn.id (.commit ts)) r) :=
      Registry.Operation.alike_of_answer_error (.settle txn.id (.commit ts)) h hresult
    generalize Step.after (Registry.settle txn.id (.commit ts)) r = r₁ at hsettling halike
    rw [finishCommit, Step.after_bind_of_ok (Step.run_ofState_attempt hsettling)]
    split
    · rename_i heq
      cases heq
    · rcases run_adoptCommit halike.right txn with ⟨_, r', hconsulted, hadopt, _⟩
      rw [Step.after_of_run hadopt]
      exact halike.of_consulted (.refl h) hconsulted
    · exact halike

/-! ### Each call -/

variable {e e' : Engine (RecordedSource σ)} {call : Call} {cause : StorageError} {txn : Handle}

/-- A call that asked for nothing and changed nothing. -/
theorem Refused.unasked (halike : Alike e.registry e'.registry)
    (hanswers : e'.source.answers = e.source.answers) (hcells : e'.cells = e.cells) :
    Refused call [] e e' where
  answers := by rw [hanswers, List.append_nil]
  cells := hcells
  alone := registryAfter_of_alone e
  undone := fun _ => halike
  stranded := by
    rintro id ⟨_, _, _, _, _, hasked, _⟩
    cases hasked

/-- A call passes on how the operation behind it ends. -/
theorem exists_refused_of_map [TimestampSource σ] {act : Action (RecordedSource σ) α}
    {f : α → Option Handle} (hcall : call.perform = f <$> act)
    (h : ∀ cause, Step.answer act e = .error cause →
      ∃ asked, Refused call asked e (Step.after act e))
    (hrefused : Step.answer call.perform e = .error cause) :
    ∃ asked, Refused call asked e (Step.after call.perform e) := by
  rw [hcall, Step.answer_map] at hrefused
  rw [hcall, Step.after_map]
  cases hact : Step.answer act e with
  | ok a =>
    rw [hact] at hrefused
    cases hrefused
  | error cause => exact h cause hact

/-- Readings change nothing, whether they are refused or not. -/
theorem refused_reading {act : Reading α} (h : Coherent e.registry)
    (hdetermined : Reading.Determined e.registry.table act) :
    Refused call [] e (Step.after (reading act) e) := by
  rcases hdetermined with ⟨result, hanswers⟩
  rcases run_reading h hanswers with ⟨r', hconsulted, hrun⟩
  rw [Step.after_of_run hrun]
  exact .unasked (hconsulted.alike h) rfl rfl

/-- A compaction pass refuses no row, so it is not refused itself. -/
theorem exists_run_compact (e : Engine σ) : ∃ stats e', compact.run e = .ok stats e' := by
  rcases CompactionPass.hook.calls_or_refuses (e.registry, .start) e.cells e.cells.rows with
    ⟨replies, ⟨r, p⟩, hcalls⟩ | ⟨_, row, _, _, q, cause, _, _, _, hrefuses⟩
  · obtain ⟨s, _, hrun⟩ := CellStore.run_compact_of_calls CompactionPass.keepsPlaces_hook hcalls
    exact ⟨_, _, run_compact_of_ok hrun⟩
  · exact absurd hrefuses (CompactionPass.not_refuses_hook q (e.cells.row row))

/-- A call that is refused because its transaction is not active has changed nothing. -/
theorem refused_inactive {next : Unit → Action (RecordedSource σ) α} {r' : Registry}
    (halike : Alike e.registry r')
    (hrun : (ensureActive txn).run e = .error cause { e with registry := r' }) :
    Refused call [] e (Step.after (ensureActive txn >>= next) e) := by
  rw [Step.after, Step.run_bind_of_error hrun]
  exact .unasked halike rfl rfl

theorem refused_write (h : Coherent e.registry) {row : Bytes} {columns : List (Bytes × Bytes)}
    (hrefused : Step.answer (write txn row columns) e = .error cause) :
    Refused call [] e (Step.after (write txn row columns) e) := by
  rcases run_ensureActive h txn with ⟨result, r₁, hconsulted₁, hrun, hactive⟩
  cases result with
  | error cause => exact refused_inactive (hconsulted₁.alike h) hrun
  | ok _ =>
    rcases hactive.1 rfl with ⟨record, hfound, hstatus⟩
    obtain ⟨answer, hanswers⟩ :=
      determined_seesTombstone (t := e.registry.table) txn (e.cells.row row)
    rcases run_write h hfound hstatus hanswers columns with
      ⟨r', hconsulted, ⟨cause, _, hwrite⟩ | ⟨cancels, _, hwrite⟩⟩
    · rw [Step.after, hwrite]
      exact .unasked (hconsulted.alike h) rfl rfl
    · rw [Step.answer, hwrite] at hrefused
      cases hrefused

theorem refused_delete (h : Coherent e.registry) {row : Bytes}
    (hrefused : Step.answer (delete txn row) e = .error cause) :
    Refused call [] e (Step.after (delete txn row) e) := by
  rcases run_ensureActive h txn with ⟨result, r₁, hconsulted₁, hrun, hactive⟩
  cases result with
  | error cause => exact refused_inactive (hconsulted₁.alike h) hrun
  | ok _ =>
    rcases hactive.1 rfl with ⟨record, hfound, hstatus⟩
    rcases run_delete h hfound hstatus row with ⟨r', _, hdelete⟩
    rw [Step.answer, hdelete] at hrefused
    cases hrefused

theorem refused_rollback (h : Coherent e.registry)
    (hrefused : Step.answer (rollback txn) e = .error cause) :
    Refused call [] e (Step.after (rollback txn) e) := by
  rw [rollback, answer_onRegistry] at hrefused
  rw [rollback, after_onRegistry]
  exact .unasked (Registry.Operation.alike_of_answer_error (.settle txn.id .rollback) h hrefused)
    rfl rfl

variable [TimestampSource σ]

theorem registryAfter_nextAnswer (e : Engine σ) :
    e.registryAfter [e.nextAnswer] = e.registryMeanwhile := by
  simp only [registryAfter, registryMeanwhile, List.flatMap_singleton]

/-- A call that waited for an answer, was not stranded by it and changed nothing. -/
theorem Refused.asked {r' : Registry} (halike : Alike e.registryMeanwhile r')
    (hgiven : ∀ txn cause, call = .commit txn → e.nextAnswer.result ≠ .error cause) :
    Refused call [e.nextAnswer] e { e with source := e.nextSource, registry := r' } where
  answers := rfl
  cells := rfl
  alone := registryAfter_of_alone e
  undone := fun _ => (registryAfter_nextAnswer e).symm ▸ halike
  stranded := by
    rintro id ⟨txn, others, cause, hcommit, _, hasked, _⟩
    rw [List.singleton_inj] at hasked
    exact absurd (congrArg Answer.result hasked) (hgiven txn cause hcommit)

theorem refused_start (h : Coherent e.registry) {isolation : Isolation} {parent : Option Handle}
    (hrefused : Step.answer (start isolation parent) e = .error cause) :
    Refused (.start isolation parent) [e.nextAnswer] e (Step.after (start isolation parent) e) := by
  have hcoherent : Coherent e.registryMeanwhile := (interfered_after_interfere h _).1
  rw [start, Step.answer_bind_of_ok (run_nextTimestamp e)] at hrefused
  rw [start, Step.after_bind_of_ok (run_nextTimestamp e)]
  cases hgiven : e.nextAnswer.result with
  | error reason => exact .asked (.refl hcoherent) nofun
  | ok id =>
    simp only [hgiven, answer_onRegistry] at hrefused
    simp only [after_onRegistry]
    exact .asked (Registry.alike_of_start_error hcoherent hrefused) nofun

/-- A commit that has to ask finishes over the registry that others left. -/
theorem run_commit_asking (h : Coherent e.registry) (hmay : MayCommit e.registry.table txn.id) :
    ∃ r, Alike e.registryMeanwhile r ∧
      (commit txn).run e = Step.ending (Step.answer (finishCommit txn e.nextAnswer.result) r)
        { e with source := e.nextSource,
                 registry := Step.after (finishCommit txn e.nextAnswer.result) r } := by
  rcases run_prepareCommit h txn with ⟨prepared, r₁, hconsulted, hprepare, hready, _⟩
  obtain rfl := hready.2 hmay
  have hprepared : (onRegistry (prepareCommit txn)).run e = .ok none { e with registry := r₁ } :=
    run_onRegistry hprepare
  refine ⟨Step.after (interfere e.nextAnswer.meanwhile) r₁,
    (cacheBlind_interfere _ _ _ (hconsulted.alike h)).2, ?_⟩
  unfold commit
  rw [Step.run_bind_of_ok hprepared]
  exact (Step.run_bind_of_ok (run_nextTimestamp { e with registry := r₁ })).trans
    (run_onRegistry (Step.run_eq_ending ..))

theorem refused_commit_of_mayCommit (h : Coherent e.registry)
    (hmay : MayCommit e.registry.table txn.id)
    (hrefused : Step.answer (commit txn) e = .error cause) :
    Refused (.commit txn) [e.nextAnswer] e (Step.after (commit txn) e) := by
  rcases run_commit_asking h hmay with ⟨r, halike, hrun⟩
  rw [Step.answer_of_run hrun] at hrefused
  rw [Step.after_of_run hrun]
  cases hgiven : e.nextAnswer.result with
  | ok ts =>
    rw [hgiven] at hrefused
    refine .asked (halike.trans (alike_of_finishCommit_error halike.right hrefused)) ?_
    simp [hgiven]
  | error reason =>
    have hfinished : Step.after (finishCommit txn (.error reason)) r =
        Step.after (Registry.settle txn.id .error) r := by
      rw [Step.after, run_finishCommit_of_settle (Step.run_eq_ending ..)]
    rw [hfinished]
    have hstrands (hactive : ActiveIn e.registryMeanwhile.table txn.id) :
        (Call.commit txn).Strands [e.nextAnswer] (e.registryAfter [e.nextAnswer]).table txn.id :=
      ⟨txn, e.nextAnswer.meanwhile, reason, rfl, rfl, by rw [← hgiven],
        (registryAfter_nextAnswer e).symm ▸ hactive⟩
    refine ⟨rfl, rfl, registryAfter_of_alone e, ?_, ?_⟩
    · intro hnot
      have hsettled : ¬ ActiveIn r.table txn.id :=
        fun hactive => hnot txn.id (hstrands (halike.table.symm ▸ hactive))
      rw [registryAfter_nextAnswer,
        Registry.after_settle_error_of_not_activeIn halike.right hsettled]
      exact halike
    · rintro _ ⟨_, _, _, ⟨⟩, rfl, _, hactive⟩
      rw [registryAfter_nextAnswer] at hactive ⊢
      exact (Registry.stranded_after_settle (halike.table ▸ hactive)).congr halike

theorem exists_refused_commit (h : Coherent e.registry)
    (hrefused : Step.answer (commit txn) e = .error cause) :
    ∃ asked, Refused (.commit txn) asked e (Step.after (commit txn) e) := by
  by_cases hmay : MayCommit e.registry.table txn.id
  · exact ⟨[e.nextAnswer], refused_commit_of_mayCommit h hmay hrefused⟩
  · rcases run_commit_of_not_mayCommit h hmay with ⟨_, r', hconsulted, hrun, _⟩
    rw [Step.after_of_run hrun]
    exact ⟨[], .unasked (hconsulted.alike h) rfl rfl⟩

/-- An operation or call that is refused, in any state that can be reached, leaves records, index,
journal and cells as they were. The exception is a commit that is given no timestamp while its
transaction is active. -/
theorem refusals_leave_no_trace (h : e.registry.Reached) :
    (∀ (op : Registry.Operation) cause, Step.answer op.perform e.registry = .error cause →
      Alike e.registry (Step.after op.perform e.registry)) ∧
    ∀ (call : Call) cause, Step.answer call.perform e = .error cause →
      ∃ asked, Refused call asked e (Step.after call.perform e) := by
  have hcoherent := h.coherent
  refine ⟨fun op _ => op.alike_of_answer_error hcoherent, fun call cause => ?_⟩
  cases call with
  | start isolation parent =>
    exact exists_refused_of_map rfl fun _ hrefused => ⟨_, refused_start hcoherent hrefused⟩
  | write txn row columns =>
    exact exists_refused_of_map rfl fun _ hrefused => ⟨[], refused_write hcoherent hrefused⟩
  | delete txn row =>
    exact exists_refused_of_map rfl fun _ hrefused => ⟨[], refused_delete hcoherent hrefused⟩
  | commit txn =>
    exact exists_refused_of_map rfl fun _ hrefused => exists_refused_commit hcoherent hrefused
  | rollback txn =>
    exact exists_refused_of_map rfl fun _ hrefused => ⟨[], refused_rollback hcoherent hrefused⟩
  | readRow txn row =>
    exact exists_refused_of_map rfl fun _ _ =>
      ⟨[], refused_reading hcoherent (Reading.determined_readRow ..)⟩
  | isVisible c txn =>
    exact exists_refused_of_map rfl fun _ _ =>
      ⟨[], refused_reading hcoherent (Reading.determined_isWriterVisible ..)⟩
  | compact =>
    refine exists_refused_of_map rfl fun _ hrefused => ?_
    rcases exists_run_compact e with ⟨stats, e', hrun⟩
    rw [Step.answer, hrun] at hrefused
    cases hrefused
  | rememberWatermark =>
    refine exists_refused_of_map rfl fun _ _ => ?_
    rcases run_rememberWatermark e with ⟨_, source, hrun⟩
    rw [Step.after_of_run hrun]
    exact ⟨[], .unasked (.refl hcoherent) rfl rfl⟩

/-- Two transactions are active. While anyone waits for the next timestamp, the second is rolled
back; then there is none. -/
def strandedCommit : Engine (RecordedSource PreparedSource) where
  source := ⟨⟨[⟨[(⟨2⟩, .rollback)], .error PreparedTransport.exhausted⟩], .zero⟩, []⟩
  registry := Registry.enact [.start ⟨1⟩ none .snapshot, .start ⟨2⟩ none .snapshot]
  cells := .empty

/-- The first transaction's commit settles it as an error, beside what others did. A write for a
transaction that never began is refused as well. -/
theorem refusals_leave_no_trace_stranded :
    let first : Handle := ⟨⟨1⟩, [], .snapshot⟩
    let unknown : Handle := ⟨⟨3⟩, [], .snapshot⟩
    let left := Step.after (Call.commit first).perform strandedCommit
    strandedCommit.registry.Reached ∧
      Step.answer (Call.commit first).perform strandedCommit =
        .error (.timestamp PreparedTransport.exhausted) ∧
      (left.registry.table.get? ⟨1⟩).map (·.status) = some .error ∧
      (left.registry.table.get? ⟨2⟩).map (·.status) = some .rolledBack ∧
      (∃ asked, Refused (.commit first) asked strandedCommit left) ∧
      Step.answer (Call.write unknown [] []).perform strandedCommit =
        .error (.transaction (.notFound ⟨3⟩)) ∧
      ∃ asked, Refused (.write unknown [] []) asked strandedCommit
        (Step.after (Call.write unknown [] []).perform strandedCommit) := by
  have hreached : strandedCommit.registry.Reached := Registry.reached_enact _
  have hcommit : Step.answer (Call.commit ⟨⟨1⟩, [], .snapshot⟩).perform strandedCommit =
      .error (.timestamp PreparedTransport.exhausted) := rfl
  have hwrite : Step.answer (Call.write ⟨⟨3⟩, [], .snapshot⟩ [] []).perform strandedCommit =
      .error (.transaction (.notFound ⟨3⟩)) := rfl
  exact ⟨hreached, hcommit, rfl, rfl, (refusals_leave_no_trace hreached).2 _ _ hcommit, hwrite,
    (refusals_leave_no_trace hreached).2 _ _ hwrite⟩

end Engine

end SnapshotIsolation
