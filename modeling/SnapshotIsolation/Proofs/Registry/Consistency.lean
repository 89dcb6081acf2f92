import SnapshotIsolation.Proofs.Registry.Finality

/-!
# Records and the index of the active ones

What the fields of a record say fits together, whatever became of its transaction, and the index
tells which records are active. A registry that is opened over a file has neither active records
nor anything in the index, since what it replayed is abandoned before it is used.

Main results:

- Theorem {lit}`Registry.enduring_wellFormed`: begins and settlements make records whose fields fit
  together.
- Theorem {lit}`Registry.Reached.indexed`: the index of a registry holds the ids of its active
  records.
- Theorem {lit}`RegistrySite.registries_stay_consistent`: both, for a registry from its first
  opening on.
-/

namespace SnapshotIsolation

namespace Registry

variable {r r' : Registry} {t : Table} {id : Timestamp}

/-! ## Records -/

/-- What the record of an id says fits together. Its ancestors are a chain below the id. It has a
closing time if and only if it is settled: its own id if it failed, and a later time if it is
committed, at which it became visible to everyone unless it has ancestors. -/
structure WellFormed (id : Timestamp) (record : Record) : Prop where
  named : record.id = id
  chained : record.toHandle.Chained
  closed : record.commitTs.isSome = true ↔ record.status.isTerminal = true
  hidden : record.status = .active → record.globalCommitTs = none
  committed : record.status = .committed → ∃ ts, id < ts ∧ record.commitTs = some ts ∧
    record.globalCommitTs = if record.isTopLevel then some ts else none
  failed : record.status = .rolledBack ∨ record.status = .error →
    record.commitTs = some id ∧ record.globalCommitTs = none

theorem wellFormed_of_start {ancestors : List Timestamp} {isolation : Isolation} {fresh : Record}
    (h : Record.start id ancestors isolation = .ok fresh) : WellFormed id fresh := by
  rcases Record.eq_of_start h with ⟨hchain, rfl⟩
  exact ⟨rfl, Handle.chainFault?_eq_none_iff.1 hchain, by simp [Status.isTerminal], fun _ => rfl,
    by simp, by simp⟩

theorem WellFormed.commit {old new : Record} {ts : Timestamp} (h : WellFormed id old)
    (hcommit : old.commit ts = .ok new) : WellFormed id new := by
  rcases Record.commit_cases hcommit with ⟨_, rfl⟩ | ⟨hactive, hlater, rfl⟩
  · exact h
  · refine ⟨h.named, h.chained, by simp [Status.isTerminal], by simp, ?_, by simp⟩
    intro _
    refine ⟨ts, h.named ▸ hlater, rfl, ?_⟩
    rw [h.hidden hactive]
    rfl

theorem WellFormed.abandon {old new : Record} {target : Status} (h : WellFormed id old)
    (htarget : target = .rolledBack ∨ target = .error) (habandon : old.abandon target = .ok new) :
    WellFormed id new := by
  rcases Record.abandon_cases habandon with ⟨_, rfl⟩ | ⟨hactive, rfl⟩
  · exact h
  · refine ⟨h.named, h.chained, ?_, ?_, ?_, ?_⟩
    · rcases htarget with rfl | rfl <;> simp [Status.isTerminal]
    · intro _
      exact h.hidden hactive
    · intro hcommitted
      rcases htarget with rfl | rfl <;> cases hcommitted
    · intro _
      exact ⟨congrArg some h.named, h.hidden hactive⟩

/-- Begins and settlements make records whose fields fit together. -/
theorem enduring_wellFormed : Enduring WellFormed := by
  constructor
  · exact wellFormed_of_start
  · intro id outcome old new h hsettle
    cases outcome with
    | commit ts => exact h.commit hsettle
    | rollback => exact h.abandon (.inl rfl) hsettle
    | error => exact h.abandon (.inr rfl) hsettle

/-! ## The index -/

/-- The transaction is active according to the table. -/
def ActiveIn (t : Table) (id : Timestamp) : Prop :=
  ∃ record, t.get? id = some record ∧ record.status = .active

theorem activeIn_insert {k : Timestamp} {new : Record} :
    ActiveIn (t.insert id new) k ↔
      k = id ∧ new.status = .active ∨ k ≠ id ∧ ActiveIn t k := by
  unfold ActiveIn
  by_cases hk : k = id
  · subst hk
    simp
  · simp [SortedMap.get?_insert_of_ne t new hk, hk]

/-- The index holds the ids of the active records. -/
def Indexed (r : Registry) : Prop :=
  ∀ id, r.active.contains id = true ↔ ActiveIn r.table id

theorem Indexed.of_consulted (h : Indexed r) (hconsulted : Consulted r r') : Indexed r' := by
  intro id
  rw [hconsulted.active, hconsulted.table]
  exact h id

theorem Indexed.withBegun {fresh : Record} (h : Indexed r) (hactive : fresh.status = .active) :
    Indexed (r.withBegun id fresh) := by
  intro k
  simp only [Registry.withBegun, SortedMap.contains_insert, activeIn_insert, h k, hactive]
  by_cases hk : k = id <;> simp [hk]

theorem Indexed.withSettled {outcome : Outcome} {new : Record} (h : Indexed r)
    (hsettled : new.status ≠ .active) : Indexed (r.withSettled id outcome new) := by
  intro k
  simp only [Registry.withSettled, SortedMap.contains_erase, activeIn_insert, h k, hsettled,
    and_false, false_or]

/-- A record that a settlement leaves is not active. -/
theorem status_ne_active_of_settledRecord {outcome : Outcome} {new : Record}
    (h : settledRecord t id outcome = .ok new) : new.status ≠ .active := by
  rcases settledRecord_cases h with ⟨old, _, ⟨hsame, rfl⟩ | hcloses⟩
  · rw [hsame]
    exact outcome.status_ne_active
  · rw [hcloses.status]
    exact outcome.status_ne_active

theorem invariant_indexed : Invariant fun r => Coherent r ∧ Indexed r := by
  apply invariant_of_changes And.left
  · rintro r r' ⟨_, hindexed⟩ hconsulted
    exact ⟨hconsulted.coherent, hindexed.of_consulted hconsulted⟩
  · rintro r op new ⟨hcoherent, hindexed⟩ hput
    refine ⟨(Operation.after_perform_of_some hcoherent hput).1, ?_⟩
    cases op with
    | start id parent isolation =>
      rcases Operation.after_perform_start hcoherent hput with ⟨r', hconsulted, hafter⟩
      rw [hafter]
      apply (hindexed.of_consulted hconsulted).withBegun
      exact (begins_of_freshRecord (Operation.freshRecord_of_put? hput)).status
    | settle id outcome =>
      rw [Operation.after_perform_settle hput]
      apply hindexed.withSettled
      exact status_ne_active_of_settledRecord (Operation.settledRecord_of_put? hput).1

/-! ## Opening -/

/-- Nothing is in the index, and whatever is active is among the given ids. -/
structure Quieted (ids : List Timestamp) (r : Registry) : Prop where
  index : r.active = .empty
  remaining : ∀ id, ActiveIn r.table id → id ∈ ids

theorem Quieted.of_settledRecord {ids : List Timestamp} {outcome : Outcome} {new : Record}
    (h : Quieted (id :: ids) r) (hsettled : settledRecord r.table id outcome = .ok new) :
    Quieted ids (r.withSettled id outcome new) := by
  constructor
  · rw [Registry.withSettled, h.index]
    rfl
  · intro k hactive
    rcases activeIn_insert.1 hactive with ⟨_, hnew⟩ | ⟨hk, hactive⟩
    · exact absurd hnew (status_ne_active_of_settledRecord hsettled)
    · exact (List.mem_cons.1 (h.remaining k hactive)).resolve_left hk

theorem quieted_settle (id : Timestamp) (ids : List Timestamp) :
    Step.Ends (Quieted (id :: ids)) (settle id .error) (Quieted ids) fun _ => True := by
  intro r hr
  rw [run_settle]
  cases hsettled : settledRecord r.table id .error with
  | error e => trivial
  | ok new =>
    by_cases hsame : r.table.get? id = some new
    · simp only [hsame, if_true]
      refine ⟨hr.index, ?_⟩
      intro k hactive
      rcases List.mem_cons.1 (hr.remaining k hactive) with rfl | hk
      · rcases hactive with ⟨record, hfound, hactive⟩
        rw [hsame, Option.some.injEq] at hfound
        exact absurd (hfound ▸ hactive) (status_ne_active_of_settledRecord hsettled)
      · exact hk
    · simp only [hsame, if_false]
      exact hr.of_settledRecord hsettled

theorem quieted_forM_settle (ids : List Timestamp) :
    Step.Ends (Quieted ids) (ids.forM fun id => settle id .error) (Quieted [])
      fun _ => True := by
  induction ids with
  | nil => exact Step.ends_pure () fun _ hr => hr
  | cons id ids ih =>
    rw [List.forM]
    exact (quieted_settle id ids).bind fun _ => ih

/-- A registry that was opened over a file has no active records and an empty index. -/
theorem quieted_of_openAt {capacity : Nat} {slot slot' : FileSlot}
    (h : (openAt capacity).run slot = .ok r slot') : Quieted [] r := by
  rcases replayed_of_openAt h with ⟨journal, _, _, t, _, _, hrun⟩
  have hreplayed : Quieted (inFlight { inMemory capacity with
      table := t, journal := some journal.readAll.2 })
      { inMemory capacity with table := t, journal := some journal.readAll.2 } :=
    ⟨rfl, fun id hactive => mem_inFlight.2 hactive⟩
  have hend := quieted_forM_settle _ _ hreplayed
  rw [abandonInFlight, Step.run_bind_of_ok (by rfl)] at hrun
  rwa [hrun] at hend

theorem Quieted.indexed (h : Quieted [] r) : Indexed r := by
  intro id
  rw [h.index]
  constructor
  · nofun
  · intro hactive
    exact absurd (h.remaining id hactive) List.not_mem_nil

/-- The index of a registry holds the ids of its active records. -/
theorem Reached.indexed (h : Reached r) : Indexed r := by
  cases h with
  | @inMemory capacity _ honward =>
    have hempty : Indexed (Registry.inMemory capacity) := by
      intro id
      constructor
      · nofun
      · rintro ⟨_, hfound, _⟩
        cases hfound
    exact (invariant_indexed.onward honward ⟨coherent_inMemory capacity none, hempty⟩).2
  | @opened _ _ _ r₀ _ hopen honward =>
    have hopened : Reached r₀ := .opened hopen .here
    exact (invariant_indexed.onward honward
      ⟨hopened.coherent, (quieted_of_openAt hopen).indexed⟩).2

/-! ## The least active transaction -/

theorem Indexed.lowWatermark_eq_none_iff (h : Indexed r) :
    r.lowWatermark = none ↔ ∀ id, ¬ ActiveIn r.table id := by
  rw [lowWatermark, SortedMap.minKey?_eq_none_iff]
  simp only [h _]

theorem Indexed.lowWatermark_eq_some_iff (h : Indexed r) {least : Timestamp} :
    r.lowWatermark = some least ↔
      ActiveIn r.table least ∧ ∀ id, ActiveIn r.table id → least ≤ id := by
  rw [lowWatermark, SortedMap.minKey?_eq_some_iff]
  simp only [h _, ne_eq, compare_lt_iff_lt, not_lt]

end Registry

namespace RegistrySite

open Registry (Reached WellFormed ActiveIn)

variable {s₀ s : RegistrySite}

theorem Fresh.reached {r : Registry} (h : Fresh s) (hr : s.registry = some r) : r.Reached := by
  cases h with
  | inMemory capacity slot =>
    cases hr
    exact .inMemory .here
  | journalled hcontent => cases hr

theorem reached_of_reopen {r : Registry} (hjournalled : s.journalled = true)
    (hr : (Step.after reopen s).registry = some r) :
    ∃ slot slot', (Registry.openAt s.capacity).run slot = .ok r slot' := by
  cases hrun : (Registry.openAt s.capacity).run { s.slot with node := s.node } with
  | error e slot' =>
    rw [after_reopen_of_error hjournalled hrun] at hr
    cases hr
  | ok opened slot' =>
    rw [after_reopen hjournalled hrun] at hr
    cases hr
    exact ⟨_, slot', hrun⟩

theorem Later.reached (h : Later s₀ s) (hfresh : Fresh s₀) :
    ∀ r, s.registry = some r → r.Reached := by
  have hasked : ∀ {α : Type} {act : Registry.Action α} {s : RegistrySite},
      Step.Preserves Reached act → (∀ r, s.registry = some r → r.Reached) →
        ∀ r, (s.asked act).registry = some r → r.Reached := by
    intro α act s hact hs r hr
    rcases Option.map_eq_some_iff.1 hr with ⟨before, hbefore, rfl⟩
    exact hact.after (hs before hbefore)
  induction h with
  | here => exact fun r => hfresh.reached
  | found id _ ih => exact hasked (Registry.invariant_reached.find id) ih
  | judged id _ ih => exact hasked (Registry.invariant_reached.effectiveStatus id) ih
  | performed op _ ih => exact hasked (Registry.invariant_reached.perform op) ih
  | reopened _ hjournalled _ =>
    intro r hr
    rcases reached_of_reopen hjournalled hr with ⟨_, _, hrun⟩
    exact .opened hrun .here
  | altered _ _ _ ih => exact ih

/-- Whatever is asked of a registry, and however often it is closed and opened over its journal
again, what each of its records says fits together, the index holds the ids of the active ones, and
the low watermark is the least of these if there is one. When it was just opened over its journal,
there is none. -/
theorem registries_stay_consistent (hfresh : Fresh s₀) (h : Later s₀ s) :
    (∀ r, s.registry = some r →
      (∀ id record, r.table.get? id = some record → WellFormed id record) ∧
      (∀ id, r.active.contains id = true ↔ ActiveIn r.table id) ∧
      (∀ least, r.lowWatermark = some least ↔
        ActiveIn r.table least ∧ ∀ id, ActiveIn r.table id → least ≤ id) ∧
      (r.lowWatermark = none ↔ ∀ id, ¬ ActiveIn r.table id)) ∧
    (s.journalled = true → ∀ r, (Step.after reopen s).registry = some r →
      ∀ id, ¬ ActiveIn r.table id) := by
  constructor
  · intro r hr
    have hreached := h.reached hfresh r hr
    have hindexed := hreached.indexed
    exact ⟨(Registry.enduring_wellFormed.reached hreached).2, hindexed,
      fun _ => hindexed.lowWatermark_eq_some_iff, hindexed.lowWatermark_eq_none_iff⟩
  · intro hjournalled r hr id hactive
    rcases reached_of_reopen hjournalled hr with ⟨_, _, hrun⟩
    exact List.not_mem_nil ((Registry.quieted_of_openAt hrun).remaining id hactive)

/-- Of two chains of transactions one is committed and the other one still has an active member,
until the registry is closed and opened again. -/
theorem registries_stay_consistent_twoChains :
    ∃ r r', withTwoChains.registry = some r ∧
      (Step.after reopen withTwoChains).registry = some r' ∧
      WellFormed ⟨2⟩ ⟨⟨⟨2⟩, [⟨1⟩], .snapshot⟩, .committed, some ⟨3⟩, none⟩ ∧
      r.active.contains ⟨6⟩ = true ∧ r.lowWatermark = some ⟨6⟩ ∧ ∀ id, ¬ ActiveIn r'.table id := by
  have hfresh : Fresh ⟨true, 1, .vacant, none⟩ := .journalled rfl
  have hrecalls := later_withTwoChains.recalls hfresh.recalls
  obtain ⟨r', hr'⟩ := hrecalls.exists_registry rfl rfl (by decide +kernel) (by decide +kernel)
  rcases registries_stay_consistent hfresh later_withTwoChains with ⟨hopen, hreopened⟩
  rcases hopen _ rfl with ⟨hrecords, hindex, _, _⟩
  refine ⟨_, r', rfl, hr', hrecords ⟨2⟩ _ (by decide +kernel), ?_, by decide +kernel,
    hreopened rfl r' hr'⟩
  exact (hindex ⟨6⟩).2 ⟨⟨⟨⟨6⟩, [⟨5⟩], .snapshot⟩, .active, none, none⟩, by decide +kernel, rfl⟩

end RegistrySite

end SnapshotIsolation
