import SnapshotIsolation.Proofs.Registry.Chronicles
import SnapshotIsolation.Proofs.Registry.Lives
import SnapshotIsolation.Proofs.Registry.Statuses

/-!
# Final outcomes

A settled record never changes, and neither does what a transaction counts for once its chain has
settled it. That is so for a registry that is operated on and for one that is closed and opened
over its journal again, whatever handles its transactions began under.

Main results:

- Theorem {lit}`RegistrySite.Later.recalls`: whatever happens to a registry goes on from its table.
- Theorem {lit}`RegistrySite.outcomes_are_final`: what its chain settled a transaction with is final
  from the first opening of the registry on.
-/

namespace SnapshotIsolation

namespace Registry

variable {α β : Type} {t t' : Table} {r : Registry} {id : Timestamp} {ids : List Timestamp}

/-! ## Later registries -/

/-- The registry is chronicled, in a journal if it is to keep one, and its table goes on from an
earlier one. -/
structure Succeeds (journalled : Bool) (t : Table) (r : Registry) : Prop where
  chronicled : Chronicled r
  journal : journalled = true → r.journal.isSome = true
  history : Extends t r.table

variable {journalled : Bool}

theorem Succeeds.of_consulted {r' : Registry} (h : Succeeds journalled t r)
    (hconsulted : Consulted r r') : Succeeds journalled t r' := by
  refine ⟨h.chronicled.of_consulted hconsulted, ?_, ?_⟩
  · rw [hconsulted.journal]
    exact h.journal
  · rw [hconsulted.table]
    exact h.history

theorem invariant_succeeds : Invariant (Succeeds journalled t) := by
  apply invariant_of_changes (fun h => h.chronicled.coherent) Succeeds.of_consulted
  intro r op new hr hput
  have hcoherent := hr.chronicled.coherent
  refine ⟨(invariant_chronicled.perform op).after hr.chronicled, ?_,
    (((invariant_extends t).perform op).after ⟨hcoherent, hr.history⟩).2⟩
  rw [(Operation.after_perform_of_some hcoherent hput).2.2, Option.isSome_map]
  exact hr.journal

/-- A journal that tells of operations can be opened only if nothing is in the way and all of its
entries fit their frames. -/
theorem Chronicle.fits_of_openAt {ops : List Operation} {slot slot' : FileSlot} {j : Journal}
    (h : Chronicle ops) (hcontent : slot.node.content?.getD [] = Journal.image (ledger ops))
    (hopen : Journal.openAt.run slot = .ok j slot') :
    slot.obstructed = false ∧ slot.node ≠ .directory ∧ ∀ e ∈ ledger ops, e.Fits := by
  rcases Journal.openAt_eq_ok hopen with ⟨hfree, hfile, found, hentries, _⟩
  rw [hcontent] at hentries
  exact ⟨hfree, hfile, Journal.fits_of_entries_scan h.countable hentries⟩

end Registry

/-! ## Sites -/

/-- A journal that cannot be opened is left as it was. -/
theorem Journal.content_of_openAt_error {slot slot' : FileSlot} {e : JournalError}
    (h : openAt.run slot = .error e slot') :
    slot'.node.content?.getD [] = slot.node.content?.getD [] := by
  rcases slot with ⟨obstructed, node⟩
  cases obstructed with
  | true =>
    cases h
    rfl
  | false =>
    by_cases hfile : node = .directory
    · subst hfile
      cases h
      rfl
    · rw [run_openAt_of_ne_directory hfile, run_openAt_file] at h
      cases hentries : (scan (node.content?.getD [])).entries with
      | ok found =>
        rw [hentries] at h
        cases h
      | error cause =>
        rw [hentries] at h
        cases h
        rfl

namespace RegistrySite

open Registry (Table Chronicle Extends Operation Succeeds enact ledger)

variable {s s' : RegistrySite} {t : Table}

/-- No registry was opened here before: it is kept in memory, or over a journal without bytes. -/
inductive Fresh : RegistrySite → Prop
  | inMemory (capacity : Nat) (slot : FileSlot) :
      Fresh ⟨false, capacity, slot, some (.inMemory capacity)⟩
  | journalled {capacity : Nat} {slot : FileSlot} : slot.node.content?.getD [] = [] →
      Fresh ⟨true, capacity, slot, none⟩

/-- The site once something was asked of its registry, if that is open. -/
def asked {α : Type} (act : Registry.Action α) (s : RegistrySite) : RegistrySite :=
  { s with registry := s.registry.map (Step.after act) }

/-- From one state of a site to a later one. The registry is looked up in and operated on. It may
be closed and opened over its journal at any time, with a cache of another size; while the path is
obstructed, it cannot be opened. -/
inductive Later (s₀ : RegistrySite) : RegistrySite → Prop
  | here : Later s₀ s₀
  | found {s : RegistrySite} (id : Timestamp) : Later s₀ s → Later s₀ (s.asked (Registry.find id))
  | judged {s : RegistrySite} (id : Timestamp) : Later s₀ s →
      Later s₀ (s.asked (Registry.effectiveStatus id))
  | performed {s : RegistrySite} (op : Operation) : Later s₀ s → Later s₀ (s.asked op.perform)
  | reopened {s : RegistrySite} : Later s₀ s → s.journalled = true → Later s₀ (Step.after reopen s)
  | altered {s : RegistrySite} (capacity : Nat) (obstructed : Bool) : Later s₀ s →
      Later s₀ { s with capacity := capacity, slot := { s.slot with obstructed := obstructed } }

/-- What the site holds goes on from an earlier table: its registry while that is open, and what its
journal tells of while it is closed. -/
inductive Recalls (s : RegistrySite) (t : Table) : Prop
  | opened {r : Registry} : s.registry = some r → Succeeds s.journalled t r → Recalls s t
  | closed {ops : List Operation} : s.registry = none → s.journalled = true → Chronicle ops →
      s.slot.node.content?.getD [] = Journal.image (ledger ops) → Extends t (enact ops).table →
      Recalls s t

theorem Fresh.recalls (h : Fresh s) : Recalls s .empty := by
  cases h with
  | inMemory capacity slot =>
    exact .opened rfl ⟨Registry.chronicled_inMemory capacity nofun, nofun, .refl _⟩
  | journalled hcontent => exact .closed rfl rfl .nothing hcontent (.refl _)

theorem Recalls.succeeds {r : Registry} (h : Recalls s t) (hr : s.registry = some r) :
    Succeeds s.journalled t r := by
  cases h with
  | opened hopen hsucceeds =>
    rw [hr, Option.some.injEq] at hopen
    exact hopen ▸ hsucceeds
  | closed hclosed _ _ _ _ =>
    rw [hr] at hclosed
    cases hclosed

theorem Recalls.asked {α : Type} {act : Registry.Action α} (h : Recalls s t)
    (hact : Step.Preserves (Succeeds s.journalled t) act) : Recalls (s.asked act) t := by
  cases h with
  | opened hopen hsucceeds =>
    exact .opened (by rw [RegistrySite.asked, hopen]; rfl) (hact.after hsucceeds)
  | closed hclosed hjournalled hchronicle hcontent hextends =>
    exact .closed (by rw [RegistrySite.asked, hclosed]; rfl) hjournalled hchronicle hcontent
      hextends

/-- Open or closed, a registry with a journal has the history of its table there. -/
theorem Recalls.exists_ledger (h : Recalls s t) (hjournalled : s.journalled = true) :
    ∃ ops, Chronicle ops ∧ Extends t (enact ops).table ∧
      s.node.content?.getD [] = Journal.image (ledger ops) := by
  cases h with
  | @opened r hopen hsucceeds =>
    rcases Option.isSome_iff_exists.1 (hsucceeds.journal hjournalled) with ⟨j, hj⟩
    have hnode : r.journalNode = some j.node := by rw [Registry.journalNode, hj, Option.map_some]
    rcases hsucceeds.chronicled.ledger_of_journalNode hnode with ⟨ops, hchronicle, hops, hfile⟩
    refine ⟨ops, hchronicle, hops ▸ hsucceeds.history, ?_⟩
    rw [RegistrySite.node, hopen, Option.bind_some, hnode, Option.getD_some, hfile]
    rfl
  | closed hclosed _ hchronicle hcontent hextends =>
    refine ⟨_, hchronicle, hextends, ?_⟩
    rw [RegistrySite.node, hclosed]
    exact hcontent

theorem after_reopen_of_error {e : StorageError} {slot : FileSlot} (hjournalled : s.journalled = true)
    (hrun : (Registry.openAt s.capacity).run { s.slot with node := s.node } = .error e slot) :
    Step.after reopen s = { s with slot := slot, registry := none } := by
  have hreopen : reopen.run s = .error e { s with slot := slot, registry := none } := by
    simp only [EStateM.run, RegistrySite.reopen, hjournalled, if_true] at hrun ⊢
    rw [hrun]
  rw [Step.after, hreopen]

/-- If all that a journal tells of fits its frames and nothing is in the way, the registry is opened
again with what was active abandoned. -/
theorem exists_after_reopen {ops : List Operation} (hjournalled : s.journalled = true)
    (hfree : s.slot.obstructed = false) (hfile : s.node ≠ .directory) (h : Chronicle ops)
    (hfits : ∀ e ∈ ledger ops, e.Fits)
    (hcontent : s.node.content?.getD [] = Journal.image (ledger ops)) :
    ∃ r slot, Step.after reopen s = { s with slot := slot, registry := some r } ∧
      Succeeds s.journalled (enact ops).table r := by
  have hscan := congrArg Journal.Scan.frames (Journal.scan_image hfits)
  rw [← hcontent] at hscan
  obtain ⟨r, hrun, hkeeps, htable⟩ :=
    Registry.run_openAt s.capacity { s.slot with node := s.node } hfree hfile (h.told hfits) hscan
  refine ⟨r, _, after_reopen hjournalled hrun, hkeeps.chronicled, ?_, ?_⟩
  · intro _
    rw [hkeeps.journal]
    rfl
  · rw [htable]
    exact Registry.extends_map_abandoned _

/-- Opening the registry again abandons what was active, or fails and loses nothing. -/
theorem Recalls.reopen (h : Recalls s t) (hjournalled : s.journalled = true) :
    Recalls (Step.after reopen s) t := by
  rcases h.exists_ledger hjournalled with ⟨ops, hchronicle, hextends, hcontent⟩
  cases hjournal : Journal.openAt.run { s.slot with node := s.node } with
  | error e slot =>
    have hrun : (Registry.openAt s.capacity).run { s.slot with node := s.node } =
        .error (.journal e) slot := by
      rw [Registry.openAt, Step.run_bind_of_error (Step.run_mapError_of_error hjournal)]
    rw [after_reopen_of_error hjournalled hrun]
    have hkept := Journal.content_of_openAt_error hjournal
    exact .closed rfl hjournalled hchronicle (hkept.trans hcontent) hextends
  | ok j slot =>
    rcases hchronicle.fits_of_openAt hcontent hjournal with ⟨hfree, hfile, hfits⟩
    rcases exists_after_reopen hjournalled hfree hfile hchronicle hfits hcontent with
      ⟨r, slot', hafter, hsucceeds⟩
    rw [hafter]
    exact .opened rfl ⟨hsucceeds.chronicled, hsucceeds.journal,
      hextends.trans hsucceeds.history⟩

/-- A registry can be opened again as long as its journal is no longer than a frame can tell. -/
theorem Recalls.exists_registry (h : Recalls s t) (hjournalled : s.journalled = true)
    (hfree : s.slot.obstructed = false) (hfile : s.node ≠ .directory)
    (hshort : (s.node.content?.getD []).length < UInt32.size) :
    ∃ r, (Step.after RegistrySite.reopen s).registry = some r := by
  rcases h.exists_ledger hjournalled with ⟨ops, hchronicle, _, hcontent⟩
  have hfits := Journal.fits_of_length_image (hcontent ▸ hshort)
  rcases exists_after_reopen hjournalled hfree hfile hchronicle hfits hcontent with
    ⟨r, slot, hafter, _⟩
  exact ⟨r, by rw [hafter]⟩

/-- Whatever happens at the site goes on from the table. -/
theorem Later.recalls (h : Later s s') (ht : Recalls s t) : Recalls s' t := by
  induction h with
  | here => exact ht
  | found id _ ih => exact ih.asked (Registry.invariant_succeeds.find id)
  | judged id _ ih => exact ih.asked (Registry.invariant_succeeds.effectiveStatus id)
  | performed op _ ih => exact ih.asked (Registry.invariant_succeeds.perform op)
  | reopened _ hjournalled ih => exact ih.reopen hjournalled
  | altered capacity obstructed _ ih =>
    cases ih with
    | opened hopen hsucceeds => exact .opened hopen hsucceeds
    | closed hclosed hjournalled hchronicle hcontent hextends =>
      exact .closed hclosed hjournalled hchronicle hcontent hextends

theorem Later.foldl_performed {s₀ : RegistrySite} (h : Later s₀ s) (ops : List Operation) :
    Later s₀ (ops.foldl (fun s op => s.asked op.perform) s) := by
  induction ops generalizing s with
  | nil => exact h
  | cons op ops ih => exact ih (h.performed op)

/-- Outcomes are final. A settled record is found unchanged ever after, and whatever becomes of the
other transactions of its chain, a transaction that counts as committed does so ever after, at the
same time, and one that counts as failed goes on counting as failed. -/
theorem outcomes_are_final {s₀ : RegistrySite} {r r' : Registry} (hfresh : Fresh s₀)
    (h : Later s₀ s) (h' : Later s s') (hr : s.registry = some r) (hr' : s'.registry = some r')
    (id : Timestamp) :
    (∀ record, Step.answer (Registry.find id) r = .ok record → record.status.isTerminal = true →
        Step.answer (Registry.find id) r' = .ok record) ∧
      (∀ ts, Step.answer (Registry.effectiveStatus id) r = .ok (.committed ts) →
        Step.answer (Registry.effectiveStatus id) r' = .ok (.committed ts)) ∧
      ∀ status, Step.answer (Registry.effectiveStatus id) r = .ok (.failed status) →
        ∃ status', Step.answer (Registry.effectiveStatus id) r' = .ok (.failed status') ∧
          (status' = .rolledBack ∨ status' = .error) := by
  have hsucceeds := (h.recalls hfresh.recalls).succeeds hr
  have hfrom : Recalls s r.table :=
    .opened hr ⟨hsucceeds.chronicled, hsucceeds.journal, .refl _⟩
  have hsucceeds' := (h'.recalls hfrom).succeeds hr'
  have hcoherent := hsucceeds.chronicled.coherent
  have hcoherent' := hsucceeds'.chronicled.coherent
  have hextends := hsucceeds'.history
  rw [Registry.answer_find hcoherent, Registry.answer_find hcoherent',
    Registry.answer_effectiveStatus_eq hcoherent, Registry.answer_effectiveStatus_eq hcoherent']
  refine ⟨fun record => Registry.lookUp_of_extends hextends,
    fun ts => Registry.statusIn_committed_of_extends hextends, ?_⟩
  intro status hfailed
  rcases Registry.statusIn_failed_of_extends hextends hfailed with ⟨status', hstatus', hfailed'⟩
  exact ⟨status', hstatus', Status.isFailed_iff.1 hfailed'⟩

/-- Where no journal stood, a registry is opened without records. -/
theorem after_reopen_vacant (capacity : Nat) :
    Step.after reopen ⟨true, capacity, .vacant, none⟩ =
      ⟨true, capacity, ⟨false, .file []⟩,
        some { Registry.inMemory capacity with journal := some (.holding []) }⟩ := by
  apply after_reopen rfl
  have hjournal : Journal.openAt.run .vacant = .ok (.holding []) ⟨false, .file []⟩ :=
    Journal.run_openAt_missing
  change (Registry.openAt capacity).run .vacant = _
  rw [Registry.openAt, Step.run_bind_of_ok (Step.run_mapError_of_ok hjournal)]
  simp only [Journal.readAll_holding Journal.legible_nil]
  rfl

/-- A transaction commits under another one that commits later, and a third is rolled back above a
fourth that is still active. -/
def twoChains : List Operation :=
  [.start ⟨1⟩ none .snapshot, .start ⟨2⟩ (some ⟨⟨1⟩, [], .snapshot⟩) .snapshot,
    .settle ⟨2⟩ (.commit ⟨3⟩), .settle ⟨1⟩ (.commit ⟨4⟩), .start ⟨5⟩ none .snapshot,
    .start ⟨6⟩ (some ⟨⟨5⟩, [], .snapshot⟩) .snapshot, .settle ⟨5⟩ .rollback]

/-- The site where all this happened. -/
def withTwoChains : RegistrySite :=
  twoChains.foldl (fun s op => s.asked op.perform)
    ⟨true, 1, ⟨false, .file []⟩, some { Registry.inMemory 1 with journal := some (.holding []) }⟩

theorem later_withTwoChains : Later ⟨true, 1, .vacant, none⟩ withTwoChains := by
  have hopened : Later ⟨true, 1, .vacant, none⟩
      (Step.after reopen ⟨true, 1, .vacant, none⟩) := .reopened .here rfl
  rw [after_reopen_vacant] at hopened
  exact hopened.foldl_performed twoChains

/-- The fourth transaction is settled as an error, and the registry is closed and opened again. -/
theorem outcomes_are_final_reopened :
    let s := withTwoChains.asked (Operation.perform (.settle ⟨6⟩ .error))
    ∃ r r', withTwoChains.registry = some r ∧ (Step.after reopen s).registry = some r' ∧
      Step.answer (Registry.effectiveStatus ⟨2⟩) r = .ok (.committed ⟨4⟩) ∧
      Step.answer (Registry.effectiveStatus ⟨2⟩) r' = .ok (.committed ⟨4⟩) ∧
      Step.answer (Registry.effectiveStatus ⟨6⟩) r = .ok (.failed .rolledBack) ∧
      ∃ status, Step.answer (Registry.effectiveStatus ⟨6⟩) r' = .ok (.failed status) := by
  intro s
  have hfresh : Fresh ⟨true, 1, .vacant, none⟩ := .journalled rfl
  have hlater : Later withTwoChains s := Later.here.performed _
  have hrecalls := hlater.recalls (later_withTwoChains.recalls hfresh.recalls)
  obtain ⟨r', hr'⟩ := hrecalls.exists_registry rfl rfl (by decide +kernel) (by decide +kernel)
  have hfinal := outcomes_are_final hfresh later_withTwoChains (hlater.reopened rfl) rfl hr'
  refine ⟨_, r', rfl, hr', by decide +kernel, ?_, by decide +kernel, ?_⟩
  · exact (hfinal ⟨2⟩).2.1 _ (by decide +kernel)
  · rcases (hfinal ⟨6⟩).2.2 .rolledBack (by decide +kernel) with ⟨status, hstatus, _⟩
    exact ⟨status, hstatus⟩

end RegistrySite

end SnapshotIsolation
