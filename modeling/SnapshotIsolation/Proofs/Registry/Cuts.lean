import SnapshotIsolation.Proofs.Registry.Finality

/-!
# Journals that lost their end

Some of the last bytes of a journal may be lost while nobody has it open. Unlike a crash of the
process, that may also take entries that no frame can tell the length of, and the journal can be
opened only if it did.

Main results:

- Theorem {lit}`Registry.Chronicle.openAt_take`: what opening leads to when bytes were lost.
- Theorems {lit}`Registry.lasting_remembers` and {lit}`Registry.lasting_remains`: what holds of a
  registry and its journal however often it is closed and opened, if no bytes are lost and if some
  are.
-/

namespace SnapshotIsolation

namespace Registry

open Journal (image)

variable {ops : List Operation}

theorem Chronicle.take (h : Chronicle ops) (k : Nat) : Chronicle (ops.take k) := by
  induction h with
  | nothing =>
    rw [List.take_nil]
    exact .nothing
  | @more ops op _ hchronicle hput ih =>
    by_cases hk : k ≤ ops.length
    · rw [List.take_append_of_le_length hk]
      exact ih
    · have hall : (ops ++ [op]).length ≤ k := by
        simp only [List.length_append, List.length_singleton]
        omega
      rw [List.take_of_length_le hall]
      exact hchronicle.more hput

/-- Opening a journal of which the first bytes are left leads to a registry that goes on from the
first of the operations, or fails and leaves the bytes alone. -/
theorem Chronicle.openAt_take {n : Nat} {slot : FileSlot} (h : Chronicle ops)
    (hcontent : slot.node.content?.getD [] = (image (ledger ops)).take n) (capacity : Nat) :
    (∃ e slot', (Registry.openAt capacity).run slot = .error e slot' ∧
        slot'.node.content?.getD [] = slot.node.content?.getD []) ∨
      ∃ r slot' k, (Registry.openAt capacity).run slot = .ok r slot' ∧
        Succeeds true (enact (ops.take k)).table r ∧ r.journalNode = some slot'.node ∧
        ((image (ledger ops)).length ≤ n → ops.length ≤ k) := by
  cases hjournal : Journal.openAt.run slot with
  | error e slot' =>
    refine .inl ⟨.journal e, slot', ?_, Journal.content_of_openAt_error hjournal⟩
    rw [Registry.openAt, Step.run_bind_of_error (Step.run_mapError_of_error hjournal)]
  | ok j slot' =>
    rcases Journal.exists_take_of_openAt h.countable hcontent hjournal with
      ⟨hfree, hfile, k, hframes, hfits⟩
    rw [ledger_take] at hframes hfits
    obtain ⟨r, hrun, hkeeps, htable⟩ :=
      run_openAt capacity slot hfree hfile ((h.take k).told hfits) hframes
    refine .inr ⟨r, _, k, hrun, ⟨hkeeps.chronicled, ?_, ?_⟩, hkeeps.journalNode, ?_⟩
    · intro _
      rw [hkeeps.journal]
      rfl
    · rw [htable]
      exact extends_map_abandoned _
    · intro hwhole
      rw [List.take_of_length_le hwhole] at hcontent
      have hall := (h.fits_of_openAt hcontent hjournal).2.2
      rw [hcontent, Journal.scan_image hall] at hframes
      have hlength := congrArg List.length hframes
      simp only [List.length_map, length_ledger, List.length_take] at hlength
      omega

section Endings

variable {n capacity : Nat} {slot slot' : FileSlot} {r : Registry}

theorem Chronicle.succeeds_of_openAt (h : Chronicle ops)
    (hcontent : slot.node.content?.getD [] = (image (ledger ops)).take n)
    (hopen : (Registry.openAt capacity).run slot = .ok r slot') :
    ∃ k, Succeeds true (enact (ops.take k)).table r ∧ r.journalNode = some slot'.node ∧
      ((image (ledger ops)).length ≤ n → ops.length ≤ k) := by
  rcases h.openAt_take hcontent capacity with ⟨e, slot₁, hrun, _⟩ | ⟨r₁, slot₁, k, hrun, hopened⟩
  · rw [hrun] at hopen
    cases hopen
  · rw [hrun] at hopen
    cases hopen
    exact ⟨k, hopened⟩

theorem Chronicle.content_of_openAt_error {e : StorageError} (h : Chronicle ops)
    (hcontent : slot.node.content?.getD [] = (image (ledger ops)).take n)
    (hopen : (Registry.openAt capacity).run slot = .error e slot') :
    slot'.node.content?.getD [] = slot.node.content?.getD [] := by
  rcases h.openAt_take hcontent capacity with ⟨e₁, slot₁, hrun, hsame⟩ | ⟨r₁, slot₁, k, hrun, _⟩
  · rw [hrun] at hopen
    cases hopen
    exact hsame
  · rw [hrun] at hopen
    cases hopen

end Endings

/-! ## What lasts -/

/-- What is said of open registries and of the bytes of closed journals carries over from the ones to
the others, whenever a registry is closed or opened. -/
structure Lasting (O : Registry → Prop) (C : Bytes → Prop) : Prop where
  invariant : Invariant O
  closes {r : Registry} : O r →
    ∃ content, r.journal.map Journal.close = some (.file content) ∧ C content
  opens {capacity : Nat} {slot slot' : FileSlot} {r : Registry} :
    C (slot.node.content?.getD []) → (openAt capacity).run slot = .ok r slot' →
      O r ∧ C (slot'.node.content?.getD [])
  refuses {capacity : Nat} {slot slot' : FileSlot} {e : StorageError} :
    C (slot.node.content?.getD []) → (openAt capacity).run slot = .error e slot' →
      C (slot'.node.content?.getD [])

/-- The bytes are a journal that goes on from a table. -/
def Remembers (t : Table) (content : Bytes) : Prop :=
  ∃ ops, Chronicle ops ∧ content = image (ledger ops) ∧ Extends t (enact ops).table

/-- The bytes are what is left of a journal. -/
def Remains (content : Bytes) : Prop :=
  ∃ ops n, Chronicle ops ∧ content = (image (ledger ops)).take n

variable {t : Table} {r : Registry} {content : Bytes}

theorem Remains.take (h : Remains content) (m : Nat) : Remains (content.take m) := by
  rcases h with ⟨ops, n, hchronicle, rfl⟩
  exact ⟨ops, min m n, hchronicle, List.take_take ..⟩

theorem Succeeds.exists_close (h : Succeeds true t r) :
    ∃ content, r.journal.map Journal.close = some (.file content) ∧
      r.journalNode = some (.file content) ∧ Remembers t content := by
  rcases Option.isSome_iff_exists.1 (h.journal rfl) with ⟨j, hj⟩
  rcases h.chronicled.journal j hj with ⟨ops, hchronicle, hops, rfl⟩
  refine ⟨image (ledger ops), ?_, ?_, ops, hchronicle, rfl, hops ▸ h.history⟩
  · rw [hj, Option.map_some, Journal.close, Journal.flush_holding]
    rfl
  · rw [journalNode, hj]
    rfl

theorem Succeeds.remembers {node : Node} (h : Succeeds true t r)
    (hnode : r.journalNode = some node) : Remembers t (node.content?.getD []) := by
  rcases h.exists_close with ⟨content, _, hfile, hremembers⟩
  rw [hnode, Option.some.injEq] at hfile
  exact hfile ▸ hremembers

/-- A journal that loses no bytes remembers all that it was told. -/
theorem lasting_remembers (t : Table) : Lasting (Succeeds true t) (Remembers t) where
  invariant := invariant_succeeds
  closes h := by
    rcases h.exists_close with ⟨content, hclose, _, hremembers⟩
    exact ⟨content, hclose, hremembers⟩
  opens := by
    rintro capacity slot slot' r ⟨ops, hchronicle, hcontent, hextends⟩ hopen
    have hwhole := hcontent.trans (List.take_length ..).symm
    rcases hchronicle.succeeds_of_openAt hwhole hopen with ⟨k, hsucceeds, hnode, hall⟩
    rw [List.take_of_length_le (hall (Nat.le_refl _))] at hsucceeds
    have hlater : Succeeds true t r :=
      ⟨hsucceeds.chronicled, hsucceeds.journal, hextends.trans hsucceeds.history⟩
    exact ⟨hlater, hlater.remembers hnode⟩
  refuses := by
    rintro capacity slot slot' e ⟨ops, hchronicle, hcontent, hextends⟩ hopen
    have hwhole := hcontent.trans (List.take_length ..).symm
    have hsame := hchronicle.content_of_openAt_error hwhole hopen
    exact ⟨ops, hchronicle, hsame.trans hcontent, hextends⟩

end Registry

end SnapshotIsolation
