import SnapshotIsolation.Proofs.Journal.Misfits
import SnapshotIsolation.Proofs.Registry.Lineage
import SnapshotIsolation.Proofs.Registry.Reached
import SnapshotIsolation.Proofs.Registry.Recovery

/-!
# Registries that can be opened again

Whatever is asked of a registry, its journal tells of the operations that made its table. If the
journal can be opened at all, then opening it leads to the same table with what was active
abandoned.

Main results:

- Theorem {lit}`Registry.invariant_chronicled`: look-ups and operations keep journal and table
  together.
- Theorem {lit}`Registry.Chronicled.openAt`: what opening the journal once more leads to.
- Theorem {lit}`Registry.Chronicled.exists_openAt`: when the journal can be opened once more.
-/

namespace SnapshotIsolation

namespace Registry

open Journal (holding image)

variable {r : Registry} {t : Table} {id : Timestamp} {ops : List Operation} {op : Operation}

/-! ## Operations that changed the table -/

/-- All of the operations changed the table. -/
inductive Chronicle : List Operation → Prop
  | nothing : Chronicle []
  | more {ops : List Operation} {op : Operation} {new : Record} : Chronicle ops →
      op.put? (enact ops).table = some new → Chronicle (ops ++ [op])

theorem Told.chronicle (h : Told ops) : Chronicle ops := by
  induction h with
  | nothing => exact .nothing
  | more _ hput _ ih => exact ih.more hput

theorem Chronicle.told (h : Chronicle ops) (hfits : ∀ e ∈ ledger ops, e.Fits) : Told ops := by
  induction h with
  | nothing => exact .nothing
  | more _ hput ih =>
    rw [ledger_concat] at hfits
    refine .more (ih fun e he => ?_) hput (hfits _ ?_)
    · exact hfits e (List.mem_append_left _ he)
    · exact List.mem_append_right _ List.mem_cons_self

/-- A transaction begins below no more others than can be counted in a word. -/
theorem countable_of_put? {new : Record} (h : op.put? t = some new) (lsn : UInt64) :
    Journal.Entry.Countable ⟨lsn, op.txn, op.event⟩ := by
  intro ancestors isolation hevent
  cases op with
  | start id parent isolation' =>
    have hfresh := Operation.freshRecord_of_put? h
    rw [Operation.event_start hfresh, Journal.Event.began.injEq] at hevent
    rw [← hevent.1]
    exact Record.length_lt_of_chainFault?_eq_none (begins_of_freshRecord hfresh).chained
  | settle id outcome => cases hevent

theorem Chronicle.countable (h : Chronicle ops) : ∀ e ∈ ledger ops, e.Countable := by
  induction h with
  | nothing => nofun
  | more _ hput ih =>
    intro e he
    rw [ledger_concat] at he
    rcases List.mem_append.1 he with he | he
    · exact ih e he
    · rw [List.mem_singleton.1 he]
      exact countable_of_put? hput _

/-! ## Registries and their journals -/

/-- The journal of a registry, if it has one, tells of the operations that made its table. -/
structure Chronicled (r : Registry) : Prop where
  coherent : Coherent r
  journal : ∀ j, r.journal = some j →
    ∃ ops, Chronicle ops ∧ r.table = (enact ops).table ∧ j = holding (ledger ops)

/-- A registry begins without records, and its journal, if it keeps one, without entries. -/
theorem chronicled_inMemory (capacity : Nat) {journal : Option Journal}
    (h : ∀ j, journal = some j → j = holding []) :
    Chronicled { inMemory capacity with journal := journal } :=
  ⟨coherent_inMemory capacity journal, fun j hj => ⟨[], .nothing, rfl, h j hj⟩⟩

theorem Keeps.chronicled (h : Keeps r ops) : Chronicled r := by
  refine ⟨h.coherent, ?_⟩
  intro j hj
  rw [h.journal, Option.some.injEq] at hj
  exact ⟨ops, h.told.chronicle, h.table, hj.symm⟩

theorem Chronicled.of_consulted {r' : Registry} (h : Chronicled r) (hconsulted : Consulted r r') :
    Chronicled r' := by
  refine ⟨hconsulted.coherent, ?_⟩
  rw [hconsulted.journal, hconsulted.table]
  exact h.journal

/-- Look-ups and operations keep journal and table together. -/
theorem invariant_chronicled : Invariant Chronicled := by
  apply invariant_of_changes Chronicled.coherent Chronicled.of_consulted
  intro r op new hr hput
  rcases Operation.after_perform_of_some hr.coherent hput with ⟨hcoherent, htable, hjournal⟩
  refine ⟨hcoherent, ?_⟩
  intro j hj
  rw [hjournal, Option.map_eq_some_iff] at hj
  rcases hj with ⟨j₀, hj₀, rfl⟩
  rcases hr.journal j₀ hj₀ with ⟨ops, hchronicle, hops, rfl⟩
  rw [hops] at hput
  refine ⟨ops ++ [op], hchronicle.more hput, ?_, ?_⟩
  · rw [htable, table_enact_concat hput, hops]
  · rw [Journal.log_holding, ledger_concat]

/-! ## Opening again -/

theorem Chronicle.openAt (h : Chronicle ops) (hfits : ∀ e ∈ ledger ops, e.Fits) (capacity : Nat) :
    ∃ opened slot, (Registry.openAt capacity).run ⟨false, .file (image (ledger ops))⟩ =
        .ok opened slot ∧
      Chronicled opened ∧ opened.table = (enact ops).table.map Record.abandoned := by
  obtain ⟨opened, hrun, hkeeps, htable⟩ := run_openAt capacity
    ⟨false, .file (image (ledger ops))⟩ rfl (by simp) (h.told hfits)
    (congrArg Journal.Scan.frames (Journal.scan_image hfits))
  exact ⟨opened, _, hrun, hkeeps.chronicled, htable⟩

theorem Chronicled.ledger_of_journalNode {node : Node} (h : Chronicled r)
    (hnode : r.journalNode = some node) :
    ∃ ops, Chronicle ops ∧ r.table = (enact ops).table ∧ node = .file (image (ledger ops)) := by
  rcases Option.map_eq_some_iff.1 hnode with ⟨j, hj, rfl⟩
  rcases h.journal j hj with ⟨ops, hchronicle, htable, rfl⟩
  exact ⟨ops, hchronicle, htable, rfl⟩

/-- A registry whose journal is opened once more has the same table, with what was active
abandoned, and is chronicled again. -/
theorem Chronicled.openAt {r' : Registry} {capacity : Nat} {slot slot' : FileSlot}
    (h : Chronicled r) (hnode : r.journalNode = some slot.node)
    (hopen : (Registry.openAt capacity).run slot = .ok r' slot') :
    Chronicled r' ∧ r'.table = r.table.map Record.abandoned := by
  rcases h.ledger_of_journalNode hnode with ⟨ops, hchronicle, htable, hfile⟩
  rcases replayed_of_openAt hopen with ⟨j, slot₁, _, _, hj, _⟩
  rcases Journal.fits_of_openAt hchronicle.countable hfile hj with ⟨hobstructed, hfits⟩
  have hslot : slot = ⟨false, .file (image (ledger ops))⟩ := by
    rw [← hobstructed, ← hfile]
  rcases hchronicle.openAt hfits capacity with ⟨opened, _, hrun, hchronicled, hopened⟩
  rw [hslot, hrun] at hopen
  cases hopen
  rw [htable]
  exact ⟨hchronicled, hopened⟩

/-- As long as its journal is no longer than a frame can tell, a registry can be opened again. -/
theorem Chronicled.exists_openAt {content : Bytes} (h : Chronicled r)
    (hnode : r.journalNode = some (.file content)) (hshort : content.length < UInt32.size)
    (capacity : Nat) :
    ∃ opened slot, (Registry.openAt capacity).run ⟨false, .file content⟩ = .ok opened slot := by
  rcases h.ledger_of_journalNode hnode with ⟨ops, hchronicle, _, hfile⟩
  cases hfile
  rcases hchronicle.openAt (Journal.fits_of_length_image hshort) capacity with
    ⟨opened, slot, hrun, _⟩
  exact ⟨opened, slot, hrun⟩

/-! ## Tables with what was active abandoned -/

/-- Abandoning what is active keeps the history of a table. -/
theorem extends_map_abandoned (t : Table) : Extends t (t.map Record.abandoned) := by
  constructor
  · intro id record hfound
    refine ⟨record.abandoned, ?_, record.toHandle_abandoned⟩
    rw [SortedMap.get?_map, hfound, Option.map_some]
  · intro id record hfound hterminal
    rw [SortedMap.get?_map, hfound, Option.map_some, Record.abandoned_of_isTerminal hterminal]

theorem exists_of_get?_map_abandoned {record : Record}
    (h : (t.map Record.abandoned).get? id = some record) :
    ∃ old, t.get? id = some old ∧ record.toHandle = old.toHandle ∧
      (record.status = .committed → record = old) := by
  rw [SortedMap.get?_map, Option.map_eq_some_iff] at h
  rcases h with ⟨old, hfound, rfl⟩
  exact ⟨old, hfound, old.toHandle_abandoned, old.abandoned_eq_of_committed⟩

theorem Sound.map_abandoned (h : Sound t) : Sound (t.map Record.abandoned) := by
  constructor
  · intro id record hfound
    rcases exists_of_get?_map_abandoned hfound with ⟨old, hold, hhandle, _⟩
    rw [hhandle, h.named hold]
  · intro id record hfound hcommitted
    rcases exists_of_get?_map_abandoned hfound with ⟨old, hold, _, hsame⟩
    obtain rfl := hsame hcommitted
    exact h.committed hold hcommitted
  · intro id parent record rest hfound hancestors
    rcases exists_of_get?_map_abandoned hfound with ⟨old, hold, hhandle, _⟩
    rw [hhandle] at hancestors
    rcases h.linked hold hancestors with ⟨hbelow, above, habove, hrest⟩
    rcases (extends_map_abandoned t).kept habove with ⟨above', habove', hhandle'⟩
    exact ⟨hbelow, above', habove', by rw [hhandle', hrest]⟩

theorem Bounded.map_abandoned (h : Bounded t) : Bounded (t.map Record.abandoned) := by
  intro id record ts hfound hcommitted hts
  rcases exists_of_get?_map_abandoned hfound with ⟨old, hold, _, hsame⟩
  obtain rfl := hsame hcommitted
  exact h id record ts hold hcommitted hts

end Registry

end SnapshotIsolation
