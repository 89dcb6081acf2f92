import Mathlib.Data.List.Induction
import SnapshotIsolation.Proofs.Registry.Recovery

/-!
# Lives of a registry

A registry answers calls, and from time to time its process ends, perhaps before all of the
journal reached the disk, and another one opens the journal again. Throughout, the journal tells
of the operations that changed the table.

Main results:

- Theorem {lit}`Registry.Life.kept_after`: at every time the table is what the operations in the
  journal lead to.
- Theorem {lit}`Registry.Life.every_cut_recovers`: the first bytes of the journal, however many,
  bring back the operations whose frames lie within them.
-/

namespace SnapshotIsolation

open Journal (image)

namespace RegistrySite

/-- The site after an operation on its open registry, be it refused or not. -/
def perform (op : Registry.Operation) (s : RegistrySite) : RegistrySite :=
  { s with registry := s.registry.map (Step.after op.perform) }

theorem after_reopen {s : RegistrySite} {r : Registry} {slot : FileSlot}
    (hjournalled : s.journalled = true)
    (hrun : (Registry.openAt s.capacity).run { s.slot with node := s.node } = .ok r slot) :
    Step.after reopen s = { s with slot := slot, registry := some r } := by
  have hreopen : reopen.run s = .ok () { s with slot := slot, registry := some r } := by
    simp only [EStateM.run, reopen, hjournalled, if_true] at hrun ⊢
    rw [hrun]
  rw [Step.after, hreopen]

end RegistrySite

namespace Registry

/-- What happens to a registry. -/
inductive Turn where
  /-- An operation is called. -/
  | call (op : Operation)
  /-- The process ends, the last bytes of the journal are lost, and it is opened again. -/
  | reopen (lost : Nat)

/-- A registry with its journal, and the operations whose frames the journal has. -/
structure Life where
  /-- The registry and its journal. -/
  site : RegistrySite
  /-- The operations, the oldest first. -/
  kept : List Operation

namespace Life

/-- The bytes of the journal. -/
def content (l : Life) : Bytes := l.site.node.content?.getD []

/-- The operations whose frames lie entirely within the first bytes of the journal. -/
def keptWithin (l : Life) (c : Nat) : List Operation :=
  l.kept.take (Journal.Frame.countWithin (Journal.scan l.content).frames c)

/-- A life begins where no journal stands. -/
def dawn (capacity : Nat) : Life :=
  ⟨Step.after RegistrySite.reopen ⟨true, capacity, .vacant, none⟩, []⟩

/-- A call is kept if it adds to the journal. Opening again keeps what was not lost, and what was
active then is settled by operations of its own. -/
def turn (l : Life) : Turn → Life
  | .call op =>
    let site := l.site.perform op
    ⟨site, if site.node = l.site.node then l.kept else l.kept ++ [op]⟩
  | .reopen lost =>
    let survivors := l.keptWithin (l.content.length - lost)
    ⟨Step.after RegistrySite.reopen (l.site.edit (Node.shorten lost)),
      survivors ++ (enact survivors).abandonments⟩

/-- The life of a registry to which all this happened. -/
def after (capacity : Nat) (turns : List Turn) : Life := turns.foldl turn (dawn capacity)

theorem after_concat (capacity : Nat) (turns : List Turn) (next : Turn) :
    after capacity (turns ++ [next]) = (after capacity turns).turn next := by
  rw [after, List.foldl_append]
  rfl

/-- If the operation adds an entry to the journal, a frame can tell the length of it. -/
def Fits (l : Life) (op : Operation) : Prop :=
  ∀ r j, l.site.registry = some r → r.journal = some j →
    (Step.after op.perform r).journal ≠ some j →
      Journal.Entry.Fits ⟨j.nextLsn, op.txn, op.event⟩

/-- The registry is open, and its journal tells of the operations that led to it. -/
structure Kept (l : Life) : Prop where
  journalled : l.site.journalled = true
  unobstructed : l.site.slot.obstructed = false
  isOpen : ∃ r, l.site.registry = some r ∧ Keeps r l.kept

variable {l : Life} {r : Registry} {op : Operation}

theorem node_of_keeps {s : RegistrySite} {ops : List Operation} (hopen : s.registry = some r)
    (hkeeps : Keeps r ops) : s.node = .file (image (ledger ops)) := by
  rw [RegistrySite.node, hopen, Option.bind_some, hkeeps.journalNode, Option.getD_some]

theorem Kept.content_eq (h : l.Kept) : l.content = image (ledger l.kept) := by
  rcases h.isOpen with ⟨r, hopen, hkeeps⟩
  rw [content, node_of_keeps hopen hkeeps]
  rfl

theorem kept_dawn (capacity : Nat) : (dawn capacity).Kept := by
  have hscan : (Journal.scan (FileSlot.vacant.node.content?.getD [])).frames =
      (ledger []).map Journal.Frame.ofEntry :=
    congrArg Journal.Scan.frames (Journal.scan_of_split_none (by decide))
  rcases run_openAt capacity .vacant rfl (by decide) .nothing hscan with ⟨r, hrun, hkeeps, _⟩
  have hafter := RegistrySite.after_reopen (s := ⟨true, capacity, .vacant, none⟩) rfl hrun
  rw [dawn, hafter]
  exact ⟨rfl, rfl, r, rfl, hkeeps⟩

/-- A call adds one entry to the journal or leaves it alone. -/
theorem Kept.call (h : l.Kept) (hfits : l.Fits op) : (l.turn (.call op)).Kept := by
  rcases h.isOpen with ⟨r, hopen, hkeeps⟩
  have hperformed : (l.site.perform op).registry = some (Step.after op.perform r) := by
    rw [RegistrySite.perform, hopen, Option.map_some]
  have hsite : (l.turn (.call op)).site = l.site.perform op := rfl
  suffices hkeeps' : Keeps (Step.after op.perform r) (l.turn (.call op)).kept by
    constructor
    · rw [hsite]
      exact h.journalled
    · rw [hsite]
      exact h.unobstructed
    · rw [hsite]
      exact ⟨Step.after op.perform r, hperformed, hkeeps'⟩
  have hnode := node_of_keeps hopen hkeeps
  cases hput : op.put? r.table with
  | none =>
    have hkeeps' := hkeeps.perform_of_none hput
    have hsame : (l.site.perform op).node = l.site.node := by
      rw [node_of_keeps hperformed hkeeps', hnode]
    simp only [turn, if_pos hsame]
    exact hkeeps'
  | some new =>
    have hjournal := (Operation.after_perform_of_some hkeeps.coherent hput).2.2
    have hadded : (Step.after op.perform r).journal ≠ some (Journal.holding (ledger l.kept)) := by
      rw [hjournal, hkeeps.journal, Option.map_some, Journal.log_holding]
      intro heq
      have hcontent := congrArg Journal.content (Option.some.inj heq)
      exact Journal.image_concat_ne _ _ hcontent
    have hentry := hfits r (Journal.holding (ledger l.kept)) hopen hkeeps.journal hadded
    have hkeeps' := hkeeps.perform hput hentry
    have hchanged : (l.site.perform op).node ≠ l.site.node := by
      rw [node_of_keeps hperformed hkeeps', hnode, ledger_concat]
      intro heq
      exact Journal.image_concat_ne _ _ (Node.file.inj heq)
    simp only [turn, if_neg hchanged]
    exact hkeeps'

theorem node_edit_shorten {s : RegistrySite} {ops : List Operation} (hopen : s.registry = some r)
    (hkeeps : Keeps r ops) (lost : Nat) :
    (s.edit (Node.shorten lost)).node =
      .file ((image (ledger ops)).take ((image (ledger ops)).length - lost)) := by
  have hjournal : s.registry.bind Registry.journalNode = some (.file (image (ledger ops))) := by
    rw [hopen, Option.bind_some, hkeeps.journalNode]
  simp only [RegistrySite.edit, hjournal]
  simp only [RegistrySite.node, hopen, Option.map_some, Option.bind_some, Registry.editJournal,
    Registry.journalNode, hkeeps.journal]
  rfl

/-- Opening again keeps the operations that were not lost, and abandons what they left active. -/
theorem Kept.reopen (h : l.Kept) (lost : Nat) : (l.turn (.reopen lost)).Kept := by
  rcases h.isOpen with ⟨r, hopen, hkeeps⟩
  have hedited : ∃ registry, l.site.edit (Node.shorten lost) =
      { l.site with registry := registry } := by
    unfold RegistrySite.edit
    split
    · exact ⟨_, rfl⟩
    · rename_i hnone
      rw [hopen, Option.bind_some, hkeeps.journalNode] at hnone
      cases hnone
  rcases hedited with ⟨registry, hedited⟩
  have hnode := node_edit_shorten hopen hkeeps lost
  rw [hedited] at hnode
  obtain ⟨r', hrun, hkeeps', _⟩ := run_openAt_take l.site.capacity hkeeps.told
    ((image (ledger l.kept)).length - lost)
  have hafter := RegistrySite.after_reopen (s := { l.site with registry := registry })
    h.journalled (by rw [hnode]; simpa [h.unobstructed] using hrun)
  simp only [turn, hedited, hafter, keptWithin, h.content_eq]
  exact ⟨h.journalled, rfl, r', rfl, hkeeps'⟩

/-- At every time the registry is open, and its journal tells of the operations that led to it. -/
theorem kept_after {capacity : Nat} {turns : List Turn}
    (hfits : ∀ before op, before ++ [.call op] <+: turns → (after capacity before).Fits op) :
    (after capacity turns).Kept := by
  induction turns using List.reverseRecOn with
  | nil => exact kept_dawn capacity
  | append_singleton turns next ih =>
    have hkept : (after capacity turns).Kept := by
      apply ih
      intro before op hbefore
      exact hfits before op (hbefore.trans (List.prefix_append ..))
    rw [after_concat]
    cases next with
    | call op => exact hkept.call (hfits turns op (List.prefix_refl _))
    | reopen lost => exact hkept.reopen lost

/-! ## Recovering from the journal -/

theorem Kept.frames_eq (h : l.Kept) :
    (Journal.scan l.content).frames = (ledger l.kept).map Journal.Frame.ofEntry := by
  rcases h.isOpen with ⟨r, _, hkeeps⟩
  rw [h.content_eq, Journal.scan_image fun _ he => hkeeps.told.legible.fits he]

theorem Kept.keptWithin_length (h : l.Kept) : l.keptWithin l.content.length = l.kept := by
  have hcount : Journal.Frame.countWithin (Journal.scan l.content).frames l.content.length =
      l.kept.length := by
    have hbytes : l.content = (Journal.scan l.content).frames.flatMap Journal.Frame.encode := by
      rw [h.frames_eq, h.content_eq, image]
    rw [congrArg List.length hbytes, Journal.Frame.countWithin_length, h.frames_eq,
      List.length_map, length_ledger]
  rw [keptWithin, hcount, List.take_length]

/-- However many bytes are left of the journal, opening it brings back the operations whose frames
lie within them, with an error for whatever they left active. Nothing settled is lost as long as
the journal is complete, and opening again changes nothing. -/
theorem every_cut_recovers {capacity : Nat} {turns : List Turn}
    (hfits : ∀ before op, before ++ [.call op] <+: turns → (after capacity before).Fits op) :
    let l := after capacity turns
    ∃ live, l.site.registry = some live ∧ l.site.node = .file l.content ∧
      live.table = (enact l.kept).table ∧
      (Journal.scan l.content).frames.length = l.kept.length ∧
      ∀ cacheSize, ∀ c ≤ l.content.length, ∃ opened grown,
        (openAt cacheSize).run ⟨false, .file (l.content.take c)⟩ =
          .ok opened ⟨false, .file grown⟩ ∧
        opened.table = (enact (l.keptWithin c)).table.map Record.abandoned ∧
        (c = l.content.length → ∀ id record, live.table.get? id = some record →
          record.status.isTerminal = true → opened.table.get? id = some record) ∧
        ∃ again, (openAt cacheSize).run ⟨false, .file grown⟩ = .ok again ⟨false, .file grown⟩ ∧
          again.table = opened.table := by
  intro l
  have hkept : l.Kept := kept_after hfits
  rcases hkept.isOpen with ⟨live, hopen, hkeeps⟩
  refine ⟨live, hopen, ?_, hkeeps.table, ?_, ?_⟩
  · rw [hkept.content_eq, node_of_keeps hopen hkeeps]
  · rw [hkept.frames_eq, List.length_map, length_ledger]
  · intro cacheSize c _
    rcases run_openAt_take cacheSize hkeeps.told c with ⟨opened, hrun, hkeeps', htable⟩
    simp only [← hkept.content_eq] at hrun hkeeps' htable
    rcases hkeeps'.run_openAt_again htable cacheSize with ⟨again, hagain, hsame⟩
    refine ⟨opened, _, hrun, htable, ?_, again, hagain, hsame⟩
    rintro rfl id record hfound hterminal
    have hwhole := hkept.keptWithin_length
    rw [keptWithin] at hwhole
    rw [htable, hwhole, SortedMap.get?_map, ← hkeeps.table, hfound, Option.map_some,
      Record.abandoned_of_isTerminal hterminal]

/-- A nested transaction commits, but the journal loses the end of that; afterwards its parent
cannot be rolled back any more. -/
def tornCommit : List Turn :=
  [.call (.start ⟨5⟩ none .snapshot), .call (.start ⟨7⟩ (some ⟨⟨5⟩, [], .snapshot⟩) .readCommitted),
    .call (.settle ⟨7⟩ (.commit ⟨9⟩)), .reopen 3, .call (.settle ⟨5⟩ .rollback)]

theorem every_cut_recovers_tornCommit :
    (∀ before op, before ++ [.call op] <+: tornCommit → (after 2 before).Fits op) ∧
      ∀ c ≤ (after 2 tornCommit).content.length, ∃ opened grown,
        (openAt 1).run ⟨false, .file ((after 2 tornCommit).content.take c)⟩ =
          .ok opened ⟨false, .file grown⟩ ∧
        opened.table = (enact ((after 2 tornCommit).keptWithin c)).table.map Record.abandoned := by
  have hfits : ∀ before op, before ++ [.call op] <+: tornCommit → (after 2 before).Fits op := by
    intro before op hbefore
    have hmem : Turn.call op ∈ tornCommit := hbefore.subset (by simp)
    intro r j _ _ _
    simp only [tornCommit, List.mem_cons, Turn.call.injEq, reduceCtorEq, List.not_mem_nil,
      false_or, or_false] at hmem
    rcases hmem with rfl | rfl | rfl | rfl
    · exact Journal.Entry.fits_began _ _ (by decide) _
    · exact Journal.Entry.fits_began _ _ (by decide) _
    · exact Journal.Entry.fits_settled ..
    · exact Journal.Entry.fits_settled ..
  rcases every_cut_recovers hfits with ⟨_, _, _, _, _, hcuts⟩
  refine ⟨hfits, ?_⟩
  intro c hc
  rcases hcuts 1 c hc with ⟨opened, grown, hrun, htable, _⟩
  exact ⟨opened, grown, hrun, htable⟩

end Life

end Registry

end SnapshotIsolation
