import Mathlib.Data.List.Induction
import SnapshotIsolation.Proofs.Journal.Holding
import SnapshotIsolation.Proofs.Timestamp.Order

/-!
# Histories of a journal

A journal is added to, flushed, read, closed and opened again, in whatever order. As long as nobody
else touches its file, the file and the write buffer together have the entries that were added, one
behind the other; a flush leaves the buffer empty, and readings move nothing.

Main results:

- Theorem {lit}`Journal.inOrder_mergeSort`: reading sorts by number and keeps the file order of equal
  numbers.
- Theorem {lit}`JournalSite.History.kept_after`: file and buffer have the entries that were added.
- Theorem {lit}`JournalSite.History.entries_stay_in_order`: what this means for the file, for readings and for
  the numbers of the entries.
-/

namespace SnapshotIsolation

namespace Journal

variable {entries : List Entry} {e : Entry}

/-! ## Numbers -/

/-- The number of the entry is not the greatest of all, so that another one can follow it. -/
def Entry.HasNext (e : Entry) : Prop := e.lsn.toNat + 1 < UInt64.size

theorem toNat_lsnAfter (h : e.HasNext) (next : UInt64) :
    (lsnAfter next e).toNat = max next.toNat (e.lsn.toNat + 1) := by
  have hnext : e.lsn.toNat < 0xFFFFFFFFFFFFFFFF := Nat.lt_sub_of_add_lt h
  rw [lsnAfter, Timestamp.toNat_max, Timestamp.toNat_add_one hnext]

theorem toNat_foldl_lsnAfter (h : ∀ e ∈ entries, e.HasNext) (next : UInt64) :
    (entries.foldl lsnAfter next).toNat =
      (entries.map fun e => e.lsn.toNat + 1).foldl max next.toNat := by
  induction entries generalizing next with
  | nil => rfl
  | cons e entries ih =>
    rw [List.foldl_cons, ih fun a ha => h a (List.mem_cons_of_mem _ ha),
      toNat_lsnAfter (h e List.mem_cons_self), List.map_cons, List.foldl_cons]

/-- The next number is the one after the greatest number so far, or zero if there is none. -/
theorem toNat_next (h : ∀ e ∈ entries, e.HasNext) :
    (entries.foldl lsnAfter 0).toNat = (entries.map (·.lsn.toNat)).max?.elim 0 (· + 1) := by
  rw [toNat_foldl_lsnAfter h, List.foldl_max]
  cases hmax : (entries.map (·.lsn.toNat)).max? with
  | none =>
    have hnil : entries = [] := List.map_eq_nil_iff.1 (List.max?_eq_none_iff.1 hmax)
    rw [hnil]
    rfl
  | some top =>
    rcases List.max?_eq_some_iff.1 hmax with ⟨hmem, hle⟩
    have hsucc : (entries.map fun e => e.lsn.toNat + 1).max? = some (top + 1) := by
      apply List.max?_eq_some_iff.2
      constructor
      · rcases List.mem_map.1 hmem with ⟨e, he, rfl⟩
        exact List.mem_map.2 ⟨e, he, rfl⟩
      · intro n hn
        rcases List.mem_map.1 hn with ⟨e, he, rfl⟩
        exact Nat.succ_le_succ (hle _ (List.mem_map.2 ⟨e, he, rfl⟩))
    rw [hsucc]
    exact Nat.max_eq_right (Nat.zero_le _)

/-- The entries have the numbers from zero on, in order. -/
def Numbered (entries : List Entry) : Prop :=
  entries.map (·.lsn.toNat) = List.range entries.length

theorem Numbered.toNat_next (h : Numbered entries) (hnext : ∀ e ∈ entries, e.HasNext) :
    (entries.foldl lsnAfter 0).toNat = entries.length := by
  rw [Journal.toNat_next hnext, h]
  cases entries.length with
  | zero => rfl
  | succ n =>
    have hmax : (List.range (n + 1)).max? = some n := by
      apply List.max?_eq_some_iff.2
      constructor
      · exact List.self_mem_range_succ
      · intro m hm
        exact Nat.le_of_lt_succ (List.mem_range.1 hm)
    rw [hmax]
    rfl

/-- Entries stay numbered when one is added under the next number. -/
theorem Numbered.concat (h : Numbered entries) (hnext : ∀ e ∈ entries, e.HasNext)
    (hlsn : e.lsn = entries.foldl lsnAfter 0) : Numbered (entries ++ [e]) := by
  have hlast : e.lsn.toNat = entries.length := by rw [hlsn, h.toNat_next hnext]
  rw [Numbered, List.map_append, List.length_append, List.length_singleton, List.range_succ, h,
    List.map_singleton, hlast]

/-- Numbered entries are sorted as they are. -/
theorem Numbered.mergeSort_eq (h : Numbered entries) :
    (entries.mergeSort fun a b => a.lsn ≤ b.lsn) = entries := by
  apply List.mergeSort_of_pairwise
  have hascending : (entries.map (·.lsn.toNat)).Pairwise (· < ·) := by
    rw [h]
    exact List.pairwise_lt_range
  apply (List.pairwise_map.1 hascending).imp
  intro a b hab
  exact decide_eq_true (UInt64.le_iff_toNat_le.2 (Nat.le_of_lt hab))

/-! ## Sorting -/

/-- The same entries in the order of their numbers; those of one number stay in their order. -/
structure InOrder (entries sorted : List Entry) : Prop where
  perm : sorted.Perm entries
  ascending : sorted.Pairwise fun a b => a.lsn ≤ b.lsn
  stable (lsn : UInt64) : sorted.filter (·.lsn = lsn) = entries.filter (·.lsn = lsn)

theorem inOrder_mergeSort (entries : List Entry) :
    InOrder entries (entries.mergeSort fun a b => a.lsn ≤ b.lsn) := by
  have htrans : ∀ a b c : Entry, decide (a.lsn ≤ b.lsn) = true → decide (b.lsn ≤ c.lsn) = true →
      decide (a.lsn ≤ c.lsn) = true := by
    intro a b c hab hbc
    exact decide_eq_true (UInt64.le_trans (of_decide_eq_true hab) (of_decide_eq_true hbc))
  have htotal : ∀ a b : Entry, (decide (a.lsn ≤ b.lsn) || decide (b.lsn ≤ a.lsn)) = true := by
    intro a b
    rcases UInt64.le_total a.lsn b.lsn with hab | hba
    · simp [hab]
    · simp [hba]
  have hperm := List.mergeSort_perm entries fun a b => decide (a.lsn ≤ b.lsn)
  constructor
  · exact hperm
  · exact (List.pairwise_mergeSort htrans htotal entries).imp fun hab => of_decide_eq_true hab
  · intro lsn
    -- entries of one number are in order already, so sorting keeps them one behind the other
    have hequal : (entries.filter (·.lsn = lsn)).Pairwise fun a b => decide (a.lsn ≤ b.lsn) := by
      apply List.pairwise_of_forall_mem_list
      intro a ha b hb
      have hle : a.lsn ≤ b.lsn := by
        rw [of_decide_eq_true (List.mem_filter.1 ha).2, of_decide_eq_true (List.mem_filter.1 hb).2]
        exact UInt64.le_refl lsn
      exact decide_eq_true hle
    have hkept := (List.sublist_mergeSort htrans htotal hequal List.filter_sublist).filter
      fun e => decide (e.lsn = lsn)
    simp only [List.filter_filter, Bool.and_self] at hkept
    exact (hkept.eq_of_length (hperm.filter _).length_eq.symm).symm

/-- What is found of a journal with the given entries: the file at its path consists of their frames,
iterating meets them as they stand there, and reading sorts them by number. -/
structure Shows (j : Journal) (entries : List Entry) : Prop where
  node : j.node = .file (image entries)
  items : j.items.1 = entries.map .ok
  readAll : ∃ sorted, j.readAll.1 = .ok sorted ∧ InOrder entries sorted

theorem shows_buffering {written : List Entry} (h : ∀ e ∈ written, e.Fits) (waiting : List Entry) :
    Shows (buffering written waiting) written := by
  constructor
  · rfl
  · rw [items_buffering h]
  · rw [readAll_buffering h]
    exact ⟨_, rfl, inOrder_mergeSort written⟩

end Journal

namespace JournalSite

open Journal (Entry Event Numbered Shows buffering holding image lsnAfter)

/-! ## Calls -/

/-- Something that is asked of a journal or done with its file. -/
inductive Call where
  /-- It is opened; if it is open, it is closed first. -/
  | reopen
  /-- It is closed. -/
  | close
  /-- An event is recorded under the next number. -/
  | log (txn : Timestamp) (event : Event)
  /-- An entry is added, whatever its number. -/
  | append (e : Entry)
  /-- What waits in the buffer is written. -/
  | flush
  /-- The file is iterated over to its end. -/
  | items
  /-- The entries in the file are read. -/
  | readAll

/-- The site after a change of its journal, if that is open. -/
def onJournal (change : Journal → Journal) (s : JournalSite) : JournalSite :=
  { s with journal := s.journal.map change }

namespace Call

/-- Carries out the call. -/
def perform (s : JournalSite) : Call → JournalSite
  | .reopen => Step.after JournalSite.reopen s
  | .close => s.close
  | .log txn event => s.onJournal fun j => (j.log txn event).2
  | .append e => s.onJournal (Journal.append e)
  | .flush => s.onJournal Journal.flush
  | .items => s.onJournal fun j => j.items.2
  | .readAll => s.onJournal fun j => j.readAll.2

/-- The entry that the call adds to the journal, if that is open. -/
def entry? (s : JournalSite) : Call → Option Entry
  | .log txn event => s.journal.map fun j => ⟨(j.log txn event).1, txn, event⟩
  | .append e => s.journal.map fun _ => e
  | .reopen | .close | .flush | .items | .readAll => none

end Call

/-- A site with its journal, and the entries that were added to it. -/
structure History where
  /-- The site. -/
  site : JournalSite
  /-- The entries, the oldest first. -/
  entries : List Entry

namespace History

/-- A history begins with what stands at the path. -/
def dawn (node : Node) : History := ⟨⟨⟨false, node⟩, none⟩, []⟩

/-- The history goes on with a call. -/
def call (h : History) (c : Call) : History :=
  ⟨c.perform h.site, h.entries ++ (c.entry? h.site).toList⟩

/-- The history to which the calls lead. -/
def after (node : Node) (calls : List Call) : History := calls.foldl call (dawn node)

theorem after_concat (node : Node) (calls : List Call) (c : Call) :
    after node (calls ++ [c]) = (after node calls).call c := by
  rw [after, List.foldl_append]
  rfl

/-- File and buffer have the entries that were added, and at most one of them waits in the
buffer. -/
structure Kept (h : History) : Prop where
  unobstructed : h.site.slot.obstructed = false
  isOpen {j : Journal} : h.site.journal = some j → ∃ written waiting,
    j = buffering written waiting ∧ written ++ waiting = h.entries ∧ waiting.length ≤ 1
  isClosed : h.site.journal = none → h.site.slot.node ≠ .directory ∧
    h.site.slot.node.content?.getD [] = image h.entries

variable {g : History} {node : Node}

theorem kept_dawn (hfile : node ≠ .directory) (hempty : node.content?.getD [] = []) :
    (dawn node).Kept :=
  ⟨rfl, nofun, fun _ => ⟨hfile, hempty⟩⟩

/-- A closed journal has all entries in its file. -/
theorem Kept.close (h : Kept g) :
    Kept ⟨g.site.close, g.entries⟩ ∧ g.site.close.journal = none := by
  cases hjournal : g.site.journal with
  | none =>
    rw [JournalSite.close, hjournal]
    exact ⟨h, hjournal⟩
  | some j =>
    rcases h.isOpen hjournal with ⟨written, waiting, rfl, hentries, _⟩
    have hnode : (buffering written waiting).close = .file (image g.entries) := by
      rw [Journal.close, Journal.flush_buffering, hentries]
      rfl
    rw [JournalSite.close, hjournal]
    simp only [hnode]
    exact ⟨⟨h.unobstructed, nofun, fun _ => ⟨nofun, rfl⟩⟩, trivial⟩

/-- A journal is opened with all entries. -/
theorem Kept.run_reopen (h : Kept g) (hfits : ∀ e ∈ g.entries, e.Fits) :
    reopen.run g.site =
      .ok () ⟨⟨false, .file (image g.entries)⟩, some (holding g.entries)⟩ := by
  rcases h.close with ⟨hclosed, hnone⟩
  rcases hclosed.isClosed hnone with ⟨hfile, hcontent⟩
  have hscan := congrArg Journal.Scan.frames (Journal.scan_image hfits)
  rw [← hcontent] at hscan
  have hrun := Journal.run_openAt hclosed.unobstructed hfile hfits hscan
  simp only [EStateM.run, reopen] at hrun ⊢
  rw [hrun]

theorem kept_holding (entries : List Entry) (slot : FileSlot) (hslot : slot.obstructed = false) :
    Kept ⟨⟨slot, some (holding entries)⟩, entries⟩ := by
  refine ⟨hslot, ?_, nofun⟩
  rintro j ⟨⟩
  exact ⟨entries, [], (Journal.buffering_nil entries).symm, List.append_nil _, Nat.zero_le 1⟩

/-- A change of the journal is kept if afterwards it has the entries that it is to have. -/
theorem Kept.onJournal (h : Kept g) {change : Journal → Journal} {entries : List Entry}
    (hnone : g.site.journal = none → entries = g.entries)
    (hsome : ∀ written waiting, g.site.journal = some (buffering written waiting) →
      written ++ waiting = g.entries → waiting.length ≤ 1 →
      ∃ written' waiting', change (buffering written waiting) = buffering written' waiting' ∧
        written' ++ waiting' = entries ∧ waiting'.length ≤ 1) :
    Kept ⟨g.site.onJournal change, entries⟩ := by
  cases hjournal : g.site.journal with
  | none =>
    have hsame : g.site.onJournal change = g.site := by
      rw [JournalSite.onJournal, hjournal, Option.map_none, ← hjournal]
    rw [hsame, hnone hjournal]
    exact h
  | some j =>
    rcases h.isOpen hjournal with ⟨written, waiting, rfl, hentries, hshort⟩
    rcases hsome written waiting hjournal hentries hshort with
      ⟨written', waiting', hchanged, hentries', hshort'⟩
    rw [JournalSite.onJournal, hjournal, Option.map_some, hchanged]
    refine ⟨h.unobstructed, ?_, nofun⟩
    rintro _ ⟨⟩
    exact ⟨written', waiting', rfl, hentries', hshort'⟩

/-- Whatever is called, file and buffer keep what they have and take what is added. -/
theorem Kept.call (h : Kept g) (hfits : ∀ e ∈ g.entries, e.Fits) (c : Call) : (g.call c).Kept := by
  have hnothing : g.entries ++ (none : Option Entry).toList = g.entries := List.append_nil _
  have hwritten : ∀ {written waiting}, written ++ waiting = g.entries →
      ∀ e ∈ written, e.Fits := by
    intro written waiting hentries e he
    exact hfits e (hentries ▸ List.mem_append_left waiting he)
  unfold History.call
  cases c with
  | reopen =>
    have hafter : Step.after JournalSite.reopen g.site =
        ⟨⟨false, .file (image g.entries)⟩, some (holding g.entries)⟩ := by
      rw [Step.after, h.run_reopen hfits]
    rw [Call.perform, hafter, Call.entry?, hnothing]
    exact kept_holding g.entries _ rfl
  | close =>
    rw [Call.perform, Call.entry?, hnothing]
    exact h.close.1
  | log txn event =>
    apply h.onJournal
    · intro hnone
      rw [Call.entry?, hnone, Option.map_none, hnothing]
    · intro written waiting hopen hentries _
      refine ⟨_, [], ?_, List.append_nil _, Nat.zero_le 1⟩
      rw [Call.entry?, hopen, Journal.log_buffering, hentries, Journal.buffering_nil]
      exact congrArg (fun entries => holding (g.entries ++ [⟨entries.foldl lsnAfter 0, txn, event⟩]))
        hentries.symm
  | append e =>
    apply h.onJournal
    · intro hnone
      rw [Call.entry?, hnone, Option.map_none, hnothing]
    · intro written waiting hopen hentries _
      rcases Journal.append_buffering written waiting e with
        ⟨written', waiting', happend, hentries', hshort⟩
      rw [hentries] at hentries'
      refine ⟨written', waiting', happend, ?_, hshort⟩
      rw [hentries', Call.entry?, hopen]
      rfl
  | flush =>
    rw [Call.entry?, hnothing]
    apply h.onJournal fun _ => rfl
    intro written waiting _ hentries _
    refine ⟨written ++ waiting, [], ?_, (List.append_nil _).trans hentries, Nat.zero_le 1⟩
    rw [Journal.flush_buffering, Journal.buffering_nil]
  | items =>
    rw [Call.entry?, hnothing]
    apply h.onJournal fun _ => rfl
    intro written waiting _ hentries hshort
    refine ⟨written, waiting, ?_, hentries, hshort⟩
    rw [Journal.items_buffering (hwritten hentries)]
  | readAll =>
    rw [Call.entry?, hnothing]
    apply h.onJournal fun _ => rfl
    intro written waiting _ hentries hshort
    refine ⟨written, waiting, ?_, hentries, hshort⟩
    rw [Journal.readAll_buffering (hwritten hentries)]

/-- Whatever was called, file and buffer have the entries that were added. -/
theorem kept_after {calls : List Call} (hfile : node ≠ .directory)
    (hempty : node.content?.getD [] = []) (hfits : ∀ e ∈ (after node calls).entries, e.Fits) :
    (after node calls).Kept := by
  induction calls using List.reverseRecOn with
  | nil => exact kept_dawn hfile hempty
  | append_singleton calls c ih =>
    rw [after_concat] at hfits ⊢
    have hbefore : ∀ e ∈ (after node calls).entries, e.Fits := by
      intro e he
      exact hfits e (List.mem_append_left _ he)
    exact (ih hbefore).call hbefore c

/-! ## Recording only -/

/-- Calls that add entries under the next numbers only. -/
def Recording (calls : List Call) : Prop := ∀ e, Call.append e ∉ calls

theorem Kept.numbered_call (h : Kept g) (hnext : ∀ e ∈ g.entries, e.HasNext)
    (hnumbered : Numbered g.entries) {c : Call} (hc : Recording [c]) :
    Numbered (g.call c).entries := by
  cases c with
  | log txn event =>
    cases hjournal : g.site.journal with
    | none =>
      rw [History.call, Call.entry?, hjournal, Option.map_none, Option.toList_none, List.append_nil]
      exact hnumbered
    | some j =>
      rcases h.isOpen hjournal with ⟨written, waiting, rfl, hentries, _⟩
      rw [History.call, Call.entry?, hjournal]
      apply hnumbered.concat hnext
      rw [← hentries]
      rfl
  | append e => exact absurd List.mem_cons_self (hc e)
  | reopen | close | flush | items | readAll =>
    rw [History.call, Call.entry?, Option.toList_none, List.append_nil]
    exact hnumbered

theorem Kept.pending_call (h : Kept g) (hfits : ∀ e ∈ g.entries, e.Fits)
    (hidle : ∀ j, g.site.journal = some j → j.pending = []) {c : Call} (hc : Recording [c]) :
    ∀ j, (g.call c).site.journal = some j → j.pending = [] := by
  intro j hj
  rw [History.call] at hj
  cases c with
  | reopen =>
    rw [Call.perform, Step.after, h.run_reopen hfits] at hj
    cases hj
    rfl
  | close =>
    rw [Call.perform, h.close.2] at hj
    cases hj
  | append e => exact absurd List.mem_cons_self (hc e)
  | log txn event =>
    rcases Option.map_eq_some_iff.1 hj with ⟨j₀, _, rfl⟩
    rfl
  | flush =>
    rcases Option.map_eq_some_iff.1 hj with ⟨j₀, _, rfl⟩
    rfl
  | items | readAll =>
    rcases Option.map_eq_some_iff.1 hj with ⟨j₀, hj₀, rfl⟩
    exact hidle j₀ hj₀

/-- Recording events numbers the entries in order and leaves none waiting. -/
theorem numbered_after {calls : List Call} (hfile : node ≠ .directory)
    (hempty : node.content?.getD [] = [])
    (hentries : ∀ e ∈ (after node calls).entries, e.Fits ∧ e.HasNext) (hcalls : Recording calls) :
    Numbered (after node calls).entries ∧
      ∀ j, (after node calls).site.journal = some j → j.pending = [] := by
  induction calls using List.reverseRecOn with
  | nil => exact ⟨rfl, nofun⟩
  | append_singleton calls c ih =>
    rw [after_concat] at hentries ⊢
    have hbefore : ∀ e ∈ (after node calls).entries, e.Fits ∧ e.HasNext := by
      intro e he
      exact hentries e (List.mem_append_left _ he)
    have hlast : Recording [c] := by
      intro e he
      exact hcalls e (List.mem_append_right _ he)
    have hkept := kept_after hfile hempty fun e he => (hbefore e he).1
    rcases ih hbefore fun e he => hcalls e (List.mem_append_left _ he) with ⟨hnumbered, hidle⟩
    exact ⟨hkept.numbered_call (fun e he => (hbefore e he).2) hnumbered hlast,
      hkept.pending_call (fun e he => (hbefore e he).1) hidle hlast⟩

/-! ## What is found -/

/-- The journal loses no entry, keeps them in order and has none of them twice. Once it is closed,
its file consists of the frames of all entries that were added, in the order of the calls, and it
can be opened again with all of them. While it is open, the same is true of all entries but at most
the last, which may wait in the buffer until the next flush; iterating meets them as they stand in
the file, and reading sorts them by number. The next number is the one after the greatest one. If
entries were added by recording events only, their numbers are those from zero on, and they are read
in the order of the calls. -/
theorem entries_stay_in_order {node : Node} (hfile : node ≠ .directory)
    (hempty : node.content?.getD [] = []) (calls : List Call)
    (hentries : ∀ e ∈ (after node calls).entries, e.Fits ∧ e.HasNext) :
    let s := (after node calls).site
    let entries := (after node calls).entries
    let next := (entries.map (·.lsn.toNat)).max?.elim 0 (· + 1)
    s.close.node.content?.getD [] = image entries ∧
      (∃ j, reopen.run s = .ok () ⟨⟨false, .file (image entries)⟩, some j⟩ ∧ Shows j entries ∧
        j.nextLsn.toNat = next) ∧
      (∀ j, s.journal = some j →
        Shows j.flush entries ∧ j.nextLsn.toNat = next ∧
          ∃ written waiting, written ++ waiting = entries ∧ waiting.length ≤ 1 ∧
            Shows j written ∧ j.pending = image waiting) ∧
      (Recording calls → entries.map (·.lsn.toNat) = List.range entries.length ∧
        ∀ j, s.journal = some j → Shows j entries ∧ j.readAll.1 = .ok entries) := by
  intro s entries next
  have hfits : ∀ e ∈ entries, e.Fits := fun e he => (hentries e he).1
  have hkept : (after node calls).Kept := kept_after hfile hempty hfits
  have hnext : (entries.foldl lsnAfter 0).toNat = next :=
    Journal.toNat_next fun e he => (hentries e he).2
  have hshows : Shows (holding entries) entries := by
    rw [← Journal.buffering_nil]
    exact Journal.shows_buffering hfits []
  refine ⟨?_, ⟨holding entries, hkept.run_reopen hfits, hshows, hnext⟩, ?_, ?_⟩
  · rcases hkept.close with ⟨hclosed, hnone⟩
    rw [JournalSite.node, hnone]
    exact (hclosed.isClosed hnone).2
  · intro j hj
    rcases hkept.isOpen hj with ⟨written, waiting, rfl, hboth, hshort⟩
    change written ++ waiting = entries at hboth
    have hwritten : ∀ e ∈ written, e.Fits := by
      intro e he
      exact hfits e (hboth ▸ List.mem_append_left waiting he)
    refine ⟨?_, ?_, written, waiting, hboth, hshort, Journal.shows_buffering hwritten waiting, rfl⟩
    · rw [Journal.flush_buffering, hboth]
      exact hshows
    · rw [← hnext, ← hboth]
      rfl
  · intro hcalls
    rcases numbered_after hfile hempty hentries hcalls with ⟨hnumbered, hidle⟩
    refine ⟨hnumbered, ?_⟩
    intro j hj
    rcases hkept.isOpen hj with ⟨written, waiting, rfl, hboth, _⟩
    change written ++ waiting = entries at hboth
    have hnil : waiting = [] := Journal.image_eq_nil (hidle _ hj)
    rw [hnil, List.append_nil] at hboth
    rw [hnil, hboth]
    refine ⟨Journal.shows_buffering hfits [], ?_⟩
    rw [Journal.readAll_buffering hfits, hnumbered.mergeSort_eq]

/-- Entries are added under falling numbers, with readings in between, and the journal is closed and
opened again before an event is recorded. -/
def fallingNumbers : List Call :=
  [.reopen, .append ⟨7, ⟨1⟩, .began [] .snapshot⟩, .items, .append ⟨3, ⟨1⟩, .settled (.commit ⟨2⟩)⟩,
    .readAll, .close, .reopen, .log ⟨4⟩ (.began [⟨1⟩] .readCommitted)]

theorem entries_stay_in_order_fallingNumbers :
    let g := after .missing fallingNumbers
    (∀ e ∈ g.entries, e.Fits ∧ e.HasNext) ∧ g.entries.map (·.lsn) = [7, 3, 8] ∧
      ∃ j, g.site.journal = some j ∧ Shows j.flush g.entries ∧ j.nextLsn.toNat = 9 := by
  intro g
  have hentries : ∀ e ∈ g.entries, e.put.length < UInt32.size ∧ e.lsn.toNat + 1 < UInt64.size := by
    decide +kernel
  have hopen : g.site.journal.isSome = true := by decide +kernel
  rcases Option.isSome_iff_exists.1 hopen with ⟨j, hj⟩
  have hfile : Node.missing ≠ .directory := nofun
  rcases entries_stay_in_order hfile rfl fallingNumbers hentries with ⟨_, _, hshows, _⟩
  rcases hshows j hj with ⟨hflushed, hnext, _⟩
  exact ⟨hentries, by decide +kernel, j, hj, hflushed, hnext.trans (by decide +kernel)⟩

end History

end JournalSite

end SnapshotIsolation
