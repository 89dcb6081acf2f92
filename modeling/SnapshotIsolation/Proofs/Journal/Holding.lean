import SnapshotIsolation.Proofs.Journal.Frames
import SnapshotIsolation.Proofs.Outcome

/-!
# Journals and their entries

As long as nobody else writes to its file, an open journal is told by its entries: adding one
gives the journal with that entry at the end, and opening a file gives the journal with the
entries whose frames the file holds.

Main results:

- Theorems {lit}`Journal.append_buffering` and {lit}`Journal.log_buffering`: what adding an entry and
  recording an event make of the journal.
- Theorems {lit}`Journal.run_openAt_file` and {lit}`Journal.openAt_eq_ok`: what opening makes of a
  file.
- Theorem {lit}`Journal.run_openAt`: which journal is opened over a file that has entries.
- Theorems {lit}`Journal.items_buffering` and {lit}`Journal.readAll_buffering`: what is found in the
  file, and in which order.
-/

namespace SnapshotIsolation

namespace Journal

/-- The file that has the given entries. -/
def image (entries : List Entry) : Bytes := (entries.map Frame.ofEntry).flatMap Frame.encode

/-- The open journal that has the given entries. -/
def holding (entries : List Entry) : Journal where
  content := image entries
  displaced := none
  cursor := (image entries).length
  pending := []
  nextLsn := entries.foldl lsnAfter 0

variable {entries : List Entry}

theorem image_append (entries others : List Entry) :
    image (entries ++ others) = image entries ++ image others := by
  simp [image]

theorem image_concat (entries : List Entry) (e : Entry) :
    image (entries ++ [e]) = image entries ++ (Frame.ofEntry e).encode := by
  simp [image]

theorem image_concat_ne (entries : List Entry) (e : Entry) :
    image (entries ++ [e]) ≠ image entries := by
  intro heq
  have hlength := congrArg List.length heq
  rw [image_concat, List.length_append, Frame.length_encode, Frame.size,
    Frame.headerSize] at hlength
  omega

theorem image_eq_nil (h : image entries = []) : entries = [] := by
  cases entries with
  | nil => rfl
  | cons e entries =>
    have hlength := congrArg List.length h
    simp only [image, List.map_cons, List.flatMap_cons, List.length_append, List.length_nil,
      Frame.length_encode, Frame.size, Frame.headerSize] at hlength
    omega

/-! ## Recording -/

theorem overlay_end (data content : Bytes) :
    overlay content.length data content = content ++ data := by
  unfold overlay
  split
  · rename_i hempty
    rw [List.isEmpty_iff.1 hempty, List.append_nil]
  · simp

theorem flush_holding (entries : List Entry) : (holding entries).flush = holding entries := by
  simp [flush, write, overlay, holding]

/-- The open journal that has some entries in its file and others, added after them, in its
buffer. -/
def buffering (written waiting : List Entry) : Journal where
  content := image written
  displaced := none
  cursor := (image written).length
  pending := image waiting
  nextLsn := (written ++ waiting).foldl lsnAfter 0

theorem buffering_nil (entries : List Entry) : buffering entries [] = holding entries := by
  simp [buffering, holding, image]

theorem flush_buffering (written waiting : List Entry) :
    (buffering written waiting).flush = holding (written ++ waiting) := by
  simp [flush, write, buffering, holding, overlay_end, image_append]

/-- Adding an entry writes those that wait. The new one waits in turn, unless the buffer cannot
hold it. -/
theorem append_buffering (written waiting : List Entry) (e : Entry) :
    ∃ written' waiting', (buffering written waiting).append e = buffering written' waiting' ∧
      written' ++ waiting' = written ++ waiting ++ [e] ∧ waiting'.length ≤ 1 := by
  have hnext : (buffering written waiting).nextLsn = (written ++ waiting).foldl lsnAfter 0 := rfl
  unfold append push
  rw [flush_buffering, hnext]
  generalize written ++ waiting = entries
  split
  · refine ⟨entries, [e], ?_, rfl, Nat.le_refl 1⟩
    simp [buffering, holding, image]
  · refine ⟨entries ++ [e], [], ?_, List.append_nil _, Nat.zero_le 1⟩
    rw [buffering_nil]
    simp [write, holding, overlay_end, image_concat]

/-- Recording an event adds an entry under the next number and leaves none waiting. -/
theorem log_buffering (written waiting : List Entry) (txn : Timestamp) (event : Event) :
    ((buffering written waiting).log txn event).2 =
      holding (written ++ waiting ++ [⟨(written ++ waiting).foldl lsnAfter 0, txn, event⟩]) := by
  rcases append_buffering written waiting ⟨(written ++ waiting).foldl lsnAfter 0, txn, event⟩ with
    ⟨written', waiting', happend, hentries, _⟩
  rw [← hentries, ← flush_buffering, ← happend]
  rfl

theorem log_holding (entries : List Entry) (txn : Timestamp) (event : Event) :
    ((holding entries).log txn event).2 =
      holding (entries ++ [⟨entries.foldl lsnAfter 0, txn, event⟩]) := by
  rw [← buffering_nil, log_buffering, List.append_nil]

/-! ## Reading -/

/-- Entries that are read as they were recorded: frames can tell their lengths, and their
numbers ascend towards the next one. -/
structure Legible (entries : List Entry) : Prop where
  fits {e : Entry} : e ∈ entries → e.Fits
  ascending : entries.Pairwise fun a b => a.lsn ≤ b.lsn
  reached {e : Entry} : e ∈ entries → e.lsn ≤ entries.foldl lsnAfter 0

theorem legible_nil : Legible [] := by
  constructor
  · intro e he
    cases he
  · exact .nil
  · intro e he
    cases he

theorem le_lsnAfter (next : UInt64) (e : Entry) : next ≤ lsnAfter next e := by
  change next ≤ if next ≤ e.lsn + 1 then e.lsn + 1 else next
  split
  · assumption
  · exact UInt64.le_refl next

/-- Entries stay legible when one is added under the next number. -/
theorem Legible.concat (h : Legible entries) {e : Entry} (hlsn : e.lsn = entries.foldl lsnAfter 0)
    (hfits : e.Fits) : Legible (entries ++ [e]) := by
  have hnext : entries.foldl lsnAfter 0 ≤ (entries ++ [e]).foldl lsnAfter 0 := by
    rw [List.foldl_append, List.foldl_cons, List.foldl_nil]
    exact le_lsnAfter ..
  constructor
  · intro a ha
    rcases List.mem_append.1 ha with ha | ha
    · exact h.fits ha
    · rw [List.mem_singleton.1 ha]
      exact hfits
  · rw [List.pairwise_append]
    refine ⟨h.ascending, List.pairwise_singleton .., ?_⟩
    intro a ha b hb
    rw [List.mem_singleton.1 hb, hlsn]
    exact h.reached ha
  · intro a ha
    rcases List.mem_append.1 ha with ha | ha
    · exact UInt64.le_trans (h.reached ha) hnext
    · rw [List.mem_singleton.1 ha, hlsn]
      exact hnext

theorem length_payload_ofEntry (h : ∀ e ∈ entries, e.Fits) :
    ∀ f ∈ entries.map Frame.ofEntry, f.payload.length < UInt32.size := by
  intro f hf
  rcases List.mem_map.1 hf with ⟨e, he, rfl⟩
  exact h e he

/-- The first bytes of a file have the entries whose frames end within them. -/
theorem frames_scan_image_take (h : ∀ e ∈ entries, e.Fits) (c : Nat) :
    (scan ((image entries).take c)).frames =
      (entries.take (Frame.countWithin (entries.map Frame.ofEntry) c)).map Frame.ofEntry := by
  rw [image, frames_scan_take (length_payload_ofEntry h), List.map_take]

/-- A file that has the given entries consists of their frames. -/
theorem scan_image (h : ∀ e ∈ entries, e.Fits) :
    scan (image entries) = ⟨entries.map Frame.ofEntry, []⟩ :=
  scan_flatMap_encode (length_payload_ofEntry h)

theorem mapM_entry (h : ∀ e ∈ entries, e.Fits) :
    (entries.map Frame.ofEntry).mapM Frame.entry = .ok entries := by
  induction entries with
  | nil => rfl
  | cons e entries ih =>
    rw [List.map_cons, List.mapM_cons, Frame.entry_ofEntry (h e List.mem_cons_self),
      ih fun e' he' => h e' (List.mem_cons_of_mem _ he')]
    rfl

theorem collect_map_entry (h : ∀ e ∈ entries, e.Fits) :
    collect ((entries.map Frame.ofEntry).map Frame.entry) = .ok entries := by
  rw [collect, List.mapM_map]
  exact mapM_entry h

/-- A complete reading fetches the whole file. -/
theorem fetchedAfter_map_ofEntry (h : ∀ e ∈ entries, e.Fits) (size : Nat) (r : BlockReader) :
    fetchedAfter size (entries.map Frame.ofEntry) r = size := by
  induction entries generalizing r with
  | nil => rfl
  | cons e entries ih =>
    rw [List.map_cons, fetchedAfter, Frame.entry_ofEntry (h e List.mem_cons_self)]
    exact ih (fun e' he' => h e' (List.mem_cons_of_mem _ he')) _

theorem items_scan_image (h : ∀ e ∈ entries, e.Fits) :
    (scan (image entries)).items = (entries.map Frame.ofEntry).map Frame.entry := by
  simp [scan_image h, Scan.items]

variable {written waiting : List Entry}

/-- Iterating finds the entries in the file, in the order in which they stand there. -/
theorem items_buffering (h : ∀ e ∈ written, e.Fits) (waiting : List Entry) :
    (buffering written waiting).items = (written.map .ok, buffering written waiting) := by
  have hitems : (written.map Frame.ofEntry).map Frame.entry = written.map .ok := by
    rw [List.map_map]
    exact List.map_congr_left fun e he => Frame.entry_ofEntry (h e he)
  simp only [items, buffering, items_scan_image h, hitems]

/-- Reading finds the entries in the file, in the order of their numbers. -/
theorem readAll_buffering (h : ∀ e ∈ written, e.Fits) (waiting : List Entry) :
    (buffering written waiting).readAll =
      (.ok (written.mergeSort fun a b => a.lsn ≤ b.lsn), buffering written waiting) := by
  have hcollect : collect (scan (image written)).items = .ok written := by
    rw [items_scan_image h, collect_map_entry h]
  have hfetched : fetchedAfter (image written).length (scan (image written)).frames ⟨0, 0⟩ =
      (image written).length := by
    rw [scan_image h, fetchedAfter_map_ofEntry h]
  simp only [readAll, buffering, hcollect, hfetched, Except.map]

/-- Entries numbered in order are read in that order, and the journal can be written on. -/
theorem readAll_holding (h : Legible entries) :
    (holding entries).readAll = (.ok entries, holding entries) := by
  have hsorted : (entries.mergeSort fun a b => a.lsn ≤ b.lsn) = entries := by
    apply List.mergeSort_of_pairwise
    apply h.ascending.imp
    intro a b hab
    exact decide_eq_true hab
  rw [← buffering_nil, readAll_buffering fun e he => h.fits he, hsorted]

/-! ## Opening -/

/-- Opening a file keeps its complete frames if all of them have entries; the next write lands behind
them. Otherwise the file is left alone. -/
theorem run_openAt_file (content : Bytes) :
    let kept := content.take (scan content).extent
    openAt.run ⟨false, .file content⟩ =
      match (scan content).entries with
      | .ok found => .ok ⟨kept, none, kept.length, [], found.foldl lsnAfter 0⟩ ⟨false, .file kept⟩
      | .error cause => .error cause ⟨false, .file content⟩ := by
  intro kept
  cases hentries : (scan content).entries with
  | ok found => simp [openAt, hentries, kept]
  | error cause => simp [openAt, hentries]

/-- Where no file stands, an empty one is opened. -/
theorem run_openAt_of_ne_directory {node : Node} (h : node ≠ .directory) :
    openAt.run ⟨false, node⟩ = openAt.run ⟨false, .file (node.content?.getD [])⟩ := by
  cases node with
  | missing => rfl
  | directory => exact absurd rfl h
  | file content => rfl

/-- A journal can be opened only where nothing is in the way. -/
theorem openAt_eq_ok {slot slot' : FileSlot} {j : Journal} (h : openAt.run slot = .ok j slot') :
    let content := slot.node.content?.getD []
    let kept := content.take (scan content).extent
    slot.obstructed = false ∧ slot.node ≠ .directory ∧
      ∃ found, (scan content).entries = .ok found ∧
        j = ⟨kept, none, kept.length, [], found.foldl lsnAfter 0⟩ := by
  rcases slot with ⟨obstructed, node⟩
  cases obstructed with
  | true => cases h
  | false =>
    have hfile : node ≠ .directory := by
      rintro rfl
      cases h
    rw [run_openAt_of_ne_directory hfile, run_openAt_file] at h
    cases hentries : (scan (node.content?.getD [])).entries with
    | ok found =>
      rw [hentries] at h
      cases h
      exact ⟨rfl, hfile, found, hentries, rfl⟩
    | error cause =>
      rw [hentries] at h
      cases h

/-- Opening a file keeps the entries of its complete frames. -/
theorem run_openAt {slot : FileSlot} (hobstructed : slot.obstructed = false)
    (hnode : slot.node ≠ .directory) (hfits : ∀ e ∈ entries, e.Fits)
    (hscan : (scan (slot.node.content?.getD [])).frames = entries.map Frame.ofEntry) :
    openAt.run slot = .ok (holding entries) ⟨false, .file (image entries)⟩ := by
  rcases slot with ⟨obstructed, node⟩
  simp only at hobstructed
  subst hobstructed
  have hentries : (scan (node.content?.getD [])).entries = .ok entries := by
    rw [Scan.entries, hscan]
    exact mapM_entry hfits
  have hkept : (node.content?.getD []).take (scan (node.content?.getD [])).extent =
      image entries := by
    rw [take_extent, hscan]
    rfl
  rw [run_openAt_of_ne_directory hnode, run_openAt_file, hentries, hkept]
  rfl

/-- Where no file stands, the journal that is opened has no entries. -/
theorem run_openAt_missing :
    openAt.run ⟨false, .missing⟩ = .ok (holding []) ⟨false, .file []⟩ := by
  have hscan : scan [] = ⟨[], []⟩ := scan_of_split_none (by decide)
  exact run_openAt rfl (by simp) nofun (congrArg Scan.frames hscan)

end Journal

end SnapshotIsolation
