import SnapshotIsolation.Proofs.Journal.Delimiting
import SnapshotIsolation.Proofs.Journal.Holding

/-!
# Entries that fit no frame

The frame of an entry tells its length in 32 bits. A longer entry is cut short when it is scanned,
and what is left of it is no entry, since the input runs out in it. So a journal that can be opened
has no such entry.

Main results:

- Theorem {lit}`Journal.Entry.decode_ne_ok_of_take`: an entry whose end is missing is no entry.
- Theorem {lit}`Journal.fits_of_openAt`: a journal that can be opened has only entries that fit
  their frames.
- Theorem {lit}`Journal.exists_take_of_openAt`: one that lost its end has the first of the entries if
  it can be opened.
-/

namespace SnapshotIsolation

namespace Journal

namespace Entry

/-- An entry whose end is missing is no entry. -/
theorem decode_ne_ok_of_take {e : Entry} (h : e.Countable) {n : Nat} (hn : n < e.put.length)
    (found : Entry) : decode (e.put.take n) ≠ .ok found := by
  have hmissing : e.put.drop n ≠ [] := by
    intro hnone
    have hlength := List.drop_eq_nil_iff.1 hnone
    omega
  rw [decode_of_short h (List.take_append_drop n e.put) hmissing]
  nofun

end Entry

/-- What is split off the frame of an entry that does not fit holds no entry. -/
theorem exists_split_of_not_fits {e : Entry} (h : e.Countable) (hmisfit : ¬ e.Fits)
    (rest : Bytes) :
    ∃ f rest', Frame.split ((Frame.ofEntry e).encode ++ rest) = some (f, rest') ∧
      ∀ found, f.entry ≠ .ok found := by
  refine ⟨_, _, Frame.split_encode (Frame.ofEntry e) rest, ?_⟩
  have hlong : UInt32.size ≤ e.put.length := Nat.le_of_not_lt hmisfit
  have hshort : e.put.length % UInt32.size < e.put.length :=
    Nat.lt_of_lt_of_le (Nat.mod_lt _ (by decide)) hlong
  intro found hentry
  simp only [Frame.ofEntry, Frame.entry, List.take_append_of_le_length (Nat.le_of_lt hshort)]
    at hentry
  split at hentry
  · split at hentry
    · rename_i hdecode
      exact Entry.decode_ne_ok_of_take h hshort _ hdecode
    · cases hentry
  · cases hentry

/-- A file of entries that can be read has only entries that fit their frames. -/
theorem fits_of_entries_scan {entries found : List Entry} (h : ∀ e ∈ entries, e.Countable)
    (hscan : (scan (image entries)).entries = .ok found) : ∀ e ∈ entries, e.Fits := by
  induction entries generalizing found with
  | nil => nofun
  | cons e entries ih =>
    have himage : image (e :: entries) = (Frame.ofEntry e).encode ++ image entries := by
      simp [image]
    rw [himage] at hscan
    by_cases hfits : e.Fits
    · have hsplit := Frame.split_encode_append (f := Frame.ofEntry e) hfits (image entries)
      rw [scan_of_split_some hsplit, Scan.entries, List.mapM_cons,
        Frame.entry_ofEntry hfits] at hscan
      cases hrest : (scan (image entries)).entries with
      | error cause =>
        rw [Scan.entries] at hrest
        rw [hrest] at hscan
        cases hscan
      | ok others =>
        intro a ha
        rcases List.mem_cons.1 ha with rfl | ha
        · exact hfits
        · exact ih (fun b hb => h b (List.mem_cons_of_mem _ hb)) hrest a ha
    · rcases exists_split_of_not_fits (h e List.mem_cons_self) hfits (image entries) with
        ⟨f, rest, hsplit, hnone⟩
      rw [scan_of_split_some hsplit, Scan.entries, List.mapM_cons] at hscan
      cases hentry : f.entry with
      | error cause =>
        rw [hentry] at hscan
        cases hscan
      | ok a => exact absurd hentry (hnone a)

/-- Every entry of a file shorter than the lengths that a frame can tell fits its frame. -/
theorem fits_of_length_image {entries : List Entry} (h : (image entries).length < UInt32.size) :
    ∀ e ∈ entries, e.Fits := by
  intro e he
  rcases List.append_of_mem he with ⟨before, after, rfl⟩
  simp only [image, List.map_append, List.map_cons, List.flatMap_append, List.flatMap_cons,
    List.length_append, Frame.length_encode, Frame.size] at h
  show (Frame.ofEntry e).payload.length < UInt32.size
  omega

/-- A journal that can be opened lies where nothing is in the way, and has only entries that fit
their frames. -/
theorem fits_of_openAt {entries : List Entry} {slot slot' : FileSlot} {j : Journal}
    (h : ∀ e ∈ entries, e.Countable) (hnode : slot.node = .file (image entries))
    (hopen : openAt.run slot = .ok j slot') :
    slot.obstructed = false ∧ ∀ e ∈ entries, e.Fits := by
  rcases openAt_eq_ok hopen with ⟨hfree, _, found, hentries, _⟩
  rw [hnode] at hentries
  exact ⟨hfree, fits_of_entries_scan h hentries⟩

/-! ## Files that lost their end -/

/-- However many first bytes are left of a file, if what is left can be read then it has the first
of the entries, and those fit their frames. -/
theorem exists_take_of_entries_scan {entries found : List Entry} (h : ∀ e ∈ entries, e.Countable)
    {n : Nat} (hscan : (scan ((image entries).take n)).entries = .ok found) :
    ∃ k, (scan ((image entries).take n)).frames = (entries.take k).map Frame.ofEntry ∧
      ∀ e ∈ entries.take k, e.Fits := by
  induction entries generalizing n found with
  | nil =>
    have hnone : Frame.split [] = none := by decide
    refine ⟨0, ?_, by simp⟩
    rw [image, List.map_nil, List.flatMap_nil, List.take_nil, scan_of_split_none hnone]
    rfl
  | cons e entries ih =>
    have himage : image (e :: entries) = (Frame.ofEntry e).encode ++ image entries := by
      simp [image]
    cases hsplit : Frame.split ((image (e :: entries)).take n) with
    | none =>
      rw [scan_of_split_none hsplit]
      exact ⟨0, rfl, by simp⟩
    | some read =>
      rcases read with ⟨f, rest⟩
      have hwhole := Frame.split_append hsplit ((image (e :: entries)).drop n)
      rw [List.take_append_drop, himage] at hwhole
      rw [scan_of_split_some hsplit, Scan.entries, List.mapM_cons] at hscan
      by_cases hfits : e.Fits
      · rw [Frame.split_encode_append (f := Frame.ofEntry e) hfits] at hwhole
        simp only [Option.some.injEq, Prod.mk.injEq] at hwhole
        rcases hwhole with ⟨rfl, hrest⟩
        have htake : (image entries).take rest.length = rest := by
          rw [hrest, List.take_left' rfl]
        rw [Frame.entry_ofEntry hfits] at hscan
        cases hothers : (scan rest).entries with
        | error cause =>
          rw [Scan.entries] at hothers
          rw [hothers] at hscan
          cases hscan
        | ok others =>
          rw [← htake] at hothers
          rcases ih (fun b hb => h b (List.mem_cons_of_mem _ hb)) hothers with
            ⟨k, hframes, hkept⟩
          refine ⟨k + 1, ?_, ?_⟩
          · rw [scan_of_split_some hsplit, List.take_succ_cons, List.map_cons, ← hframes, htake]
          · intro a ha
            rw [List.take_succ_cons] at ha
            rcases List.mem_cons.1 ha with rfl | ha
            · exact hfits
            · exact hkept a ha
      · rcases exists_split_of_not_fits (h e List.mem_cons_self) hfits (image entries) with
          ⟨g, rest', hmisfit, hnone⟩
        rw [hmisfit] at hwhole
        cases hwhole
        cases hentry : f.entry with
        | error cause =>
          rw [hentry] at hscan
          cases hscan
        | ok a => exact absurd hentry (hnone a)

/-- A journal of which the first bytes are left can be opened only where nothing is in the way, and
has the first of the entries, which fit their frames. -/
theorem exists_take_of_openAt {entries : List Entry} {slot slot' : FileSlot} {j : Journal} {n : Nat}
    (h : ∀ e ∈ entries, e.Countable)
    (hcontent : slot.node.content?.getD [] = (image entries).take n)
    (hopen : openAt.run slot = .ok j slot') :
    slot.obstructed = false ∧ slot.node ≠ .directory ∧
      ∃ k, (scan (slot.node.content?.getD [])).frames = (entries.take k).map Frame.ofEntry ∧
        ∀ e ∈ entries.take k, e.Fits := by
  rcases openAt_eq_ok hopen with ⟨hfree, hfile, found, hentries, _⟩
  rw [hcontent] at hentries ⊢
  exact ⟨hfree, hfile, exists_take_of_entries_scan h hentries⟩

end Journal

end SnapshotIsolation
