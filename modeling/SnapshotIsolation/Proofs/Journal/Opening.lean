import Mathlib.Data.List.Forall2
import SnapshotIsolation.Proofs.Journal.Entries
import SnapshotIsolation.Proofs.Journal.Histories

/-!
# Opening a journal over any bytes

Whatever bytes the file has, they fall into complete frames and a tail in one way only. The file is
opened exactly if each of the frames holds an entry, and then it loses the tail and nothing else; a
file that is refused stays as it is, its tail included.

Main results:

- Theorems {lit}`Journal.parted_scan` and {lit}`Journal.Parted.scan_eq`: scanning finds the one way
  in which bytes fall into frames and a tail.
- Theorem {lit}`Journal.opening_any_bytes`: which files are opened, which journal that gives, and
  what becomes of the file.
-/

namespace SnapshotIsolation

namespace Journal

variable {bytes tail : Bytes} {frames : List Frame} {entries : List Entry}

/-! ## Frames and the tail -/

/-- Too few bytes for the frame that they begin with: for its header, or for the payload whose
length the header tells. -/
def Unfinished (tail : Bytes) : Prop :=
  tail.length < Frame.headerSize ∨ tail.length - Frame.headerSize < Bytes.natLE (tail.take 4)

/-- The bytes are complete frames one behind the other, and then a tail without one. -/
structure Parted (bytes : Bytes) (frames : List Frame) (tail : Bytes) : Prop where
  whole : bytes = frames.flatMap Frame.encode ++ tail
  fit {f : Frame} : f ∈ frames → f.payload.length < UInt32.size
  unfinished : Unfinished tail

theorem Frame.split_eq_none_iff {bytes : Bytes} : Frame.split bytes = none ↔ Unfinished bytes := by
  simp only [Frame.split, Unfinished, ite_eq_right_iff, reduceCtorEq, imp_false, not_and_or,
    List.length_drop, Nat.not_le]

/-- Scanning parts the bytes. -/
theorem parted_scan (bytes : Bytes) : Parted bytes (scan bytes).frames (scan bytes).tail := by
  refine ⟨(Scan.bytes_scan bytes).symm, ?_, ?_⟩
  · induction bytes using scan.induct with
    | case1 bytes h =>
      rw [scan_of_split_none h]
      intro g hg
      cases hg
    | case2 bytes f rest h ih =>
      rw [scan_of_split_some h]
      intro g hg
      rcases List.mem_cons.1 hg with rfl | hg
      · exact Frame.length_payload_of_split h
      · exact ih hg
  · induction bytes using scan.induct with
    | case1 bytes h =>
      rw [scan_of_split_none h]
      exact Frame.split_eq_none_iff.1 h
    | case2 bytes f rest h ih =>
      rw [scan_of_split_some h]
      exact ih

/-- There is no other way to part them. -/
theorem Parted.scan_eq (h : Parted bytes frames tail) : scan bytes = ⟨frames, tail⟩ := by
  rcases h with ⟨rfl, hfit, hunfinished⟩
  induction frames with
  | nil => exact scan_of_split_none (Frame.split_eq_none_iff.2 hunfinished)
  | cons f frames ih =>
    rw [List.flatMap_cons, List.append_assoc,
      scan_of_split_some (Frame.split_encode_append (hfit List.mem_cons_self) _),
      ih fun hg => hfit (List.mem_cons_of_mem _ hg)]

/-! ## Entries -/

theorem mapM_entry_eq_ok_iff :
    frames.mapM Frame.entry = .ok entries ↔ List.Forall₂ Frame.Tells frames entries := by
  induction frames generalizing entries with
  | nil =>
    rw [List.mapM_nil, List.forall₂_nil_left_iff]
    exact ⟨fun h => (Except.ok.inj h).symm, fun h => h ▸ rfl⟩
  | cons f frames ih =>
    rw [List.mapM_cons, List.forall₂_cons_left_iff]
    constructor
    · intro h
      cases hentry : f.entry with
      | error cause =>
        rw [hentry] at h
        cases h
      | ok e =>
        cases hrest : frames.mapM Frame.entry with
        | error cause =>
          rw [hentry, hrest] at h
          cases h
        | ok others =>
          rw [hentry, hrest] at h
          cases h
          exact ⟨e, others, Frame.entry_eq_ok_iff.1 hentry, ih.1 hrest, rfl⟩
    · rintro ⟨e, others, htells, hothers, rfl⟩
      rw [Frame.entry_eq_ok_iff.2 htells, ih.2 hothers]
      rfl

/-- Frames hold entries together exactly if each of them holds one. -/
theorem exists_mapM_entry_iff :
    (∃ entries, frames.mapM Frame.entry = .ok entries) ↔ ∀ f ∈ frames, ∃ e, f.Tells e := by
  simp only [mapM_entry_eq_ok_iff]
  induction frames with
  | nil => simp
  | cons f frames ih =>
    simp only [List.forall₂_cons_left_iff, List.forall_mem_cons, ← ih]
    constructor
    · rintro ⟨_, e, others, htells, hothers, rfl⟩
      exact ⟨⟨e, htells⟩, others, hothers⟩
    · rintro ⟨⟨e, htells⟩, others, hothers⟩
      exact ⟨_, e, others, htells, hothers, rfl⟩

theorem collect_items (htells : List.Forall₂ Frame.Tells frames entries) :
    collect (Scan.items ⟨frames, []⟩) = .ok entries := by
  rw [Scan.items, collect, if_pos List.isEmpty_nil, List.append_nil, List.mapM_map]
  exact mapM_entry_eq_ok_iff.2 htells

theorem fetchedAfter_eq_size (htells : List.Forall₂ Frame.Tells frames entries) (size : Nat)
    (r : BlockReader) : fetchedAfter size frames r = size := by
  induction htells generalizing r with
  | nil => rfl
  | cons hf _ ih =>
    rw [fetchedAfter, Frame.entry_eq_ok_iff.2 hf]
    exact ih _

/-! ## Opening -/

/-- A journal just opened over frames that hold the entries, and what then stands at its path. -/
structure Opened (frames : List Frame) (entries : List Entry) (j : Journal) (slot : FileSlot) :
    Prop where
  /-- The file consists of the frames. -/
  file : slot = ⟨false, .file (frames.flatMap Frame.encode)⟩
  /-- The next number is the one after the greatest, or zero if there is none. -/
  next : j.nextLsn.toNat = (entries.map (·.lsn.toNat)).max?.elim 0 (· + 1)
  /-- Reading finds the entries in the order of their numbers, and moves nothing. -/
  read : ∃ sorted, j.readAll = (.ok sorted, j) ∧ InOrder entries sorted
  /-- Closing the journal leaves the file as it is. -/
  close : j.close = slot.node
  /-- Opening the file again gives the same journal over the same file. -/
  again : openAt.run slot = .ok j slot

/-- The journal over frames that hold the entries. -/
def ofFrames (frames : List Frame) (entries : List Entry) : Journal where
  content := frames.flatMap Frame.encode
  displaced := none
  cursor := (frames.flatMap Frame.encode).length
  pending := []
  nextLsn := entries.foldl lsnAfter 0

theorem Parted.run_openAt (h : Parted bytes frames tail)
    (htells : List.Forall₂ Frame.Tells frames entries) :
    openAt.run ⟨false, .file bytes⟩ =
      .ok (ofFrames frames entries) ⟨false, .file (frames.flatMap Frame.encode)⟩ := by
  have hkept := take_extent bytes
  rw [h.scan_eq] at hkept
  have hentries : Scan.entries ⟨frames, tail⟩ = .ok entries := mapM_entry_eq_ok_iff.2 htells
  rw [run_openAt_file, h.scan_eq, hentries, hkept]
  rfl

theorem Parted.run_openAt_of_refused (h : Parted bytes frames tail) {f : Frame} (hf : f ∈ frames)
    (hrefused : ∀ e, ¬ f.Tells e) :
    ∃ error, openAt.run ⟨false, .file bytes⟩ = .error error ⟨false, .file bytes⟩ := by
  cases hentries : Scan.entries ⟨frames, tail⟩ with
  | ok entries =>
    rcases exists_mapM_entry_iff.1 ⟨entries, hentries⟩ f hf with ⟨e, he⟩
    exact absurd he (hrefused e)
  | error cause => exact ⟨cause, by rw [run_openAt_file, h.scan_eq, hentries]⟩

theorem Parted.cut (h : Parted bytes frames tail) :
    Parted (frames.flatMap Frame.encode) frames [] :=
  ⟨(List.append_nil _).symm, h.fit, .inl (by decide)⟩

theorem Parted.opened (h : Parted bytes frames tail)
    (htells : List.Forall₂ Frame.Tells frames entries) (hnext : ∀ e ∈ entries, e.HasNext) :
    Opened frames entries (ofFrames frames entries)
      ⟨false, .file (frames.flatMap Frame.encode)⟩ := by
  constructor
  · rfl
  · exact toNat_next hnext
  · refine ⟨entries.mergeSort fun a b => a.lsn ≤ b.lsn, ?_, inOrder_mergeSort entries⟩
    simp only [readAll, ofFrames, h.cut.scan_eq, collect_items htells,
      fetchedAfter_eq_size htells, Except.map]
  · simp [close, flush, write, overlay, node, ofFrames]
  · exact h.cut.run_openAt htells

/-- Any bytes fall into complete frames and a tail in one way. The file that has them is opened
exactly if each frame has the checksum of its payload and an entry at the start of it; it then
consists of the frames, and the journal has their entries. Otherwise the file stays as it is. -/
theorem opening_any_bytes (bytes : Bytes)
    (hnext : ∀ frames tail, Parted bytes frames tail → ∀ f ∈ frames, ∀ e, f.Tells e → e.HasNext) :
    ∃ frames tail, Parted bytes frames tail ∧
      (∀ frames' tail', Parted bytes frames' tail' → frames' = frames ∧ tail' = tail) ∧
      ((∃ j slot, openAt.run ⟨false, .file bytes⟩ = .ok j slot) ↔
        ∀ f ∈ frames, ∃ e, f.Tells e) ∧
      (∀ j slot, openAt.run ⟨false, .file bytes⟩ = .ok j slot →
        ∃ entries, List.Forall₂ Frame.Tells frames entries ∧ Opened frames entries j slot) ∧
      (∀ error slot, openAt.run ⟨false, .file bytes⟩ = .error error slot →
        slot = ⟨false, .file bytes⟩) := by
  have hparted := parted_scan bytes
  refine ⟨_, _, hparted, ?_, ?_⟩
  · intro frames' tail' hother
    rw [hother.scan_eq]
    exact ⟨rfl, rfl⟩
  · generalize (scan bytes).frames = frames, (scan bytes).tail = tail at hparted
    by_cases hall : ∀ f ∈ frames, ∃ e, f.Tells e
    · rcases exists_mapM_entry_iff.2 hall with ⟨entries, hentries⟩
      have htells := mapM_entry_eq_ok_iff.1 hentries
      have hrun := hparted.run_openAt htells
      have hnexts : ∀ e ∈ entries, e.HasNext := by
        intro e he
        rcases List.mem_iff_getElem.1 he with ⟨i, hi, rfl⟩
        have hframe : i < frames.length := htells.length_eq ▸ hi
        exact hnext _ _ hparted _ (List.getElem_mem hframe) _ (htells.get hframe hi)
      refine ⟨⟨fun _ => hall, fun _ => ⟨_, _, hrun⟩⟩, ?_, ?_⟩
      · intro j slot hok
        rw [hrun] at hok
        cases hok
        exact ⟨entries, htells, hparted.opened htells hnexts⟩
      · intro error slot herror
        rw [hrun] at herror
        cases herror
    · have hrefused : ∃ f ∈ frames, ∀ e, ¬ f.Tells e := by
        simpa only [not_forall, not_exists, exists_prop] using hall
      rcases hrefused with ⟨f, hf, hnone⟩
      rcases hparted.run_openAt_of_refused hf hnone with ⟨error, hrun⟩
      refine ⟨⟨?_, fun h => absurd h hall⟩, ?_, ?_⟩
      · rintro ⟨j, slot, hok⟩
        rw [hrun] at hok
        cases hok
      · intro j slot hok
        rw [hrun] at hok
        cases hok
      · intro error' slot herror
        rw [hrun] at herror
        cases herror
        rfl

/-- A transaction that began and was rolled back, told in the wrong order. -/
def turnedAround : List Entry := [⟨7, ⟨1⟩, .settled .rollback⟩, ⟨3, ⟨1⟩, .began [] .snapshot⟩]

/-- The start of a frame whose payload is missing. -/
def cutShort : Bytes := [5, 0, 0, 0, 120, 144, 158, 126]

theorem fits_turnedAround : ∀ e ∈ turnedAround, e.Fits := by
  simp only [turnedAround, List.forall_mem_cons]
  exact ⟨Entry.fits_settled .., Entry.fits_began _ _ (by decide) _, nofun⟩

theorem parted_turnedAround :
    Parted (image turnedAround ++ cutShort) (turnedAround.map Frame.ofEntry) cutShort :=
  ⟨rfl, fun h => length_payload_ofEntry fits_turnedAround _ h, .inr (by decide)⟩

theorem hasNext_turnedAround : ∀ e ∈ turnedAround, e.HasNext := by
  simp only [turnedAround, List.forall_mem_cons, Entry.HasNext]
  exact ⟨by decide, by decide, nofun⟩

/-- The file of two entries and the start of a third frame is opened with the two. -/
theorem opening_any_bytes_tornTail :
    (∀ frames tail, Parted (image turnedAround ++ cutShort) frames tail →
      ∀ f ∈ frames, ∀ e, f.Tells e → e.HasNext) ∧
    ∃ j slot, openAt.run ⟨false, .file (image turnedAround ++ cutShort)⟩ = .ok j slot ∧
      Opened (turnedAround.map Frame.ofEntry) turnedAround j slot := by
  have hnext : ∀ frames tail, Parted (image turnedAround ++ cutShort) frames tail →
      ∀ f ∈ frames, ∀ e, f.Tells e → e.HasNext := by
    intro frames tail hparted f hf e he
    have hscan := parted_turnedAround.scan_eq.symm.trans hparted.scan_eq
    cases hscan
    rcases List.mem_map.1 hf with ⟨e', he', rfl⟩
    have hentry := Frame.entry_ofEntry (fits_turnedAround e' he')
    cases hentry.symm.trans (Frame.entry_eq_ok_iff.2 he)
    exact hasNext_turnedAround e he'
  refine ⟨hnext, ?_⟩
  rcases opening_any_bytes _ hnext with ⟨frames, tail, _, hone, hopens, hopened, _⟩
  rcases hone _ _ parted_turnedAround with ⟨rfl, rfl⟩
  rcases hopens.2 (exists_mapM_entry_iff.1 ⟨_, mapM_entry fits_turnedAround⟩) with ⟨j, slot, hrun⟩
  rcases hopened j slot hrun with ⟨entries, htells, hj⟩
  cases (mapM_entry fits_turnedAround).symm.trans (mapM_entry_eq_ok_iff.2 htells)
  exact ⟨j, slot, hrun, hj⟩

end Journal

end SnapshotIsolation
