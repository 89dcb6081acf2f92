import SnapshotIsolation.Proofs.Journal.Misfits

/-!
# Damaged lengths

The checksum of a frame guards its payload, but not the length in front of it. As long as a damaged
length stays within the file, the frame that it heads is refused and the file is left alone. A
length that points past the end of the file looks like an unfinished last write, so the frame is
cut off with all that follows it.

Main results:

- Theorem {lit}`Journal.Logged.eq_holding`: recording events leads to a file of their frames.
- Theorem {lit}`Journal.length_damage_outcomes`: what opening makes of a damaged length.
-/

namespace SnapshotIsolation

namespace Journal

/-! ## Journals that events were recorded in -/

/-- A journal that was opened where no file stood, and the entries of the events recorded in it
since; in between it may be closed and opened again. -/
inductive Logged : Journal → List Entry → Prop
  | opened {j : Journal} {slot : FileSlot} : openAt.run .vacant = .ok j slot → Logged j []
  | recorded {j : Journal} {entries : List Entry} {txn : Timestamp} {event : Event} :
      Logged j entries → Entry.Fits ⟨(j.log txn event).1, txn, event⟩ →
      Logged (j.log txn event).2 (entries ++ [⟨(j.log txn event).1, txn, event⟩])
  | reopened {j j' : Journal} {entries : List Entry} {slot : FileSlot} : Logged j entries →
      openAt.run ⟨false, j.close⟩ = .ok j' slot → Logged j' entries

variable {j : Journal} {entries before after : List Entry} {e : Entry} {i : Nat} {mask : UInt8}
  {tail : Bytes}

/-- Recording events leads to a file of their frames, numbered in order. -/
theorem Logged.eq_holding (h : Logged j entries) : j = holding entries ∧ Legible entries := by
  induction h with
  | opened hopen =>
    rw [FileSlot.vacant, run_openAt_missing] at hopen
    cases hopen
    exact ⟨rfl, legible_nil⟩
  | @recorded j entries txn event _ hfits ih =>
    rcases ih with ⟨rfl, hlegible⟩
    exact ⟨log_holding .., hlegible.concat rfl hfits⟩
  | @reopened j j' entries slot _ hopen ih =>
    rcases ih with ⟨rfl, hlegible⟩
    have hclosed : (holding entries).close = .file (image entries) := by
      rw [close, flush_holding]
      rfl
    have hscan := congrArg Scan.frames (scan_image fun _ he => hlegible.fits he)
    have hrun : openAt.run ⟨false, .file (image entries)⟩ =
        .ok (holding entries) ⟨false, .file (image entries)⟩ :=
      run_openAt rfl (by simp) (fun _ he => hlegible.fits he) hscan
    rw [hclosed, hrun] at hopen
    cases hopen
    exact ⟨rfl, hlegible⟩

/-- The entries that were recorded first can be read as well. -/
theorem Logged.legible_of_prefix (h : Logged j entries) (hbefore : before <+: entries) :
    Legible before := by
  induction h generalizing before with
  | opened _ => exact List.prefix_nil.1 hbefore ▸ legible_nil
  | recorded hlogged hfits ih =>
    rcases List.prefix_concat_iff.1 hbefore with rfl | hbefore
    · exact (hlogged.recorded hfits).eq_holding.2
    · exact ih hbefore
  | reopened _ _ ih => exact ih hbefore

/-! ## Changing a length -/

/-- Changes inside the first part of bytes that follow others. -/
theorem modify_middle {first middle last : Bytes} (h : i < middle.length) (f : UInt8 → UInt8) :
    (first ++ (middle ++ last)).modify (first.length + i) f =
      first ++ (middle.modify i f ++ last) := by
  induction first with
  | nil =>
    rw [List.nil_append, List.nil_append, List.length_nil, Nat.zero_add]
    induction middle generalizing i with
    | nil => cases h
    | cons b middle ih =>
      cases i with
      | zero => rfl
      | succ i =>
        rw [List.cons_append, List.modify_succ_cons, List.modify_succ_cons, List.cons_append,
          ih (Nat.lt_of_succ_lt_succ h)]
  | cons b first ih =>
    rw [List.cons_append, List.length_cons, Nat.add_right_comm, List.modify_succ_cons, ih,
      List.cons_append]

/-- The bytes of an entry's length with one of them changed. -/
def damagedHeader (e : Entry) (i : Nat) (mask : UInt8) : Bytes :=
  (Bytes.littleEndian 4 e.put.length).modify i (· ^^^ mask)

/-- The length that the changed bytes tell. -/
def damagedLength (e : Entry) (i : Nat) (mask : UInt8) : Nat :=
  Bytes.natLE (damagedHeader e i mask)

theorem length_damagedHeader (e : Entry) (i : Nat) (mask : UInt8) :
    (damagedHeader e i mask).length = 4 := by
  rw [damagedHeader, List.length_modify, Bytes.length_littleEndian]

/-- The frame of an entry with a damaged length, and what follows it. -/
def damagedFrame (e : Entry) (i : Nat) (mask : UInt8) (tail : Bytes) : Bytes :=
  damagedHeader e i mask ++ Bytes.littleEndian 4 (Checksum.crc32 e.put).toNat ++ (e.put ++ tail)

/-- Flipping bits of a byte of an entry's length damages its frame and nothing else. -/
theorem flip_image (before : List Entry) (e : Entry) (after : List Entry) (hi : i < 4)
    (mask : UInt8) :
    (Node.file (image (before ++ e :: after))).flip ((image before).length + i) mask =
      .file (image before ++ damagedFrame e i mask (image after)) := by
  have himage : image (before ++ e :: after) =
      image before ++ (Bytes.littleEndian 4 e.put.length ++
        (Bytes.littleEndian 4 (Checksum.crc32 e.put).toNat ++ (e.put ++ image after))) := by
    simp [image, Frame.encode, Frame.ofEntry]
  rw [Node.flip, himage, modify_middle (by rw [Bytes.length_littleEndian]; exact hi), damagedFrame,
    damagedHeader, List.append_assoc]

theorem xor_ne_self (hmask : mask ≠ 0) (b : UInt8) : b ^^^ mask ≠ b := by
  intro hsame
  apply hmask
  calc mask = b ^^^ (b ^^^ mask) := by rw [← UInt8.xor_assoc, UInt8.xor_self, UInt8.zero_xor]
    _ = 0 := by rw [hsame, UInt8.xor_self]

/-- A change of one byte of a number changes the number. -/
theorem natLE_modify_ne {width : Nat} (hi : i < width) (hmask : mask ≠ 0) (n : Nat) :
    Bytes.natLE ((Bytes.littleEndian width n).modify i (· ^^^ mask)) ≠ n := by
  intro hsame
  have hlong : i < (Bytes.littleEndian width n).length := by
    rw [Bytes.length_littleEndian]
    exact hi
  have hbytes : Bytes.littleEndian width n = (Bytes.littleEndian width n).modify i (· ^^^ mask) := by
    have hread := Bytes.littleEndian_natLE ((Bytes.littleEndian width n).modify i (· ^^^ mask))
    rwa [List.length_modify, Bytes.length_littleEndian, hsame] at hread
  have hbyte := congrArg (·[i]?) hbytes
  simp only [List.getElem?_modify_eq, List.getElem?_eq_getElem hlong, Option.map_eq_map,
    Option.map_some, Option.some.injEq] at hbyte
  exact xor_ne_self hmask _ hbyte.symm

/-- A change of one byte changes the length. -/
theorem damagedLength_ne (hi : i < 4) (hmask : mask ≠ 0) :
    damagedLength e i mask ≠ e.put.length :=
  natLE_modify_ne hi hmask e.put.length

/-! ## Opening a damaged file -/

/-- Frames before the damage are found as they were. -/
theorem scan_image_append (h : ∀ e ∈ entries, e.Fits) (rest : Bytes) :
    scan (image entries ++ rest) =
      ⟨entries.map Frame.ofEntry ++ (scan rest).frames, (scan rest).tail⟩ := by
  induction entries with
  | nil => rfl
  | cons e entries ih =>
    have himage : image (e :: entries) ++ rest =
        (Frame.ofEntry e).encode ++ (image entries ++ rest) := by simp [image]
    have hsplit := Frame.split_encode_append (f := Frame.ofEntry e) (h e List.mem_cons_self)
      (image entries ++ rest)
    rw [himage, scan_of_split_some hsplit, ih fun a ha => h a (List.mem_cons_of_mem _ ha)]
    rfl

/-- What cannot be split into frames is cut off. -/
theorem run_openAt_of_split_none (h : ∀ e ∈ entries, e.Fits)
    (hsplit : Frame.split tail = none) :
    openAt.run ⟨false, .file (image entries ++ tail)⟩ =
      .ok (holding entries) ⟨false, .file (image entries)⟩ := by
  apply run_openAt rfl (by simp) h
  have hscan := congrArg Scan.frames (scan_image_append h tail)
  rw [scan_of_split_none hsplit, List.append_nil] at hscan
  exact hscan

/-- A damaged frame is refused, and the file is left alone. -/
theorem run_openAt_of_entry_error {f : Frame} {rest : Bytes} {cause : JournalError}
    (h : ∀ e ∈ entries, e.Fits) (hsplit : Frame.split tail = some (f, rest))
    (hentry : f.entry = .error cause) :
    openAt.run ⟨false, .file (image entries ++ tail)⟩ =
      .error cause ⟨false, .file (image entries ++ tail)⟩ := by
  have hentries : (scan (image entries ++ tail)).entries = .error cause := by
    rw [Scan.entries, scan_image_append h, scan_of_split_some hsplit, List.mapM_append, mapM_entry h,
      List.mapM_cons, hentry]
    rfl
  rw [run_openAt_file, hentries]

theorem split_damagedFrame (e : Entry) (i : Nat) (mask : UInt8) (tail : Bytes) :
    Frame.split (damagedFrame e i mask tail) =
      if damagedLength e i mask ≤ (e.put ++ tail).length then
        some (⟨Checksum.crc32 e.put, (e.put ++ tail).take (damagedLength e i mask)⟩,
          (e.put ++ tail).drop (damagedLength e i mask))
      else none :=
  Frame.split_header (length_damagedHeader e i mask) _ _

/-- The first bytes of an entry are no entry, whatever their checksum. -/
theorem exists_error_of_short (h : e.Countable) {length : Nat} (hshort : length < e.put.length)
    (tail : Bytes) :
    ∃ cause, Frame.entry ⟨Checksum.crc32 e.put, (e.put ++ tail).take length⟩ = .error cause := by
  rw [List.take_append_of_le_length (Nat.le_of_lt hshort), Frame.entry]
  split
  · split
    · rename_i hdecode
      exact absurd hdecode (Entry.decode_ne_ok_of_take h hshort _)
    · exact ⟨_, rfl⟩
  · exact ⟨_, rfl⟩

/-- A change of one byte of a length changes the length. If the file still has as many bytes as the
length tells, opening refuses the frame and leaves the file alone, unless the bytes that a longer
frame takes in happen to have the same checksum. If the length points past the end of the file, the
frame is cut off with all entries that follow it. -/
theorem length_damage_outcomes (h : Logged j (before ++ e :: after)) (i : Nat) (mask : UInt8)
    (hi : i < 4) (hmask : mask ≠ 0) :
    let damaged := j.node.flip ((image before).length + i) mask
    let length := damagedLength e i mask
    let body := e.put ++ image after
    length ≠ e.put.length ∧
      (length ≤ body.length →
        (e.put.length < length → Checksum.crc32 (body.take length) ≠ Checksum.crc32 e.put) →
          ∃ cause, openAt.run ⟨false, damaged⟩ = .error cause ⟨false, damaged⟩) ∧
        (body.length < length →
          openAt.run ⟨false, damaged⟩ = .ok (holding before) ⟨false, .file (image before)⟩ ∧
            (holding before).readAll.1 = .ok before) := by
  intro damaged length body
  have hbefore : Legible before := h.legible_of_prefix (List.prefix_append ..)
  rcases h.eq_holding with ⟨rfl, hlegible⟩
  have hfile : damaged = .file (image before ++ damagedFrame e i mask (image after)) :=
    flip_image before e after hi mask
  have hfits : ∀ a ∈ before, a.Fits := fun a ha => hbefore.fits ha
  have hcountable : e.Countable :=
    (hlegible.fits (List.mem_append_right _ List.mem_cons_self)).countable
  have hsplit := split_damagedFrame e i mask (image after)
  have hchanged := damagedLength_ne (e := e) hi hmask
  rw [hfile]
  refine ⟨hchanged, ?_, ?_⟩
  · intro hwithin hchecksum
    rw [if_pos hwithin] at hsplit
    rcases Nat.lt_or_gt_of_ne hchanged with hshort | hlong
    · rcases exists_error_of_short hcountable hshort (image after) with ⟨cause, hentry⟩
      exact ⟨cause, run_openAt_of_entry_error hfits hsplit hentry⟩
    · exact ⟨.checksumMismatch,
        run_openAt_of_entry_error hfits hsplit (if_neg (hchecksum hlong))⟩
  · intro hbeyond
    rw [if_neg (Nat.not_le_of_lt hbeyond)] at hsplit
    refine ⟨run_openAt_of_split_none hfits hsplit, ?_⟩
    rw [readAll_holding hbefore]

/-- A transaction begins and commits. -/
def beganAndCommitted : Journal :=
  (((holding []).log ⟨1⟩ (.began [] .snapshot)).2.log ⟨1⟩ (.settled (.commit ⟨2⟩))).2

theorem logged_beganAndCommitted :
    Logged beganAndCommitted
      [⟨0, ⟨1⟩, .began [] .snapshot⟩, ⟨1, ⟨1⟩, .settled (.commit ⟨2⟩)⟩] := by
  have hopened : Logged (holding []) [] := .opened run_openAt_missing
  have hbegan : Logged ((holding []).log ⟨1⟩ (.began [] .snapshot)).2 _ :=
    hopened.recorded (Entry.fits_began _ _ (by decide) _)
  exact hbegan.recorded (Entry.fits_settled ..)

/-- The length of the first entry is five. Changed to four or to seven, it is noticed; changed to
more than the file has, it costs both entries. -/
theorem length_damage_outcomes_beganAndCommitted :
    (∃ cause, openAt.run ⟨false, beganAndCommitted.node.flip 0 1⟩ =
        .error cause ⟨false, beganAndCommitted.node.flip 0 1⟩) ∧
      (∃ cause, openAt.run ⟨false, beganAndCommitted.node.flip 0 2⟩ =
        .error cause ⟨false, beganAndCommitted.node.flip 0 2⟩) ∧
      openAt.run ⟨false, beganAndCommitted.node.flip 3 1⟩ = .ok (holding []) ⟨false, .file []⟩ := by
  have hlogged : Logged beganAndCommitted ([] ++ _ :: _) := logged_beganAndCommitted
  refine ⟨?_, ?_, ?_⟩
  · exact (length_damage_outcomes hlogged 0 1 (by decide) (by decide)).2.1 (by decide +kernel)
      (by decide +kernel)
  · exact (length_damage_outcomes hlogged 0 2 (by decide) (by decide)).2.1 (by decide +kernel)
      (by decide +kernel)
  · exact ((length_damage_outcomes hlogged 3 1 (by decide) (by decide)).2.2 (by decide +kernel)).1

/-- One byte of the first length changes, and opening the file succeeds with neither of the two
entries left, in the journal or in the file. -/
theorem length_damage_erases_entries :
    Logged beganAndCommitted
        [⟨0, ⟨1⟩, .began [] .snapshot⟩, ⟨1, ⟨1⟩, .settled (.commit ⟨2⟩)⟩] ∧
      ∃ j, openAt.run ⟨false, beganAndCommitted.node.flip 3 1⟩ = .ok j ⟨false, .file []⟩ ∧
        j.readAll.1 = .ok [] := by
  refine ⟨logged_beganAndCommitted, holding [], ?_, ?_⟩
  · have hfile : beganAndCommitted.node.flip 3 1 =
        .file (image [] ++ damagedFrame ⟨0, ⟨1⟩, .began [] .snapshot⟩ 3 1
          (image [⟨1, ⟨1⟩, .settled (.commit ⟨2⟩)⟩])) := by
      rw [logged_beganAndCommitted.eq_holding.1]
      exact flip_image (i := 3) [] _ _ (by decide) 1
    have hsplit : Frame.split (damagedFrame ⟨0, ⟨1⟩, .began [] .snapshot⟩ 3 1
        (image [⟨1, ⟨1⟩, .settled (.commit ⟨2⟩)⟩])) = none := by
      rw [split_damagedFrame, if_neg (by decide +kernel)]
    rw [hfile]
    exact run_openAt_of_split_none (fun _ he => legible_nil.fits he) hsplit
  · rw [readAll_holding legible_nil]

end Journal

end SnapshotIsolation
