import Mathlib.Data.List.Induction
import SnapshotIsolation.Proofs.Journal.Detection

/-!
# Where writes land

Reading goes through the open file that the journal writes to, so it moves the place at which the
next write lands. Iterating goes to the end of the file, and so does reading that answers. Reading
that meets a fault stops with the block that was fetched last. Where the file goes on behind that
block, the next write overwrites it.

Main results:

- Theorem {lit}`Journal.exists_stoppedAt`: where reading stops if it leaves part of the file.
- Theorem {lit}`Journal.Used.placed`: where the next write of a journal in use lands.
- Theorem {lit}`Journal.writes_extend_the_file`: as long as no reading stopped short, writes only
  extend the file.
-/

namespace SnapshotIsolation

namespace Journal

variable {j : Journal} {short : Bool} {data content : Bytes} {position size : Nat} {r : BlockReader}
  {frames : List Frame} {e : Entry} {rest : List Entry}

/-! ## Reading in blocks -/

/-- Taking bytes fetches no less of the file, and no more than there is. -/
theorem BlockReader.fetched_take (h : r.fetched ≤ size) (count : Nat) :
    r.fetched ≤ (r.take size count).fetched ∧ (r.take size count).fetched ≤ size := by
  simp only [BlockReader.take]
  split
  · exact ⟨Nat.le_refl _, h⟩
  · split
    · exact ⟨Nat.le_min.2 ⟨Nat.le_add_right .., h⟩, Nat.min_le_right ..⟩
    · exact ⟨Nat.le_min.2 ⟨Nat.le_add_right .., h⟩, Nat.min_le_right ..⟩

theorem fetchedAfter_bounds (h : r.fetched ≤ size) :
    r.fetched ≤ fetchedAfter size frames r ∧ fetchedAfter size frames r ≤ size := by
  induction frames generalizing r with
  | nil => exact ⟨h, Nat.le_refl _⟩
  | cons f frames ih =>
    rcases BlockReader.fetched_take h Frame.headerSize with ⟨hheader, hsize⟩
    rcases BlockReader.fetched_take hsize f.payload.length with ⟨hpayload, hsize⟩
    simp only [fetchedAfter]
    split
    · rcases ih hsize with ⟨hmore, hall⟩
      exact ⟨by omega, hall⟩
    · exact ⟨by omega, hsize⟩

/-- The first header comes with a block, unless the file is shorter. -/
theorem BlockReader.take_header (size : Nat) :
    BlockReader.take size Frame.headerSize ⟨0, 0⟩ =
      ⟨min blockSize size, min blockSize size - Frame.headerSize⟩ := by
  simp [BlockReader.take, Frame.headerSize, blockSize]

theorem min_le_fetchedAfter (size : Nat) (frames : List Frame) :
    min blockSize size ≤ fetchedAfter size frames ⟨0, 0⟩ := by
  cases frames with
  | nil => exact Nat.min_le_right ..
  | cons f frames =>
    have hsize : min blockSize size ≤ size := Nat.min_le_right ..
    simp only [fetchedAfter, BlockReader.take_header]
    rcases BlockReader.fetched_take (r := ⟨_, min blockSize size - Frame.headerSize⟩) hsize
      f.payload.length with ⟨hpayload, hsize⟩
    split
    · exact Nat.le_trans hpayload (fetchedAfter_bounds hsize).1
    · exact hpayload

/-- A fault in a short frame at the start of a long file is found in the first block. -/
theorem fetchedAfter_of_first_refused {f : Frame} {cause : JournalError}
    (hentry : f.entry = .error cause) (hshort : f.size ≤ blockSize) (hlong : blockSize ≤ size) :
    fetchedAfter size (f :: frames) ⟨0, 0⟩ = blockSize := by
  have hpayload : f.payload.length ≤ blockSize - Frame.headerSize := by
    rw [Frame.size] at hshort
    omega
  have hfound : f.entry.toBool = false := by rw [hentry, Except.toBool]
  simp only [fetchedAfter, hfound, Bool.false_eq_true, if_false]
  rw [BlockReader.take_header, Nat.min_eq_left hlong, BlockReader.take, if_pos hpayload]

/-- Reading stops at a fault with part of the file not fetched. -/
def stopsShort (j : Journal) : Bool :=
  fetchedAfter j.content.length (scan j.content).frames ⟨0, 0⟩ < j.content.length

theorem stopsShort_eq_false (h : j.content.length ≤ blockSize) : j.stopsShort = false := by
  have hfirst := min_le_fetchedAfter j.content.length (scan j.content).frames
  rw [Nat.min_eq_right h] at hfirst
  exact decide_eq_false (Nat.not_lt_of_le hfirst)

/-- Reading that leaves part of the file stops at the first frame without an entry. -/
theorem exists_refused_of_fetchedAfter (h : fetchedAfter size frames r < size) :
    ∃ before f after cause, frames = before ++ f :: after ∧
      (∀ g ∈ before, g.entry.toBool = true) ∧ f.entry = .error cause := by
  induction frames generalizing r with
  | nil => exact absurd h (Nat.lt_irrefl _)
  | cons f frames ih =>
    cases hentry : f.entry with
    | error cause => exact ⟨[], f, frames, cause, rfl, nofun, hentry⟩
    | ok e =>
      simp only [fetchedAfter, hentry, Except.toBool, if_true] at h
      rcases ih h with ⟨before, g, after, cause, rfl, hbefore, hg⟩
      refine ⟨f :: before, g, after, cause, rfl, ?_, hg⟩
      simp only [List.forall_mem_cons, hentry, Except.toBool, true_and]
      exact hbefore

/-- A reader that has handed out part of the file goes on behind it. -/
theorem BlockReader.take_within {handed : Nat} (hfetched : r.fetched ≤ size)
    (hahead : r.fetched = handed + r.ahead) (count : Nat) (hroom : handed + count ≤ size) :
    (r.take size count).fetched ≤ size ∧
      (r.take size count).fetched = handed + count + (r.take size count).ahead := by
  simp only [BlockReader.take]
  split
  · exact ⟨hfetched, by simp only; omega⟩
  · split
    · exact ⟨Nat.min_le_right .., by simp only; omega⟩
    · exact ⟨Nat.min_le_right .., by simp only; omega⟩

theorem BlockReader.take_frame {handed : Nat} {f : Frame} (hfetched : r.fetched ≤ size)
    (hahead : r.fetched = handed + r.ahead) (hroom : handed + f.size ≤ size) :
    let r' := (r.take size Frame.headerSize).take size f.payload.length
    r'.fetched ≤ size ∧ r'.fetched = handed + f.size + r'.ahead := by
  intro r'
  rw [Frame.size] at hroom
  rcases BlockReader.take_within hfetched hahead Frame.headerSize (by omega) with
    ⟨hfetched, hahead⟩
  rcases BlockReader.take_within hfetched hahead f.payload.length (by omega) with
    ⟨hfetched, hahead⟩
  exact ⟨hfetched, by rw [hahead, Frame.size, Nat.add_assoc handed]⟩

/-- The frames up to the first one without an entry have been fetched when reading stops there. -/
theorem le_fetchedAfter_of_refused {before : List Frame} {f : Frame} {cause : JournalError}
    {handed : Nat} (hbefore : ∀ g ∈ before, g.entry.toBool = true) (hf : f.entry = .error cause)
    (after : List Frame) (hfetched : r.fetched ≤ size) (hahead : r.fetched = handed + r.ahead)
    (hroom : handed + ((before ++ [f]).flatMap Frame.encode).length ≤ size) :
    handed + ((before ++ [f]).flatMap Frame.encode).length ≤
      fetchedAfter size (before ++ f :: after) r := by
  induction before generalizing r handed with
  | nil =>
    simp only [List.nil_append, List.flatMap_cons, List.flatMap_nil, List.append_nil,
      Frame.length_encode] at hroom ⊢
    have hframe := (BlockReader.take_frame hfetched hahead hroom).2
    simp only [fetchedAfter, hf, Except.toBool, Bool.false_eq_true, if_false]
    omega
  | cons g before ih =>
    simp only [List.cons_append, List.flatMap_cons, List.length_append, Frame.length_encode,
      ← Nat.add_assoc] at hroom ⊢
    rcases BlockReader.take_frame (f := g) hfetched hahead (by omega) with ⟨hfetched, hahead⟩
    rw [fetchedAfter, if_pos (hbefore g List.mem_cons_self)]
    exact ih (fun a ha => hbefore a (List.mem_cons_of_mem _ ha)) hfetched hahead hroom

/-! ## Journals in use -/

/-- A journal that was opened and used, while the file may have been changed in place. The flag
tells whether the last reading stopped short. -/
inductive Used : Bool → Journal → Prop
  | opened {j : Journal} {slot slot' : FileSlot} : openAt.run slot = .ok j slot' → Used false j
  | recorded {short : Bool} {j : Journal} (txn : Timestamp) (event : Event) :
      Used short j → Used short (j.log txn event).2
  | appended {short : Bool} {j : Journal} (e : Entry) : Used short j → Used short (j.append e)
  | flushed {short : Bool} {j : Journal} : Used short j → Used short j.flush
  | iterated {short : Bool} {j : Journal} : Used short j → Used false j.items.2
  | read {short : Bool} {j : Journal} : Used short j → Used j.stopsShort j.readAll.2
  | changed {short : Bool} {j : Journal} {change : Node → Node} {content : Bytes} :
      Used short j → change j.node = .file content → content.length = j.content.length →
      Used short (j.edit change)

/-- The next write lands in the file at its path, and at its end unless a reading stopped short. -/
structure Placed (short : Bool) (j : Journal) : Prop where
  attached : j.displaced = none
  within : j.cursor ≤ j.content.length
  last : short = false → j.cursor = j.content.length

theorem overlay_nil (position : Nat) (content : Bytes) : overlay position [] content = content :=
  rfl

theorem overlay_within (h : position ≤ content.length) (hdata : data ≠ []) :
    overlay position data content =
      content.take position ++ data ++ content.drop (position + data.length) := by
  have hgap : position - content.length = 0 := Nat.sub_eq_zero_of_le h
  rw [overlay, if_neg (by simpa using hdata), hgap, List.replicate_zero, List.append_nil]

theorem length_overlay (h : position ≤ content.length) (data : Bytes) :
    (overlay position data content).length = max content.length (position + data.length) := by
  by_cases hdata : data = []
  · subst hdata
    rw [overlay_nil, List.length_nil, Nat.add_zero, Nat.max_eq_left h]
  · rw [overlay_within h hdata]
    simp only [List.length_append, List.length_take, List.length_drop]
    omega

namespace Placed

theorem write (h : Placed short j) (data : Bytes) : Placed short (j.write data) := by
  have hlength : (j.write data).content.length = max j.content.length (j.cursor + data.length) :=
    length_overlay h.within data
  constructor
  · exact h.attached
  · rw [hlength]
    exact Nat.le_max_right ..
  · intro hshort
    rw [hlength, ← h.last hshort, Nat.max_eq_right (Nat.le_add_right ..)]
    rfl

theorem flush (h : Placed short j) : Placed short j.flush := by
  rcases h.write j.pending with ⟨hattached, hwithin, hlast⟩
  exact ⟨hattached, hwithin, hlast⟩

theorem push (h : Placed short j) (data : Bytes) : Placed short (j.push data) := by
  unfold Journal.push
  split
  · rcases h.flush with ⟨hattached, hwithin, hlast⟩
    exact ⟨hattached, hwithin, hlast⟩
  · exact h.flush.write data

theorem append (h : Placed short j) (e : Entry) : Placed short (j.append e) := by
  rcases h.push (Frame.ofEntry e).encode with ⟨hattached, hwithin, hlast⟩
  unfold Journal.append
  exact ⟨hattached, hwithin, hlast⟩

theorem readAll (h : Placed short j) : Placed j.stopsShort j.readAll.2 := by
  have hfetched : fetchedAfter j.content.length (scan j.content).frames ⟨0, 0⟩ ≤ j.content.length :=
    (fetchedAfter_bounds (Nat.zero_le _)).2
  refine ⟨h.attached, hfetched, ?_⟩
  intro hall
  exact Nat.le_antisymm hfetched (Nat.le_of_not_lt (of_decide_eq_false hall))

theorem edit (h : Placed short j) {change : Node → Node} (hchange : change j.node = .file content)
    (hlength : content.length = j.content.length) : Placed short (j.edit change) := by
  have hedit : j.edit change = { j with content := content } := by
    simp only [Journal.edit, hchange, h.attached]
  rw [hedit]
  exact ⟨h.attached, hlength ▸ h.within, hlength ▸ h.last⟩

end Placed

theorem placed_of_openAt {slot slot' : FileSlot} (h : openAt.run slot = .ok j slot') :
    Placed false j := by
  rcases openAt_eq_ok h with ⟨_, _, _, _, rfl⟩
  exact ⟨rfl, Nat.le_refl _, fun _ => rfl⟩

theorem Used.placed (h : Used short j) : Placed short j := by
  induction h with
  | opened hopen => exact placed_of_openAt hopen
  | recorded txn event _ ih => exact (ih.append _).flush
  | appended e _ ih => exact ih.append e
  | flushed _ ih => exact ih.flush
  | iterated _ ih => exact ⟨ih.attached, Nat.le_refl _, fun _ => rfl⟩
  | read _ ih => exact ih.readAll
  | changed _ hchange hlength ih => exact ih.edit hchange hlength

/-! ## Writing -/

/-- Whatever is written lands behind all bytes of the file: what waited in the buffer, and behind it
what is added. -/
structure OnlyExtends (j : Journal) : Prop where
  flush : j.flush.content = j.content ++ j.pending
  append (e : Entry) : ∃ written, (j.append e).content = j.content ++ written ∧
    written ++ (j.append e).pending = j.pending ++ (Frame.ofEntry e).encode
  log (txn : Timestamp) (event : Event) : (j.log txn event).2.content =
    j.content ++ j.pending ++ (Frame.ofEntry ⟨(j.log txn event).1, txn, event⟩).encode

/-- Recording writes what waits, and behind it the frame of the event. -/
theorem content_log (j : Journal) (txn : Timestamp) (event : Event) :
    (j.log txn event).2.content = overlay (j.cursor + j.pending.length)
      (Frame.ofEntry ⟨(j.log txn event).1, txn, event⟩).encode
      (overlay j.cursor j.pending j.content) := by
  simp only [log, append, push]
  split
  · rfl
  · rfl

/-- A frame that lands among bytes of the file makes it no longer. -/
theorem length_log_of_inside (hpending : j.pending = []) (txn : Timestamp) (event : Event)
    (hinside : j.cursor + (Frame.ofEntry ⟨(j.log txn event).1, txn, event⟩).size ≤
      j.content.length) :
    (j.log txn event).2.content.length = j.content.length := by
  rw [content_log, hpending, overlay_nil, List.length_nil, Nat.add_zero,
    length_overlay (Nat.le_trans (Nat.le_add_right ..) hinside), Frame.length_encode,
    Nat.max_eq_left hinside]

/-- Writes only extend the file exactly if the next one lands at its end. -/
theorem Placed.onlyExtends_iff (h : Placed short j) :
    j.OnlyExtends ↔ j.cursor = j.content.length := by
  constructor
  · intro hextends
    have hlog := congrArg List.length (hextends.log ⟨0⟩ (.settled .rollback))
    have hflush := length_overlay h.within j.pending
    rw [content_log, length_overlay (by omega), hflush, List.length_append, List.length_append,
      Frame.length_encode, Frame.size, Frame.headerSize] at hlog
    have hwithin := h.within
    omega
  · intro hend
    have hflush : overlay j.cursor j.pending j.content = j.content ++ j.pending := by
      rw [hend, overlay_end]
    have hnext : j.cursor + j.pending.length = (j.content ++ j.pending).length := by
      rw [hend, List.length_append]
    constructor
    · exact hflush
    · intro e
      unfold Journal.append Journal.push
      split
      · exact ⟨j.pending, hflush, rfl⟩
      · refine ⟨j.pending ++ (Frame.ofEntry e).encode, ?_, List.append_nil _⟩
        show overlay (j.cursor + j.pending.length) (Frame.ofEntry e).encode
          (overlay j.cursor j.pending j.content) = _
        rw [hflush, hnext, overlay_end, List.append_assoc]
    · intro txn event
      rw [content_log, hflush, hnext, overlay_end]

/-- Reading meets a fault and leaves the next write to land inside the file: behind the first block,
and behind the frames that it looked at. -/
structure StoppedAt (n : Nat) (j : Journal) : Prop where
  fault : ∃ found f cause, found ++ [f] <+: (scan j.content).frames ∧ f.entry = .error cause ∧
    j.readAll.1 = .error cause ∧ ((found ++ [f]).flatMap Frame.encode).length ≤ n
  block : blockSize ≤ n
  inside : n < j.content.length
  overwrites {data : Bytes} : data ≠ [] → (j.readAll.2.write data).content =
    j.content.take n ++ data ++ j.content.drop (n + data.length)

theorem collect_of_refused {before : List Frame} {cause : JournalError}
    (hbefore : ∀ g ∈ before, g.entry.toBool = true) (others : List (Except JournalError Entry)) :
    collect (before.map Frame.entry ++ .error cause :: others) = .error cause := by
  induction before with
  | nil => rfl
  | cons g before ih =>
    have hrest := ih fun a ha => hbefore a (List.mem_cons_of_mem _ ha)
    cases hg : g.entry with
    | error _ =>
      have hfound := hbefore g List.mem_cons_self
      rw [hg] at hfound
      cases hfound
    | ok e =>
      rw [collect] at hrest
      rw [List.map_cons, List.cons_append, hg, collect, List.mapM_cons, hrest]
      rfl

theorem exists_stoppedAt (h : j.stopsShort = true) : ∃ n, j.StoppedAt n := by
  have hinside : j.readAll.2.cursor < j.content.length := of_decide_eq_true h
  rcases exists_refused_of_fetchedAfter hinside with
    ⟨before, f, after, cause, hframes, hbefore, hf⟩
  have hitems : (scan j.content).items = before.map Frame.entry ++ .error cause ::
      (after.map Frame.entry ++
        if (scan j.content).tail.isEmpty then [] else [.error (.torn (scan j.content).extent)]) := by
    rw [Scan.items, hframes, List.map_append, List.map_cons, hf, List.append_assoc,
      List.cons_append]
  have hwhole : ((before ++ [f]).flatMap Frame.encode).length ≤ j.content.length := by
    have hbytes := congrArg List.length (Scan.bytes_scan j.content)
    rw [Scan.bytes, hframes, List.append_cons, List.flatMap_append, List.length_append,
      List.length_append] at hbytes
    omega
  refine ⟨j.readAll.2.cursor, ⟨before, f, cause, ?_, hf, ?_, ?_⟩, ?_, hinside, ?_⟩
  · exact ⟨after, (hframes.trans (List.append_cons ..)).symm⟩
  · simp only [readAll, hitems, collect_of_refused hbefore, Except.map]
  · have hfetched := le_fetchedAfter_of_refused (r := ⟨0, 0⟩) hbefore hf after
      (Nat.zero_le j.content.length) rfl (by rwa [Nat.zero_add])
    rwa [Nat.zero_add, ← hframes] at hfetched
  · have hfirst := min_le_fetchedAfter j.content.length (scan j.content).frames
    have hcursor : j.readAll.2.cursor =
      fetchedAfter j.content.length (scan j.content).frames ⟨0, 0⟩ := rfl
    omega
  · intro data hdata
    exact overlay_within (Nat.le_of_lt hinside) hdata

/-! ## A damaged first entry -/

/-- Flipping the first bit of the first checksum damages the first frame. -/
theorem edit_first (e : Entry) (rest : List Entry) :
    (holding (e :: rest)).edit (Node.flip 4 1) = { holding (e :: rest) with
      content := ((Frame.ofEntry e).damaged 0 1).encode ++ image rest } := by
  have hfile : (Node.file (image (e :: rest))).flip 4 1 =
      .file (((Frame.ofEntry e).damaged 0 1).encode ++ image rest) :=
    flip_image_behind_length (i := 0) [] rest (by omega) 1
  simp only [edit, node, holding, Option.getD_none, hfile]

/-- Reading a journal whose first entry was damaged is refused. If the journal has more than one
block, reading stops behind the first of them. -/
theorem readAll_of_first_damaged (h : ∀ a ∈ e :: rest, a.Fits) :
    let damaged := (holding (e :: rest)).edit (Node.flip 4 1)
    damaged.content.length = (image (e :: rest)).length ∧
      damaged.readAll.1 = .error .checksumMismatch ∧
      ((Frame.ofEntry e).size ≤ blockSize → blockSize < damaged.content.length →
        damaged.readAll.2.cursor = blockSize) := by
  intro damaged
  have hcontent : damaged.content = ((Frame.ofEntry e).damaged 0 1).encode ++ image rest :=
    congrArg content (edit_first e rest)
  have hentry : ((Frame.ofEntry e).damaged 0 1).entry = .error .checksumMismatch :=
    Frame.entry_damaged rfl (by omega) (by decide)
  have hpayload : ((Frame.ofEntry e).damaged 0 1).payload.length = e.put.length :=
    Frame.length_payload_damaged ..
  have hfits : ((Frame.ofEntry e).damaged 0 1).payload.length < UInt32.size :=
    hpayload ▸ h e List.mem_cons_self
  have hscan := scan_of_split_some (Frame.split_encode_append hfits (image rest))
  rw [← hcontent] at hscan
  refine ⟨?_, ?_, ?_⟩
  · rw [hcontent, List.length_append, Frame.length_encode, Frame.size, hpayload]
    simp [image, Frame.length_encode, Frame.size, Frame.ofEntry]
  · have hcollect : collect (scan damaged.content).items = .error .checksumMismatch := by
      rw [hscan, collect, Scan.items, List.map_cons, hentry]
      rfl
    simp only [readAll, hcollect, Except.map]
  · intro hshort hlong
    show fetchedAfter damaged.content.length (scan damaged.content).frames ⟨0, 0⟩ = blockSize
    rw [hscan]
    exact fetchedAfter_of_first_refused hentry (by rwa [Frame.size, hpayload]) (Nat.le_of_lt hlong)

theorem used_holding (entries : List Entry) : Used false (holding entries) := by
  induction entries using List.reverseRecOn with
  | nil => exact .opened run_openAt_missing
  | append_singleton entries e ih =>
    rcases append_buffering entries [] e with ⟨written, waiting, happend, hentries, _⟩
    rw [buffering_nil] at happend
    rw [List.append_nil] at hentries
    have hflush : ((holding entries).append e).flush = holding (entries ++ [e]) := by
      rw [happend, flush_buffering, hentries]
    rw [← hflush]
    exact (ih.appended e).flushed

theorem Used.flip (h : Used short j) (position : Nat) (mask : UInt8) :
    Used short (j.edit (Node.flip position mask)) := by
  have hnode : j.node = .file j.content := by
    rw [node, h.placed.attached]
    rfl
  exact h.changed (congrArg (Node.flip position mask) hnode) (List.length_modify ..)

/-- So many transactions begin, one after the other. -/
def begun (count : Nat) : List Entry :=
  (List.range count).map fun i => ⟨.ofNat i, ⟨.ofNat (i + 1)⟩, .began [] .snapshot⟩

theorem begun_succ (count : Nat) :
    ∃ rest, begun (count + 1) = ⟨0, ⟨1⟩, .began [] .snapshot⟩ :: rest := by
  rw [begun, List.range_succ_eq_map, List.map_cons]
  exact ⟨_, rfl⟩

theorem fits_begun (count : Nat) : ∀ e ∈ begun count, e.Fits := by
  intro e he
  rcases List.mem_map.1 he with ⟨i, _, rfl⟩
  exact Entry.fits_began _ _ (by decide) _

theorem headers_le_length_image (entries : List Entry) :
    Frame.headerSize * entries.length ≤ (image entries).length := by
  induction entries with
  | nil => exact Nat.le_refl _
  | cons e entries ih =>
    have himage : image (e :: entries) = (Frame.ofEntry e).encode ++ image entries := by simp [image]
    rw [himage, List.length_append, Frame.length_encode, Frame.size, List.length_cons, Nat.mul_succ]
    omega

/-! ## Files that are only extended -/

/-- Whatever was done with a journal, it only extends its file, unless the last reading stopped short.
Reading stops short only at a fault in a file of more than one block. The next write then overwrites
bytes that reading did not look at. -/
theorem writes_extend_the_file (h : Used short j) :
    (short = false → j.OnlyExtends) ∧ (j.readAll.2.OnlyExtends ↔ j.stopsShort = false) ∧
      (j.stopsShort = true → ∃ n, j.StoppedAt n) := by
  refine ⟨?_, ?_, exists_stoppedAt⟩
  · intro hshort
    exact h.placed.onlyExtends_iff.2 (h.placed.last hshort)
  · have hread := h.read.placed
    rw [hread.onlyExtends_iff]
    refine ⟨?_, hread.last⟩
    intro hend
    exact decide_eq_false (Nat.not_lt_of_le (Nat.le_of_eq hend.symm))

/-- The first entry of a small file is damaged, and reading stops there. What is recorded next lands
behind the other entry. -/
theorem writes_extend_the_file_smallFile :
    let damaged := beganAndCommitted.edit (Node.flip 4 1)
    let stopped := damaged.readAll.2
    Used false stopped ∧ damaged.readAll.1 = .error .checksumMismatch ∧
      (stopped.log ⟨2⟩ (.began [] .snapshot)).2.content =
        stopped.content ++ (Frame.ofEntry ⟨2, ⟨2⟩, .began [] .snapshot⟩).encode := by
  intro damaged stopped
  rcases logged_beganAndCommitted.eq_holding with ⟨hholding, hlegible⟩
  have hread : damaged.readAll.1 = .error .checksumMismatch := by
    simp only [damaged, hholding]
    exact (readAll_of_first_damaged fun _ he => hlegible.fits he).2.1
  have hopened : Used false beganAndCommitted := ((used_holding []).recorded _ _).recorded _ _
  have hwhole : damaged.stopsShort = false := stopsShort_eq_false (by decide +kernel)
  have hused : Used false stopped := hwhole ▸ (hopened.flip 4 1).read
  exact ⟨hused, hread, ((writes_extend_the_file hused).1 rfl).log ⟨2⟩ (.began [] .snapshot)⟩

/-- The first of many entries is damaged, and reading stops there. The next entry that is recorded
takes the place of others: the file is no longer afterwards. -/
theorem recording_overwrites_after_reading :
    let damaged := (holding (begun 1028)).edit (Node.flip 4 1)
    let stopped := damaged.readAll.2
    Used false damaged ∧ damaged.readAll.1 = .error .checksumMismatch ∧ Used true stopped ∧
      (stopped.log ⟨1⟩ (.settled .rollback)).2.content.length = stopped.content.length ∧
      ¬ stopped.OnlyExtends := by
  have hheaders := headers_le_length_image (begun 1028)
  have hcount : (begun 1028).length = 1028 := by simp [begun]
  have hfits := fits_begun 1028
  have ⟨rest, hrest⟩ : ∃ rest, begun 1028 = ⟨0, ⟨1⟩, .began [] .snapshot⟩ :: rest := begun_succ 1027
  rw [hcount, Frame.headerSize, hrest] at hheaders
  rw [hrest] at hfits ⊢
  intro damaged stopped
  rcases readAll_of_first_damaged hfits with ⟨hlength, hread, hcursor⟩
  have hlong : blockSize + 29 ≤ damaged.content.length := by
    rw [hlength, blockSize]
    omega
  have hblock : stopped.cursor = blockSize := hcursor (by decide)
    (Nat.lt_of_lt_of_le (Nat.lt_add_of_pos_right (by decide)) hlong)
  have hinside : stopped.cursor + 29 ≤ stopped.content.length := hblock ▸ hlong
  have hpending : stopped.pending = [] := by
    show damaged.pending = []
    exact congrArg pending (edit_first _ rest)
  have hframe : (Frame.ofEntry ⟨(stopped.log ⟨1⟩ (.settled .rollback)).1, ⟨1⟩,
      .settled .rollback⟩).size ≤ 29 := by
    have hlsn := Wire.length_putWord_le (stopped.log ⟨1⟩ (.settled .rollback)).1
    have htxn := Timestamp.length_put_le ⟨1⟩
    simp only [Frame.size, Frame.headerSize, Frame.ofEntry, Entry.put, Event.put,
      List.length_append, List.length_singleton]
    omega
  have hused : Used false damaged := (used_holding _).flip 4 1
  have hcut : stopped.cursor < stopped.content.length := by omega
  have hshort : damaged.stopsShort = true := decide_eq_true hcut
  have hsame := length_log_of_inside hpending ⟨1⟩ (.settled .rollback) (by omega)
  have hstopped : Used true stopped := hshort ▸ hused.read
  refine ⟨hused, hread, hstopped, hsame, ?_⟩
  rw [hstopped.placed.onlyExtends_iff]
  exact Nat.ne_of_lt hcut

end Journal

end SnapshotIsolation
