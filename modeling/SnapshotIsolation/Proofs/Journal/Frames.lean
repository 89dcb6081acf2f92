import SnapshotIsolation.Journal.Basic

/-!
# Frames as bytes

An entry whose length a frame can tell is read back from its frame, and the first bytes of a row
of frames hold those frames that end within them.

Main results:

- Theorem {lit}`Journal.Frame.entry_ofEntry`: the frame of an entry holds that entry.
- Theorem {lit}`Journal.frames_scan_take`: scanning the first bytes of a row of frames finds the
  frames that lie entirely within them.
-/

namespace SnapshotIsolation

namespace Wire

theorem length_digits_pos (more n : Nat) : 0 < (digits more n).length := by
  cases more with
  | zero => simp [digits]
  | succ more =>
    unfold digits
    split <;> simp

theorem length_digits_le (more n : Nat) : (digits more n).length ≤ more + 1 := by
  induction more generalizing n with
  | zero => simp [digits]
  | succ more ih =>
    unfold digits
    split
    · simp
    · rw [List.length_cons]
      exact Nat.succ_le_succ (ih _)

theorem length_putWord_le (w : UInt64) : (putWord w).length ≤ 10 :=
  length_digits_le 9 w.toNat

/-- A list takes at least as many bytes as it has items. -/
theorem length_le_length_putList {α : Type} {put : α → Bytes} (h : ∀ a, 0 < (put a).length)
    (items : List α) : items.length ≤ (putList put items).length := by
  have hitems : items.length ≤ (items.flatMap put).length := by
    induction items with
    | nil => exact Nat.le_refl _
    | cons a items ih =>
      have ha := h a
      simp only [List.flatMap_cons, List.length_append, List.length_cons]
      omega
  simp only [putList, List.length_append]
  omega

end Wire

theorem Timestamp.length_put_le (t : Timestamp) : t.put.length ≤ 10 :=
  Wire.length_putWord_le t.raw

namespace Journal

namespace Event

theorem run_read_put {e : Event}
    (h : ∀ ancestors isolation, e = .began ancestors isolation → ancestors.length < UInt64.size)
    (rest : Bytes) : read.run (e.put ++ rest) = .ok (e, rest) := by
  cases e with
  | began ancestors isolation =>
    have hindex : Wire.index.run ((began ancestors isolation).put ++ rest) =
        .ok (0, Wire.putList Timestamp.put ancestors ++ (isolation.put ++ rest)) := by
      simp only [put, List.cons_append, List.append_assoc]
      rfl
    rw [read, Reader.run_bind_of_run hindex]
    simp only
    rw [Reader.run_bind_of_run
        (Wire.run_list_putList Timestamp.run_read_put (h ancestors isolation rfl) _),
      Reader.run_bind_of_run (isolation.run_read_put _)]
    rfl
  | settled outcome =>
    cases outcome with
    | commit ts =>
      have hindex : Wire.index.run ((settled (.commit ts)).put ++ rest) =
          .ok (1, ts.put ++ rest) := rfl
      rw [read, Reader.run_bind_of_run hindex]
      simp only
      rw [Reader.run_bind_of_run (ts.run_read_put _)]
      rfl
    | rollback => rfl
    | error => rfl

end Event

namespace Entry

/-- The length of the entry can be told by a frame. -/
def Fits (e : Entry) : Prop := e.put.length < UInt32.size

theorem length_ancestors_le {lsn : UInt64} {txn : Timestamp} {ancestors : List Timestamp}
    {isolation : Isolation} :
    ancestors.length ≤ (Entry.put ⟨lsn, txn, .began ancestors isolation⟩).length := by
  have hcount : ancestors.length ≤ (Wire.putList Timestamp.put ancestors).length := by
    apply Wire.length_le_length_putList
    intro a
    exact Wire.length_digits_pos ..
  simp only [put, Event.put, List.length_append, List.length_cons]
  omega

theorem fits_settled (lsn : UInt64) (txn : Timestamp) (outcome : Outcome) :
    Fits ⟨lsn, txn, .settled outcome⟩ := by
  have hlsn := Wire.length_putWord_le lsn
  have htxn := txn.length_put_le
  cases outcome with
  | commit ts =>
    have hts := ts.length_put_le
    simp only [Fits, UInt32.size, put, Event.put, List.length_append, List.length_cons]
    omega
  | rollback =>
    simp only [Fits, UInt32.size, put, Event.put, List.length_append, List.length_singleton]
    omega
  | error =>
    simp only [Fits, UInt32.size, put, Event.put, List.length_append, List.length_singleton]
    omega

/-- Only below very many others does a transaction begin with an entry that fits no frame. -/
theorem fits_began (lsn : UInt64) (txn : Timestamp) {ancestors : List Timestamp}
    (h : 10 * ancestors.length + 40 < UInt32.size) (isolation : Isolation) :
    Fits ⟨lsn, txn, .began ancestors isolation⟩ := by
  have hlsn := Wire.length_putWord_le lsn
  have htxn := txn.length_put_le
  have hcount := Wire.length_digits_le 9 ancestors.length
  have hisolation : isolation.put.length = 1 := by cases isolation <;> rfl
  have hancestors : (ancestors.flatMap Timestamp.put).length ≤ 10 * ancestors.length := by
    clear h hcount
    induction ancestors with
    | nil => exact Nat.le_refl _
    | cons ancestor ancestors ih =>
      have hancestor := ancestor.length_put_le
      simp only [List.flatMap_cons, List.length_append, List.length_cons]
      omega
  simp only [Fits, put, Event.put, Wire.putList, List.length_append, List.length_cons]
  omega

/-- The ancestors that the entry tells of can be counted in a word. -/
def Countable (e : Entry) : Prop :=
  ∀ ancestors isolation, e.event = .began ancestors isolation → ancestors.length < UInt64.size

theorem Fits.countable {e : Entry} (h : e.Fits) : e.Countable := by
  rcases e with ⟨lsn, txn, event⟩
  rintro ancestors isolation rfl
  exact Nat.lt_of_le_of_lt length_ancestors_le (Nat.lt_trans h (by decide))

theorem run_read_put {e : Entry} (h : e.Countable) : read.run e.put = .ok (e, []) := by
  have hevent := Event.run_read_put h []
  rw [List.append_nil] at hevent
  rw [read, put, List.append_assoc, Reader.run_bind_of_run (Wire.run_word_putWord e.lsn _),
    Reader.run_bind_of_run (e.txn.run_read_put _), Reader.run_bind_of_run hevent]
  rfl

theorem decode_put {e : Entry} (h : e.Fits) : decode e.put = .ok e := by
  rw [decode, Wire.ofPrefix, run_read_put h.countable]
  rfl

end Entry

namespace Frame

theorem entry_ofEntry {e : Entry} (h : e.Fits) : (ofEntry e).entry = .ok e := by
  simp only [entry, ofEntry, if_true, Entry.decode_put h]

theorem length_encode (f : Frame) : f.encode.length = f.size := by
  simp only [encode, size, headerSize, List.length_append, Bytes.length_littleEndian]

/-- Behind a length and a checksum stands a frame if as many bytes follow as the length tells. -/
theorem split_header {header : Bytes} (h : header.length = 4) (checksum : UInt32) (body : Bytes) :
    split (header ++ Bytes.littleEndian 4 checksum.toNat ++ body) =
      if Bytes.natLE header ≤ body.length then
        some (⟨checksum, body.take (Bytes.natLE header)⟩, body.drop (Bytes.natLE header))
      else none := by
  have hlong : headerSize ≤ (header ++ Bytes.littleEndian 4 checksum.toNat ++ body).length := by
    simp only [headerSize, List.length_append, h, Bytes.length_littleEndian]
    omega
  have hlength : (header ++ Bytes.littleEndian 4 checksum.toNat ++ body).take 4 = header := by
    rw [List.append_assoc, List.take_left' h]
  have hchecksum :
      Bytes.natLE (((header ++ Bytes.littleEndian 4 checksum.toNat ++ body).drop 4).take 4) =
        checksum.toNat := by
    have hwidth : Nat.pow 256 4 = UInt32.size := rfl
    rw [List.append_assoc, List.drop_left' h, List.take_left' (Bytes.length_littleEndian ..),
      Bytes.natLE_littleEndian, hwidth, Nat.mod_eq_of_lt checksum.toNat_lt]
  have hbody :
      (header ++ Bytes.littleEndian 4 checksum.toNat ++ body).drop headerSize = body := by
    rw [List.drop_left']
    simp only [headerSize, List.length_append, h, Bytes.length_littleEndian]
  simp only [split, hlength, hchecksum, hbody, hlong, true_and, UInt32.ofNat_toNat]

/-- A frame is split off with as much of its payload as its header can tell. -/
theorem split_encode (f : Frame) (rest : Bytes) :
    split (f.encode ++ rest) =
      some (⟨f.checksum, (f.payload ++ rest).take (f.payload.length % UInt32.size)⟩,
        (f.payload ++ rest).drop (f.payload.length % UInt32.size)) := by
  have hlength : Bytes.natLE (Bytes.littleEndian 4 f.payload.length) =
      f.payload.length % UInt32.size := Bytes.natLE_littleEndian 4 f.payload.length
  have hfits : f.payload.length % UInt32.size ≤ (f.payload ++ rest).length := by
    rw [List.length_append]
    exact Nat.le_trans (Nat.mod_le ..) (Nat.le_add_right ..)
  rw [encode, List.append_assoc, split_header (Bytes.length_littleEndian ..), hlength,
    if_pos hfits]

/-- A frame whose length fits its header is split off whatever follows it. -/
theorem split_encode_append {f : Frame} (h : f.payload.length < UInt32.size) (rest : Bytes) :
    split (f.encode ++ rest) = some (f, rest) := by
  rw [split_encode, Nat.mod_eq_of_lt h, List.take_left' rfl, List.drop_left' rfl]

theorem length_payload_of_split {bytes rest : Bytes} {f : Frame}
    (h : split bytes = some (f, rest)) : f.payload.length < UInt32.size := by
  rcases Option.ite_none_right_eq_some.1 h with ⟨_, h⟩
  simp only [Option.some.injEq, Prod.mk.injEq] at h
  rcases h with ⟨rfl, _⟩
  have hlength : (bytes.take 4).length ≤ 4 := List.length_take_le ..
  calc ((bytes.drop headerSize).take (Bytes.natLE (bytes.take 4))).length
      ≤ Bytes.natLE (bytes.take 4) := List.length_take_le ..
    _ < Nat.pow 256 (bytes.take 4).length := Bytes.natLE_lt _
    _ ≤ Nat.pow 256 4 := Nat.pow_le_pow_right (by decide) hlength
    _ = UInt32.size := rfl

/-- What is split off bytes is split off them whatever follows. -/
theorem split_append {bytes rest : Bytes} {f : Frame} (h : split bytes = some (f, rest))
    (more : Bytes) : split (bytes ++ more) = some (f, rest ++ more) := by
  rw [split_eq_some h, List.append_assoc, split_encode_append (length_payload_of_split h)]

/-- A frame whose end is missing is no frame. -/
theorem split_take_encode {f : Frame} (h : f.payload.length < UInt32.size) {n : Nat}
    (hn : n < f.size) : split (f.encode.take n) = none := by
  cases hsplit : split (f.encode.take n) with
  | none => rfl
  | some found =>
    rcases found with ⟨g, rest⟩
    -- the same frame would be split off the whole one, and leave the missing bytes
    have hwhole := split_append hsplit (f.encode.drop n)
    rw [List.take_append_drop, ← List.append_nil f.encode, split_encode_append h] at hwhole
    simp only [Option.some.injEq, Prod.mk.injEq, List.append_nil, List.nil_eq_append_iff,
      List.drop_eq_nil_iff, length_encode] at hwhole
    omega

/-- How many of the frames lie entirely within the first bytes. -/
def countWithin : List Frame → Nat → Nat
  | [], _ => 0
  | f :: rest, c => if f.size ≤ c then countWithin rest (c - f.size) + 1 else 0

theorem countWithin_length (frames : List Frame) :
    countWithin frames (frames.flatMap encode).length = frames.length := by
  induction frames with
  | nil => rfl
  | cons f frames ih =>
    rw [List.flatMap_cons, List.length_append, length_encode, countWithin,
      if_pos (Nat.le_add_right ..), Nat.add_sub_cancel_left, ih, List.length_cons]

end Frame

/-! ## Scanning -/

theorem scan_of_split_none {bytes : Bytes} (h : Frame.split bytes = none) :
    scan bytes = ⟨[], bytes⟩ := by
  rw [scan]
  split
  · rfl
  · rename_i hsplit
    rw [h] at hsplit
    cases hsplit

theorem scan_of_split_some {bytes rest : Bytes} {f : Frame}
    (h : Frame.split bytes = some (f, rest)) :
    scan bytes = ⟨f :: (scan rest).frames, (scan rest).tail⟩ := by
  rw [scan]
  split
  · rename_i hsplit
    rw [h] at hsplit
    cases hsplit
  · rename_i hsplit
    rw [h] at hsplit
    cases hsplit
    rfl

theorem scan_flatMap_encode {frames : List Frame}
    (h : ∀ f ∈ frames, f.payload.length < UInt32.size) :
    scan (frames.flatMap Frame.encode) = ⟨frames, []⟩ := by
  induction frames with
  | nil => exact scan_of_split_none (by decide)
  | cons f frames ih =>
    rw [List.flatMap_cons,
      scan_of_split_some (Frame.split_encode_append (h f List.mem_cons_self) _),
      ih fun g hg => h g (List.mem_cons_of_mem _ hg)]

/-- Scanning the first bytes of a row of frames finds the frames that lie entirely within
them. -/
theorem frames_scan_take {frames : List Frame} (h : ∀ f ∈ frames, f.payload.length < UInt32.size)
    (c : Nat) :
    (scan ((frames.flatMap Frame.encode).take c)).frames =
      frames.take (Frame.countWithin frames c) := by
  induction frames generalizing c with
  | nil =>
    have hnone : Frame.split [] = none := by decide
    rw [List.flatMap_nil, List.take_nil, scan_of_split_none hnone, List.take_nil]
  | cons f frames ih =>
    have hf : f.payload.length < UInt32.size := h f List.mem_cons_self
    have hframes : ∀ g ∈ frames, g.payload.length < UInt32.size :=
      fun g hg => h g (List.mem_cons_of_mem _ hg)
    rw [List.flatMap_cons, Frame.countWithin, List.take_append, Frame.length_encode]
    by_cases hc : f.size ≤ c
    · have hwhole : f.encode.take c = f.encode :=
        List.take_of_length_le (by rw [Frame.length_encode]; exact hc)
      rw [if_pos hc, hwhole, scan_of_split_some (Frame.split_encode_append hf _), ih hframes,
        List.take_succ_cons]
    · have hrest : c - f.size = 0 := by omega
      rw [if_neg hc, hrest, List.take_zero, List.append_nil,
        scan_of_split_none (Frame.split_take_encode hf (by omega)), List.take_zero]

/-- The frames found in bytes are the bytes before the tail. -/
theorem take_extent (bytes : Bytes) :
    bytes.take (scan bytes).extent = (scan bytes).frames.flatMap Frame.encode := by
  have hextent : (scan bytes).extent = ((scan bytes).frames.flatMap Frame.encode).length := by
    rw [Scan.extent]
    induction (scan bytes).frames with
    | nil => rfl
    | cons f frames ih =>
      rw [List.foldr_cons, List.flatMap_cons, List.length_append, Frame.length_encode, ih]
  have hbytes : (scan bytes).frames.flatMap Frame.encode ++ (scan bytes).tail = bytes :=
    Scan.bytes_scan bytes
  calc bytes.take (scan bytes).extent
      = ((scan bytes).frames.flatMap Frame.encode ++ (scan bytes).tail).take
          (scan bytes).extent := by rw [hbytes]
    _ = (scan bytes).frames.flatMap Frame.encode := List.take_left' hextent.symm

end Journal

end SnapshotIsolation
