import SnapshotIsolation.Checksum
import SnapshotIsolation.File
import SnapshotIsolation.Journal.Entry

/-!
# Journal frames

On disk each entry is framed by its length and checksum. Scanning splits bytes into the
complete frames at their start and a tail that holds no complete frame: the unfinished last
write of a process that died.

Main results:

- Theorem `Journal.Frame.split_eq_some`: a frame and the rest that it is split off from make up
  the bytes.
- Theorem `Journal.Scan.bytes_scan`: the frames and the tail of a scan make up the bytes.
-/

namespace SnapshotIsolation

/-- Why a journal cannot be read. -/
inductive JournalError where
  /-- The file system refused. -/
  | io (error : IoError)
  /-- The checksum of a frame is not that of its payload. -/
  | checksumMismatch
  /-- The bytes end inside the frame that starts at the offset. -/
  | torn (offset : Nat)
  /-- The payload of a frame is no entry. -/
  | undecodable (error : WireError)
deriving DecidableEq, Repr

/-- The wording of a journal error. -/
def JournalError.message : JournalError → String
  | .io error => "I/O error: " ++ error.message
  | .checksumMismatch => "Checksum mismatch"
  | .torn offset => "Incomplete record at offset " ++ toString offset
  | .undecodable error => "Deserialization failed: " ++ error.message

namespace Journal

/-- A checksum and the bytes it guards. -/
structure Frame where
  /-- The checksum as stored. -/
  checksum : UInt32
  /-- The guarded bytes. -/
  payload : Bytes
deriving DecidableEq, Repr

namespace Frame

/-- Length of what precedes the payload: four bytes of length, four of checksum. -/
def headerSize : Nat := 8

/-- The frame of an entry. -/
def ofEntry (e : Entry) : Frame := ⟨Checksum.crc32 e.put, e.put⟩

/-- Length of a frame on disk. -/
def size (f : Frame) : Nat := headerSize + f.payload.length

/-- The bytes of a frame. -/
def encode (f : Frame) : Bytes :=
  Bytes.littleEndian 4 f.payload.length ++ Bytes.littleEndian 4 f.checksum.toNat ++ f.payload

/-- The entry in a frame. -/
def entry (f : Frame) : Except JournalError Entry :=
  if Checksum.crc32 f.payload = f.checksum then
    match Entry.decode f.payload with
    | .ok e => .ok e
    | .error e => .error (.undecodable e)
  else .error .checksumMismatch

/-- Splits the first frame off the bytes, if they hold all of it. -/
def split (bytes : Bytes) : Option (Frame × Bytes) :=
  let body := bytes.drop headerSize
  let length := Bytes.natLE (bytes.take 4)
  if headerSize ≤ bytes.length ∧ length ≤ body.length then
    some (⟨UInt32.ofNat (Bytes.natLE ((bytes.drop 4).take 4)), body.take length⟩,
      body.drop length)
  else none

/-- A frame that was split off leaves fewer bytes. -/
theorem length_of_split {bytes rest : Bytes} {f : Frame} (h : split bytes = some (f, rest)) :
    rest.length < bytes.length := by
  obtain ⟨⟨long, _⟩, h⟩ := Option.ite_none_right_eq_some.1 h
  simp only [headerSize, Option.some.injEq, Prod.mk.injEq] at long h
  rw [← h.2, List.length_drop, List.length_drop]
  omega

/-- A frame and the rest that it is split off from make up the bytes. -/
theorem split_eq_some {bytes rest : Bytes} {f : Frame} (h : split bytes = some (f, rest)) :
    bytes = f.encode ++ rest := by
  obtain ⟨⟨long, fits⟩, h⟩ := Option.ite_none_right_eq_some.1 h
  simp only [headerSize, Option.some.injEq, Prod.mk.injEq] at long fits h
  obtain ⟨rfl, rfl⟩ := h
  have l4 : (bytes.take 4).length = 4 := by
    rw [List.length_take]
    omega
  have c4 : ((bytes.drop 4).take 4).length = 4 := by
    rw [List.length_take, List.length_drop]
    omega
  have len : Bytes.littleEndian 4 (Bytes.natLE (bytes.take 4)) = bytes.take 4 := by
    have := Bytes.littleEndian_natLE (bytes.take 4)
    rwa [l4] at this
  have bound : Bytes.natLE ((bytes.drop 4).take 4) < UInt32.size := by
    have := Bytes.natLE_lt ((bytes.drop 4).take 4)
    rwa [c4] at this
  have crc : Bytes.littleEndian 4 (Bytes.natLE ((bytes.drop 4).take 4))
      = (bytes.drop 4).take 4 := by
    have := Bytes.littleEndian_natLE ((bytes.drop 4).take 4)
    rwa [c4] at this
  have header : bytes.take 4 ++ ((bytes.drop 4).take 4 ++ bytes.drop 8) = bytes := by
    have : bytes.drop 8 = (bytes.drop 4).drop 4 := by rw [List.drop_drop]
    rw [this, List.take_append_drop, List.take_append_drop]
  simp only [encode, List.length_take, Nat.min_eq_left fits, UInt32.toNat_ofNat',
    Nat.mod_eq_of_lt bound, len, crc, List.append_assoc, List.take_append_drop, header]

end Frame

/-- Bytes taken apart into frames. -/
structure Scan where
  /-- The complete frames from the start on. -/
  frames : List Frame
  /-- The bytes after them, which hold no complete frame. -/
  tail : Bytes
deriving DecidableEq, Repr

/-- Takes bytes apart into frames. -/
def scan (bytes : Bytes) : Scan :=
  match _h : Frame.split bytes with
  | none => ⟨[], bytes⟩
  | some (f, rest) =>
    let s := scan rest
    ⟨f :: s.frames, s.tail⟩
termination_by bytes.length
decreasing_by exact Frame.length_of_split _h

namespace Scan

/-- The bytes that were scanned. -/
def bytes (s : Scan) : Bytes := s.frames.flatMap Frame.encode ++ s.tail

/-- The frames and the tail of a scan make up the bytes. -/
theorem bytes_scan (bytes : Bytes) : (scan bytes).bytes = bytes := by
  induction bytes using scan.induct with
  | case1 bytes h =>
    rw [scan]
    split
    · rfl
    · next h' => rw [h] at h'; cases h'
  | case2 bytes f rest h ih =>
    rw [scan]
    split
    · next h' => rw [h] at h'; cases h'
    · next f' rest' h' =>
      rw [h] at h'
      cases h'
      rw [Frame.split_eq_some h, Scan.bytes, List.flatMap_cons, List.append_assoc]
      exact congrArg _ ih

/-- Length of the complete frames. -/
def extent (s : Scan) : Nat := s.frames.foldr (fun f length => f.size + length) 0

/-- What reading finds, in file order: each frame's entry or fault, and an unfinished frame at
the end. -/
def items (s : Scan) : List (Except JournalError Entry) :=
  s.frames.map Frame.entry ++ if s.tail.isEmpty then [] else [.error (.torn s.extent)]

/-- The entries of all complete frames, or the first frame's fault. -/
def entries (s : Scan) : Except JournalError (List Entry) := s.frames.mapM Frame.entry

end Scan

end Journal

end SnapshotIsolation
