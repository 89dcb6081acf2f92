import SnapshotIsolation.Checksum
import SnapshotIsolation.Step
import SnapshotIsolation.Timestamp.Basic
import SnapshotIsolation.Timestamp.Error

/-!
# Watermarks

A watermark is the timestamp below which everything counts as issued. It is kept in memory or
in a file; the file is replaced as a whole through a temporary one, so that a write that
fails leaves the old watermark in place.
-/

namespace SnapshotIsolation

/-- A place that keeps one watermark. -/
class WatermarkStore (ω : Type) where
  /-- The watermark kept, if there is one. -/
  load : ω → Except TimestampError (Option Timestamp)
  /-- Keeps a watermark in place of the former one. -/
  store : Timestamp → Step TimestampError ω Unit

/-- A watermark in memory, whose reads and writes can be made to fail. -/
structure MemoryWatermark where
  /-- The watermark kept. -/
  value : Option Timestamp
  /-- Why writes fail, while they do. -/
  storeFault : Option String
  /-- Why reads fail, while they do. -/
  loadFault : Option String
deriving DecidableEq, Repr

namespace MemoryWatermark

/-- A sound memory that holds a given watermark. -/
def ofValue (value : Option Timestamp) : MemoryWatermark := ⟨value, none, none⟩

instance : WatermarkStore MemoryWatermark where
  load m :=
    match m.loadFault with
    | some reason => .error (.watermarkRead (.reported reason))
    | none => .ok m.value
  store ts := do
    match (← get).storeFault with
    | some reason => throw (.watermarkWrite (.reported reason))
    | none => modify fun m => { m with value := some ts }

end MemoryWatermark

/-- A watermark file and the temporary file through which it is replaced. -/
structure WatermarkFile where
  /-- What stands at the watermark's path. -/
  node : Node
  /-- What stands at the temporary file's path. -/
  temp : Node
deriving DecidableEq, Repr

namespace WatermarkFile

/-- Length of a watermark file: eight bytes of timestamp, four of checksum. -/
def size : Nat := 12

/-- The bytes of a watermark file. -/
def encode (ts : Timestamp) : Bytes :=
  ts.toBytes ++ Bytes.littleEndian 4 (Checksum.crc32 ts.toBytes).toNat

/-- Reads a watermark file. -/
def decode (bytes : Bytes) : Except TimestampError Timestamp :=
  if bytes.length = size then
    if (Checksum.crc32 (bytes.take 8)).toNat = Bytes.natLE (bytes.drop 8) then
      .ok (Timestamp.ofBytes (bytes.take 8))
    else .error (.corruptWatermark .checksum)
  else .error (.corruptWatermark (.length size bytes.length))

/-- The watermark in the file; none if there is no file. -/
def load (f : WatermarkFile) : Except TimestampError (Option Timestamp) :=
  match f.node with
  | .missing => .ok none
  | .directory => .error (.watermarkRead (.io .isADirectory))
  | .file content => (decode content).map some

/-- Writes the temporary file and moves it into place. -/
def store (ts : Timestamp) : Step TimestampError WatermarkFile Unit := do
  let f ← get
  if f.temp = .directory then throw (.watermarkWrite (.io .isADirectory))
  set { f with temp := Node.file (encode ts) }
  if f.node = .directory then throw (.watermarkWrite (.io .isADirectory))
  set { f with node := Node.file (encode ts), temp := Node.missing }

instance : WatermarkStore WatermarkFile := ⟨load, store⟩

/-- Uses the paths of a watermark file, making the directory around them. -/
def openAt (obstructed : Bool) (f : WatermarkFile) : Except TimestampError WatermarkFile :=
  if obstructed then .error (.watermarkWrite (.io .fileExists)) else .ok f

/-- What is stored is loaded again. -/
theorem decode_encode (ts : Timestamp) : decode (encode ts) = .ok ts := by
  have head : (encode ts).take 8 = ts.toBytes := by
    rw [encode, List.take_append_of_le_length (by simp), List.take_of_length_le (by simp)]
  have tail : (encode ts).drop 8 = Bytes.littleEndian 4 (Checksum.crc32 ts.toBytes).toNat := by
    rw [encode, List.drop_append_of_le_length (by simp), List.drop_of_length_le (by simp),
      List.nil_append]
  have length : (encode ts).length = size := by simp [encode, size]
  have fits : (Checksum.crc32 ts.toBytes).toNat < Nat.pow 256 4 := UInt32.toNat_lt _
  rw [decode, if_pos length, head, tail, Bytes.natLE_littleEndian, Nat.mod_eq_of_lt fits,
    if_pos rfl, Timestamp.ofBytes_toBytes]

end WatermarkFile

/-- The watermark store of a database: memory or a file. -/
inductive Watermark where
  | memory (m : MemoryWatermark)
  | file (f : WatermarkFile)
deriving DecidableEq, Repr

namespace Watermark

/-- The watermark kept, if there is one. -/
def load : Watermark → Except TimestampError (Option Timestamp)
  | .memory m => WatermarkStore.load m
  | .file f => WatermarkStore.load f

/-- Keeps a watermark in place of the former one. -/
def store (ts : Timestamp) : Step TimestampError Watermark Unit := fun w =>
  match w with
  | .memory m =>
    match (WatermarkStore.store ts : Step TimestampError MemoryWatermark Unit).run m with
    | .ok u m' => .ok u (.memory m')
    | .error e m' => .error e (.memory m')
  | .file f =>
    match (WatermarkStore.store ts : Step TimestampError WatermarkFile Unit).run f with
    | .ok u f' => .ok u (.file f')
    | .error e f' => .error e (.file f')

instance : WatermarkStore Watermark := ⟨load, store⟩

end Watermark

end SnapshotIsolation
