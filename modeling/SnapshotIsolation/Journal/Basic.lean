import SnapshotIsolation.Journal.Frame
import SnapshotIsolation.Step

/-!
# The journal

The journal is a file of frames that is only added to. What is added waits in a buffer of one
block until the next addition, a flush or the end of its use. Reading looks at the file
through the same open file, so it moves the place at which the next write lands: a complete
reading leaves it at the end of the file, and a reading that stops at a damaged frame leaves
it after the last block that was fetched.
-/

namespace SnapshotIsolation

/-- An open journal. -/
structure Journal where
  /-- The bytes of the open file. -/
  content : Bytes
  /-- What stands at the journal's path if that is no longer the open file. -/
  displaced : Option Node
  /-- Where the next write lands. -/
  cursor : Nat
  /-- Bytes added but not yet written. -/
  pending : Bytes
  /-- The number of the next entry. -/
  nextLsn : UInt64
deriving DecidableEq, Repr

namespace Journal

/-- Size of the write buffer and of the blocks that are read. -/
def blockSize : Nat := 8192

/-- What stands at the journal's path. -/
def node (j : Journal) : Node := j.displaced.getD (.file j.content)

/-- A change by another program to what stands at the journal's path. A file that was deleted
stays open, and a file made afterwards is another one. -/
def edit (change : Node → Node) (j : Journal) : Journal :=
  match j.displaced, change j.node with
  | some _, node => { j with displaced := some node }
  | none, .file content => { j with content := content }
  | none, node => { j with displaced := some node }

/-! ## Writing -/

/-- `content` with `data` written over it from a position on; a gap before the position is
filled with zeros. -/
def overlay (position : Nat) (data content : Bytes) : Bytes :=
  if data.isEmpty then content
  else content.take position ++ List.replicate (position - content.length) 0 ++ data
    ++ content.drop (position + data.length)

/-- Writes bytes where the cursor stands. -/
def write (data : Bytes) (j : Journal) : Journal :=
  { j with
    content := overlay j.cursor data j.content
    cursor := j.cursor + data.length }

/-- Writes what is pending. -/
def flush (j : Journal) : Journal := { j.write j.pending with pending := [] }

/-- Adds a frame: it waits in the buffer if it fits there. -/
def push (data : Bytes) (j : Journal) : Journal :=
  let j := j.flush
  if data.length < blockSize then { j with pending := data } else j.write data

/-- The number after that of an entry, or a later one reached before. -/
def lsnAfter (next : UInt64) (e : Entry) : UInt64 := max next (e.lsn + 1)

/-- Adds an entry, with whatever number it has. -/
def append (e : Entry) (j : Journal) : Journal :=
  { j.push (Frame.ofEntry e).encode with nextLsn := lsnAfter j.nextLsn e }

/-- Records an event under the next number and writes it. -/
def log (txn : Timestamp) (event : Event) (j : Journal) : UInt64 × Journal :=
  (j.nextLsn, (j.append ⟨j.nextLsn, txn, event⟩).flush)

/-- What is left at the path when the journal is closed. -/
def close (j : Journal) : Node := j.flush.node

/-! ## Reading -/

/-- A reader that fetches a file in blocks: where its file stands, and how many bytes it has
fetched but not handed out. -/
structure BlockReader where
  /-- Number of bytes fetched from the file. -/
  fetched : Nat
  /-- How many of them have not been handed out. -/
  ahead : Nat
deriving DecidableEq, Repr

/-- Takes `count` bytes from a file of the given size. What is not at hand is fetched in one
block, or at once if it is at least a block. -/
def BlockReader.take (size count : Nat) (r : BlockReader) : BlockReader :=
  if count ≤ r.ahead then { r with ahead := r.ahead - count }
  else
    let wanted := count - r.ahead
    if blockSize ≤ wanted then ⟨min (r.fetched + wanted) size, 0⟩
    else
      let stop := min (r.fetched + blockSize) size
      ⟨stop, stop - r.fetched - wanted⟩

/-- How many bytes of a file have been fetched when frames were read up to the first faulty
one, or to the end of the file if there is none. -/
def fetchedAfter (size : Nat) : List Frame → BlockReader → Nat
  | [], _ => size
  | f :: rest, r =>
    let r := (r.take size Frame.headerSize).take size f.payload.length
    if f.entry.toBool then fetchedAfter size rest r else r.fetched

/-- Everything that is found in the file, in order. -/
def items (j : Journal) : List (Except JournalError Entry) × Journal :=
  ((scan j.content).items, { j with cursor := j.content.length })

/-- The first failure among the items, or all entries. -/
def collect (items : List (Except JournalError Entry)) : Except JournalError (List Entry) :=
  items.mapM id

/-- The entries of the journal in the order of their numbers; entries of one number stay in
file order. -/
def readAll (j : Journal) : Except JournalError (List Entry) × Journal :=
  let s := scan j.content
  let found := (collect s.items).map fun entries =>
    entries.mergeSort fun a b => a.lsn ≤ b.lsn
  (found, { j with cursor := fetchedAfter j.content.length s.frames ⟨0, 0⟩ })

/-! ## Opening -/

/-- Opens the journal at a path, making the file if there is none. An unfinished frame at the
end is cut off; a damaged frame is refused. -/
def openAt : Step JournalError FileSlot Journal := do
  let slot ← get
  if slot.obstructed then throw (.io .fileExists)
  let content ← match slot.node with
    | .missing => pure []
    | .file content => pure content
    | .directory => throw (.io .isADirectory)
  set { slot with node := .file content }
  let s := scan content
  let entries ← Step.ofExcept s.entries
  let kept := content.take s.extent
  set { slot with node := .file kept }
  return {
    content := kept
    displaced := none
    cursor := kept.length
    pending := []
    nextLsn := entries.foldl lsnAfter 0 }

/-- The entries that opening a copy of the file at a path would find; where no file stands, there
are none. -/
def survey (node : Node) : Except JournalError (List Entry) :=
  match openAt.run ⟨false, .file (node.content?.getD [])⟩ with
  | .ok j _ => j.readAll.1
  | .error e _ => .error e

end Journal

/-! ## Opening and closing -/

/-- A journal's path together with the journal while it is open. -/
structure JournalSite where
  /-- The path, as it was when the journal was last opened or closed. -/
  slot : FileSlot
  /-- The journal, if it is open. -/
  journal : Option Journal

namespace JournalSite

/-- What stands at the path. -/
def node (s : JournalSite) : Node := (s.journal.map Journal.node).getD s.slot.node

/-- A change by another program to what stands at the path. -/
def edit (change : Node → Node) (s : JournalSite) : JournalSite :=
  match s.journal with
  | some j => { s with journal := some (j.edit change) }
  | none => { s with slot := s.slot.edit change }

/-- Closes the journal, if it is open. -/
def close (s : JournalSite) : JournalSite :=
  match s.journal with
  | some j => ⟨{ s.slot with node := j.close }, none⟩
  | none => s

/-- Closes the journal, if it is open, and opens what stands at the path. -/
def reopen : Step JournalError JournalSite Unit := fun s =>
  match Journal.openAt.run s.close.slot with
  | .ok j slot => .ok () ⟨slot, some j⟩
  | .error e slot => .error e ⟨slot, none⟩

end JournalSite

end SnapshotIsolation
