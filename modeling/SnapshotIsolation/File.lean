import SnapshotIsolation.Bytes

/-!
# Files

What can stand at one path of a file system, and the few ways in which opening or writing it
is refused. Changes that other programs make to a file are functions on what stands there.
-/

namespace SnapshotIsolation

/-- Why the file system refused. -/
inductive IoError where
  /-- A directory stands where a file is needed. -/
  | isADirectory
  /-- A plain file stands where a directory is to be made. -/
  | fileExists
deriving DecidableEq, Repr

/-- The system's wording, with its error number. -/
def IoError.message : IoError → String
  | .isADirectory => "Is a directory (os error 21)"
  | .fileExists => "File exists (os error 17)"

/-- What stands at a path. -/
inductive Node where
  | missing
  | directory
  | file (content : Bytes)
deriving DecidableEq, Repr

instance : Inhabited Node := ⟨.missing⟩

namespace Node

/-- The bytes of a file, if one is there. -/
def content? : Node → Option Bytes
  | .file content => some content
  | _ => none

/-- Whether anything stands there. -/
def isPresent : Node → Bool
  | .missing => false
  | _ => true

/-- Replaces the file, or makes it. -/
def overwrite (bytes : Bytes) : Node → Node
  | .directory => .directory
  | _ => .file bytes

/-- Adds bytes at the end of the file, or makes it with them. -/
def extend (bytes : Bytes) : Node → Node
  | .directory => .directory
  | .missing => .file bytes
  | .file content => .file (content ++ bytes)

/-- Flips the bits of `mask` in the byte at a position inside the file. -/
def flip (position : Nat) (mask : UInt8) : Node → Node
  | .file content => .file (content.modify position (· ^^^ mask))
  | node => node

/-- Drops bytes from the end of the file. -/
def shorten (count : Nat) : Node → Node
  | .file content => .file (content.take (content.length - count))
  | node => node

/-- Deletes the file. -/
def remove : Node → Node
  | .directory => .directory
  | _ => .missing

/-- Makes a directory where nothing stands. -/
def makeDirectory : Node → Node
  | .missing => .directory
  | node => node

end Node

/-- A path on which one file is kept. -/
structure FileSlot where
  /-- A plain file stands where the directory around the path belongs. -/
  obstructed : Bool
  /-- What stands at the path. -/
  node : Node
deriving DecidableEq, Repr

namespace FileSlot

/-- A path in a usable directory where nothing stands. -/
def vacant : FileSlot := ⟨false, .missing⟩

instance : Inhabited FileSlot := ⟨vacant⟩

/-- A change by another program; under an obstructed path there is nothing to change. -/
def edit (change : Node → Node) (slot : FileSlot) : FileSlot :=
  if slot.obstructed then slot else { slot with node := change slot.node }

end FileSlot

end SnapshotIsolation
