import SnapshotIsolation.Engine
import SnapshotIsolation.Transaction.Context

/-!
# The database

A database is an engine whose timestamps come from an authority in the same process. It lives
in a directory, which keeps the watermark and the journal, or in memory, where a journal may
still be kept. Cells are not kept: they belong to the open database.
-/

namespace SnapshotIsolation

/-- Why an operation of the database fails. -/
inductive DatabaseError where
  | storage (cause : StorageError)
  | timestamp (cause : TimestampError)
  | transaction (cause : TransactionError)
  | context (cause : ContextError)
  | io (cause : IoError)
deriving DecidableEq, Repr

namespace DatabaseError

/-- The wording of a failure, which leaves the cause to `causes`. -/
def message : DatabaseError → String
  | .storage _ => "storage failure"
  | .timestamp _ => "timestamp authority failure"
  | .transaction _ => "transaction failure"
  | .context _ => "invalid transaction context"
  | .io _ => "failed to prepare the database directory"

/-- The wordings of the causes behind a failure, nearest first. -/
def causes : DatabaseError → List String
  | .storage cause => cause.message :: cause.causes
  | .timestamp cause => [cause.message]
  | .transaction cause => [cause.message]
  | .context cause => [cause.message]
  | .io cause => [cause.message]

/-- The code under which a failure is reported. -/
def code : DatabaseError → String
  | .storage _ => "sidb::storage"
  | .timestamp _ => "sidb::timestamp"
  | .transaction _ => "sidb::transaction"
  | .context _ => "sidb::context"
  | .io _ => "sidb::io"

/-- What a failure lets the user do. -/
def help : DatabaseError → Option String
  | .timestamp _ => some "the operation did not take effect and may be retried"
  | _ => none

end DatabaseError

/-- The files of a database directory. -/
inductive DatabaseFile where
  | watermark
  | journal
deriving DecidableEq, Repr

/-- The directory of a database. -/
structure Directory where
  /-- A plain file stands where the directory belongs. -/
  obstructed : Bool
  /-- The watermark and its temporary file. -/
  watermark : WatermarkFile
  /-- What stands at the journal's path. -/
  journal : Node
deriving DecidableEq, Repr

namespace Directory

/-- An empty directory. -/
def empty : Directory := ⟨false, ⟨.missing, .missing⟩, .missing⟩

instance : Inhabited Directory := ⟨empty⟩

/-- The path of the journal. -/
def journalSlot (d : Directory) : FileSlot := ⟨d.obstructed, d.journal⟩

/-- What stands at the path of a file. -/
def node (d : Directory) : DatabaseFile → Node
  | .watermark => d.watermark.node
  | .journal => d.journal

/-- A change by another program to one of the files. -/
def edit (file : DatabaseFile) (change : Node → Node) (d : Directory) : Directory :=
  if d.obstructed then d
  else
    match file with
    | .watermark => { d with watermark := { d.watermark with node := change d.watermark.node } }
    | .journal => { d with journal := change d.journal }

end Directory

/-- Where a database lives. -/
inductive Residence where
  /-- In memory only. -/
  | memory
  /-- In memory, with a journal in the directory. -/
  | journalled
  /-- In the directory. -/
  | directory
deriving DecidableEq, Repr

/-- How a database is opened. -/
structure DatabaseConfig where
  /-- Where the database lives. -/
  residence : Residence
  /-- How many timestamps one watermark write reserves. -/
  blockSize : UInt64
  /-- How long a timestamp request may take. -/
  timeout : Duration
  /-- How many settled records are cached. -/
  cacheCapacity : Nat
deriving DecidableEq, Repr

/-- The timestamp source of a database. -/
abbrev DatabaseSource := Client (Authority Watermark)

/-- An open database. -/
structure Database where
  /-- The engine at work. -/
  engine : Engine DatabaseSource
  /-- The directory as it was when the database was opened; files in use have moved on. -/
  opened : Directory

namespace Database

/-- An operation of a database. -/
abbrev Action (α : Type) := Step DatabaseError Database α

variable {α : Type}

/-! ## The directory -/

/-- The directory with the watermark file of a source, if the source keeps one. -/
def keepWatermark (source : DatabaseSource) (d : Directory) : Directory :=
  match source.transport.watermarks with
  | .file f => { d with watermark := f }
  | .memory _ => d

/-- The directory as it is now. -/
def directory (db : Database) : Directory :=
  let d := keepWatermark db.engine.source db.opened
  { d with journal := db.engine.registry.journalNode.getD d.journal }

/-- The directory that a closed database leaves. -/
def close (db : Database) : Directory :=
  let d := db.directory
  { d with journal := (db.engine.registry.journal.map Journal.close).getD d.journal }

/-- A change of the watermark file in use. -/
def editSource (change : Node → Node) (source : DatabaseSource) : DatabaseSource :=
  match source.transport.watermarks with
  | .file f =>
    { source with transport :=
      { source.transport with watermarks := .file { f with node := change f.node } } }
  | .memory _ => source

/-- A change by another program to one of the files. -/
def edit (file : DatabaseFile) (change : Node → Node) (db : Database) : Database :=
  let opened := db.opened.edit file change
  let engine := match file with
    | .watermark => { db.engine with source := editSource change db.engine.source }
    | .journal => { db.engine with registry := db.engine.registry.editJournal change }
  ⟨engine, opened⟩

/-! ## Opening -/

/-- The registry of a database. -/
def openRegistry (config : DatabaseConfig) : Step DatabaseError Directory Registry :=
  match config.residence with
  | .memory => return .inMemory config.cacheCapacity
  | .journalled | .directory =>
    Step.mapError .storage
      (Step.focus Directory.journalSlot (fun slot d => { d with journal := slot.node })
        (Registry.openAt config.cacheCapacity))

/-- Keeps the newest timestamp on record as a floor, so that a lost watermark does not let an
id be issued twice. -/
def keepFloor (registry : Registry) (source : DatabaseSource) :
    Step DatabaseError Directory DatabaseSource := do
  match registry.maxTimestamp with
  | none => return source
  | some ts =>
    match (Client.remember ts).run source with
    | .ok () source =>
      modify (keepWatermark source)
      return source
    | .error cause source =>
      modify (keepWatermark source)
      throw (.timestamp cause)

/-- Opens a database over its watermark. -/
def assemble (config : DatabaseConfig) (watermark : Watermark) :
    Step DatabaseError Directory Database := do
  let authority ← Step.ofExcept
    ((Authority.recover watermark config.blockSize).mapError .timestamp)
  let registry ← openRegistry config
  let source ← keepFloor registry (Client.connect authority config.timeout)
  return ⟨⟨source, registry, .empty⟩, ← get⟩

/-- Opens a database. -/
def openAt (config : DatabaseConfig) : Step DatabaseError Directory Database := do
  match config.residence with
  | .memory | .journalled => assemble config (.memory (.ofValue none))
  | .directory =>
    let d ← get
    if d.obstructed then throw (.io .fileExists)
    let file ← Step.ofExcept
      ((WatermarkFile.openAt d.obstructed d.watermark).mapError .timestamp)
    assemble config (.file file)

/-! ## Operations -/

/-- An operation of the engine. -/
def onEngine (act : Engine.Action DatabaseSource α) : Action α :=
  Step.focus Database.engine (fun e db => { db with engine := e }) (Step.mapError .storage act)

/-- Begins a transaction. -/
def start (isolation : Isolation) (parent : Option Handle) : Action Handle :=
  onEngine (Engine.start isolation parent)

/-- Commits a transaction and tells its commit time. -/
def commit (txn : Handle) : Action Timestamp := onEngine (Engine.commit txn)

/-- Rolls a transaction back. -/
def rollback (txn : Handle) : Action Unit := onEngine (Engine.rollback txn)

/-- The status of a transaction's own record. -/
def status (txn : Handle) : Action Status :=
  onEngine (Engine.onRegistry (Record.status <$> Registry.find txn.id))

/-- The status of a transaction together with its ancestors. -/
def effectiveStatus (txn : Handle) : Action EffectiveStatus :=
  onEngine (Engine.onRegistry (Registry.effectiveStatus txn.id))

/-- Whether a transaction sees a cell. -/
def isVisible (c : Cell) (txn : Handle) : Action Bool := onEngine (Engine.isVisible c txn)

/-- Writes columns of a row. -/
def write (txn : Handle) (row : Bytes) (columns : List (Bytes × Bytes)) : Action Unit :=
  onEngine (Engine.write txn row columns)

/-- Deletes a row. -/
def delete (txn : Handle) (row : Bytes) : Action Unit := onEngine (Engine.delete txn row)

/-- The columns of a row that a transaction sees. -/
def readRow (txn : Handle) (row : Bytes) : Action (List Cell) := onEngine (Engine.readRow txn row)

/-- Runs one compaction pass. -/
def compact : Action CompactionStats := onEngine Engine.compact

/-- Keeps as a floor the oldest timestamp still needed. -/
def rememberWatermark : Action (Option Timestamp) := onEngine Engine.rememberWatermark

/-- The bytes of a handle in transit. -/
def encodeHandle (txn : Handle) : Action Bytes := return Context.encode txn

/-- The handle that bytes carry. -/
def decodeHandle (bytes : Bytes) : Action Handle :=
  Step.ofExcept ((Context.decode bytes).mapError .context)

/-- All cells. -/
def cells (db : Database) : CellStore := db.engine.cells

/-- Puts a cell as it is, without a transaction. -/
def put (c : Cell) : Action Unit := onEngine (Engine.onCells (·.put c))

end Database

/-! ## Opening and closing -/

/-- A database while it is open, and its directory. -/
structure DatabaseSite where
  /-- How the database is opened. -/
  config : DatabaseConfig
  /-- The directory, as it was when the database was last opened or closed. -/
  closed : Directory
  /-- The database, if it is open. -/
  database : Option Database

namespace DatabaseSite

/-- The directory as it is now. -/
def directory (s : DatabaseSite) : Directory := (s.database.map Database.directory).getD s.closed

/-- A change by another program to one of the files. -/
def edit (file : DatabaseFile) (change : Node → Node) (s : DatabaseSite) : DatabaseSite :=
  match s.database with
  | some db => { s with database := some (db.edit file change) }
  | none => { s with closed := s.closed.edit file change }

/-- Closes the database, if it is open. -/
def close (s : DatabaseSite) : DatabaseSite :=
  match s.database with
  | some db => { s with closed := db.close, database := none }
  | none => s

/-- Closes the database, if it is open, and opens it again. Cells are gone then. -/
def reopen : Step DatabaseError DatabaseSite Unit := fun s =>
  match (Database.openAt s.config).run s.close.closed with
  | .ok db d => .ok () { s with closed := d, database := some db }
  | .error e d => .error e { s with closed := d, database := none }

end DatabaseSite

end SnapshotIsolation
