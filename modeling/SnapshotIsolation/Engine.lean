import SnapshotIsolation.Compaction
import SnapshotIsolation.Timestamp.Client
import SnapshotIsolation.Visibility.Row

/-!
# The transaction engine

The engine begins and settles transactions and tags what they write. Every id and commit time
comes from a timestamp source. While the engine waits for a timestamp, others may settle
transactions in the registry; an answer therefore comes with what others did meanwhile.
-/

namespace SnapshotIsolation

/-- Settlements that others make while a request is under way. -/
abbrev Meanwhile := List (Timestamp × Outcome)

/-- An answer to a request for a timestamp. -/
structure Answer where
  /-- What others did before it came. -/
  meanwhile : Meanwhile
  /-- The timestamp, or why there is none. -/
  result : Except TimestampError Timestamp

/-- A source of timestamps. -/
class TimestampSource (σ : Type) where
  /-- Asks for a fresh timestamp. -/
  next : StateM σ Answer
  /-- Keeps a timestamp as a floor for all later ones. -/
  remember : Timestamp → Step TimestampError σ Unit

/-- A client of the timestamp service is a source; nobody else acts while it waits. -/
instance {τ : Type} [Transport τ] : TimestampSource (Client τ) where
  next := Answer.mk [] <$> Step.attempt Client.next
  remember := Client.remember

/-- A source that gives prepared answers in order. -/
structure PreparedSource where
  /-- The answers left. -/
  answers : List Answer
  /-- The timestamp last kept as a floor. -/
  remembered : Timestamp

namespace PreparedSource

instance : TimestampSource PreparedSource where
  next := do
    match (← get).answers with
    | [] => return ⟨[], .error PreparedTransport.exhausted⟩
    | answer :: rest =>
      modify fun s => { s with answers := rest }
      return answer
  remember ts := do
    if Timestamp.limit ≤ ts then throw (.overflow ts.raw)
    modify fun s => { s with remembered := ts }

end PreparedSource

/-- A transaction engine over a source of timestamps. -/
structure Engine (σ : Type) where
  /-- Where timestamps come from. -/
  source : σ
  /-- The records of all transactions. -/
  registry : Registry
  /-- All cells. -/
  cells : CellStore

namespace Engine

/-- An operation of the engine. -/
abbrev Action (σ α : Type) := Step StorageError (Engine σ) α

variable {σ α : Type}

/-- An operation of the registry. -/
def onRegistry (act : Registry.Action α) : Action σ α :=
  Step.focus Engine.registry (fun r e => { e with registry := r }) act

/-- A reading of the registry with a scope of its own. -/
def reading (act : Reading α) : Action σ α :=
  onRegistry (Step.focus (ReadState.mk · .empty) (fun s _ => s.registry) act)

/-- A change of the cells. -/
def onCells (change : CellStore → CellStore) : Action σ Unit :=
  modify fun e => { e with cells := change e.cells }

/-- Settles transactions for others; what is refused changes nothing. -/
def interfere (others : Meanwhile) : Registry.Action Unit :=
  others.forM fun (id, outcome) => do
    let _ ← Step.ofState (Step.attempt (Registry.settle id outcome))

/-- A fresh timestamp, or why there is none. -/
def nextTimestamp [TimestampSource σ] : Action σ (Except TimestampError Timestamp) := do
  let e ← get
  let (answer, source) := TimestampSource.next.run e.source
  set { e with source := source }
  onRegistry (interfere answer.meanwhile)
  return answer.result

/-! ## Beginning and settling -/

/-- Begins a transaction, nested in another one if a parent is given. -/
def start [TimestampSource σ] (isolation : Isolation) (parent : Option Handle) :
    Action σ Handle := do
  match ← nextTimestamp with
  | .error cause => throw (.timestamp cause)
  | .ok id => onRegistry (Registry.start id parent isolation)

/-- What a commit finds before it asks for a timestamp: that it is committed already, or that
it may go ahead. -/
def prepareCommit (txn : Handle) : Registry.Action (Option Timestamp) := do
  let record ← Registry.find txn.id
  match record.status, record.commitTs with
  | .committed, some commitTs => return some commitTs
  | .active, _ =>
    if let some parent := record.parent? then
      let status := (← Registry.find parent).status
      if status ≠ .active then Registry.refuse (.parentNotActive parent status)
    return none
  | source, _ => Registry.refuse (.invalidTransition txn.id source .committed)

/-- The commit time of a transaction that someone else settled while its commit was under
way. -/
def adoptCommit (txn : Handle) : Registry.Action Timestamp := do
  let record ← Registry.find txn.id
  match record.status, record.commitTs with
  | .committed, some existing => return existing
  | source, _ => Registry.refuse (.invalidTransition txn.id source .committed)

/-- What a commit does with the timestamp it asked for. Without one, the transaction is
settled as an error, so that it can never turn out committed. -/
def finishCommit (txn : Handle) : Except TimestampError Timestamp → Registry.Action Timestamp
  | .error cause => do
    let _ ← Step.ofState (Step.attempt (Registry.settle txn.id .error))
    throw (.timestamp cause)
  | .ok commitTs => do
    match ← Step.ofState (Step.attempt (Registry.settle txn.id (.commit commitTs))) with
    | .ok () => return commitTs
    | .error (.transaction (.commitConflict ..)) => adoptCommit txn
    | .error e => throw e

/-- Commits a transaction and tells its commit time. -/
def commit [TimestampSource σ] (txn : Handle) : Action σ Timestamp := do
  match ← onRegistry (prepareCommit txn) with
  | some commitTs => return commitTs
  | none => onRegistry (finishCommit txn (← nextTimestamp))

/-- Rolls a transaction back. -/
def rollback (txn : Handle) : Action σ Unit := onRegistry (Registry.settle txn.id .rollback)

/-- Keeps as a floor the oldest active transaction, or the newest timestamp on record if none
is active. -/
def rememberWatermark [TimestampSource σ] : Action σ (Option Timestamp) := do
  let registry := (← get).registry
  let watermark := registry.lowWatermark <|> registry.maxTimestamp
  if let some ts := watermark then
    Step.mapError .timestamp
      (Step.focus Engine.source (fun s e => { e with source := s }) (TimestampSource.remember ts))
  return watermark

/-! ## Writing -/

/-- Refuses a transaction that is settled. -/
def ensureActive (txn : Handle) : Action σ Unit := onRegistry do
  let status := (← Registry.find txn.id).status
  if status ≠ .active then Registry.refuse (.notActive txn.id status)

/-- Whether a transaction deleted the row of the given cells. -/
def isDeletedBy (txn : Handle) (cells : List Cell) : Bool :=
  cells.any fun c => c.timestamp = txn.id ∧ c.kind = .tombstone

/-- Whether a transaction sees a tombstone among the cells. -/
def seesTombstone (txn : Handle) (cells : List Cell) : Reading Bool :=
  cells.anyM fun c =>
    if c.kind = .tombstone then Reading.isVisible c txn.snapshot txn else return false

/-- Writes columns of a row. Over a row that another transaction deleted, as far as this one
can see, the write also leaves an anti-tombstone. -/
def write (txn : Handle) (row : Bytes) (columns : List (Bytes × Bytes)) : Action σ Unit := do
  ensureActive txn
  let cells := (← get).cells.row row
  if !isDeletedBy txn cells then
    if ← reading (seesTombstone txn cells) then
      onCells (·.put (Cell.antiTombstone row txn.id))
  onCells fun s => columns.foldl (fun s c => s.put (Cell.data row c.1 txn.id c.2)) s
  onCells (·.put (Cell.unresolvedMarker row txn.id))

/-- Whether a cell is data that a transaction wrote. -/
def isOwnData (txn : Handle) (c : Cell) : Bool := c.timestamp = txn.id ∧ c.kind = .userData

/-- Deletes a row. What the transaction itself wrote to it is dropped, as a tombstone hides
only older versions. -/
def delete (txn : Handle) (row : Bytes) : Action σ Unit := do
  ensureActive txn
  onCells fun s => ((s.row row).filter (isOwnData txn)).foldl CellStore.remove s
  onCells (·.put (Cell.tombstone row txn.id))
  onCells (·.put (Cell.unresolvedMarker row txn.id))

/-! ## Reading -/

/-- The columns of a row that a transaction sees. -/
def readRow (txn : Handle) (row : Bytes) : Action σ (List Cell) := do
  reading (Reading.readRow ((← get).cells.row row) txn)

/-- Whether a transaction sees a cell. -/
def isVisible (c : Cell) (txn : Handle) : Action σ Bool :=
  reading (Reading.isVisible c txn.snapshot txn)

/-- Runs one compaction pass over all cells. -/
def compact : Action σ CompactionStats := fun e =>
  match (CellStore.compact CompactionPass.hook).run (e.cells, e.registry, .start) with
  | .ok _ (cells, registry, pass) => .ok pass.stats { e with cells, registry }
  | .error cause (cells, registry, _) => .error cause { e with cells, registry }

end Engine

end SnapshotIsolation
