import SnapshotIsolation.Bytes
import SnapshotIsolation.Cell.Basic
import SnapshotIsolation.Cell.Marker
import SnapshotIsolation.Cell.Store
import SnapshotIsolation.Checksum
import SnapshotIsolation.Compaction
import SnapshotIsolation.Database
import SnapshotIsolation.Duration
import SnapshotIsolation.Engine
import SnapshotIsolation.Error
import SnapshotIsolation.File
import SnapshotIsolation.Journal.Basic
import SnapshotIsolation.Journal.Entry
import SnapshotIsolation.Journal.Frame
import SnapshotIsolation.Registry.Basic
import SnapshotIsolation.Registry.Cache
import SnapshotIsolation.Registry.Effective
import SnapshotIsolation.SortedMap
import SnapshotIsolation.Step
import SnapshotIsolation.Timestamp.Authority
import SnapshotIsolation.Timestamp.Basic
import SnapshotIsolation.Timestamp.Client
import SnapshotIsolation.Timestamp.Error
import SnapshotIsolation.Timestamp.Watermark
import SnapshotIsolation.Transaction.Basic
import SnapshotIsolation.Transaction.Codec
import SnapshotIsolation.Transaction.Context
import SnapshotIsolation.Transaction.Error
import SnapshotIsolation.Transaction.Record
import SnapshotIsolation.Visibility.Row
import SnapshotIsolation.Visibility.Scope
import SnapshotIsolation.Visibility.Writer
import SnapshotIsolation.Wire
import SnapshotIsolation.Proofs.Outcome
import SnapshotIsolation.Proofs.Preservation
import SnapshotIsolation.Proofs.Timestamp.Order
import SnapshotIsolation.Proofs.Timestamp.Issuance
import SnapshotIsolation.Proofs.Registry.Coherence
import SnapshotIsolation.Proofs.Registry.Changes
import SnapshotIsolation.Proofs.Registry.Lineage
import SnapshotIsolation.Proofs.Registry.Statuses
import SnapshotIsolation.Proofs.Wire
import SnapshotIsolation.Proofs.Transaction.Codec
import SnapshotIsolation.Proofs.Journal.Frames
import SnapshotIsolation.Proofs.Journal.Holding
import SnapshotIsolation.Proofs.Journal.Entries
import SnapshotIsolation.Proofs.Journal.Delimiting
import SnapshotIsolation.Proofs.Journal.Misfits
import SnapshotIsolation.Proofs.Registry.Operations
import SnapshotIsolation.Proofs.Registry.Recovery
import SnapshotIsolation.Proofs.Registry.Lives
import SnapshotIsolation.Proofs.Registry.Reached
import SnapshotIsolation.Proofs.Registry.Chronicles
import SnapshotIsolation.Proofs.Registry.Served
import SnapshotIsolation.Proofs.Visibility.Reading
import SnapshotIsolation.Proofs.Visibility.Repeating
import SnapshotIsolation.Proofs.Visibility.Termination
import SnapshotIsolation.Proofs.Visibility.Verdict
import SnapshotIsolation.Proofs.Visibility.Versions
import SnapshotIsolation.Proofs.Visibility.Outsiders
import SnapshotIsolation.Proofs.Visibility.Newest
import SnapshotIsolation.Proofs.Visibility.Definition
import SnapshotIsolation.Proofs.Cell.Rows
import SnapshotIsolation.Proofs.Cell.Order
import SnapshotIsolation.Proofs.Compaction
import SnapshotIsolation.Proofs.Cell.Compacting
import SnapshotIsolation.Proofs.Cell.Writing
import SnapshotIsolation.Proofs.Engine.Calls
import SnapshotIsolation.Proofs.Engine.Commits
import SnapshotIsolation.Proofs.Engine.Effects
import SnapshotIsolation.Proofs.Engine.Sessions
import SnapshotIsolation.Proofs.Engine.Transparency
import SnapshotIsolation.Proofs.Engine.Stability
import SnapshotIsolation.Proofs.Engine.Upkeep
import SnapshotIsolation.Proofs.Compaction.Courses
import SnapshotIsolation.Proofs.Engine.Nesting
import SnapshotIsolation.Proofs.Engine.Families
import SnapshotIsolation.Proofs.Engine.Writes
import SnapshotIsolation.Proofs.Engine.OwnWrites
import SnapshotIsolation.Proofs.Engine.Prevailing
import SnapshotIsolation.Proofs.Engine.Marking
import SnapshotIsolation.Proofs.Engine.Undisturbed
import SnapshotIsolation.Proofs.Engine.Restarts
import SnapshotIsolation.Proofs.Registry.Finality
import SnapshotIsolation.Proofs.Registry.Consistency
import SnapshotIsolation.Proofs.Registry.Caching
import SnapshotIsolation.Proofs.Engine.Resolution
import SnapshotIsolation.Proofs.Journal.Damage
import SnapshotIsolation.Proofs.Checksum
import SnapshotIsolation.Proofs.Journal.Detection
import SnapshotIsolation.Proofs.Journal.Histories
import SnapshotIsolation.Proofs.Journal.Opening
import SnapshotIsolation.Proofs.Journal.Landing
import SnapshotIsolation.Proofs.Transaction.Context
import SnapshotIsolation.Proofs.Timestamp.Serving
import SnapshotIsolation.Proofs.Timestamp.WatermarkFile
import SnapshotIsolation.Proofs.Timestamp.Restarting
import SnapshotIsolation.Proofs.Registry.Mentions
import SnapshotIsolation.Proofs.Registry.Cuts
import SnapshotIsolation.Proofs.Registry.Walks
import SnapshotIsolation.Proofs.Registry.Chains
import SnapshotIsolation.Proofs.Engine.Draws
import SnapshotIsolation.Proofs.Engine.Refusals
import SnapshotIsolation.Proofs.Database.Evidence
import SnapshotIsolation.Proofs.Database.Opening
import SnapshotIsolation.Proofs.Database.Reopening
import SnapshotIsolation.Proofs.Database.Turns
