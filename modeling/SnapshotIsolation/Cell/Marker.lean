import SnapshotIsolation.Cell.Basic
import SnapshotIsolation.Error
import SnapshotIsolation.Transaction.Record

/-!
# Commit markers

The value of a commit marker says what became of its writer: nothing yet, the eight bytes of
the commit time, or eight bytes of ones for failure.

Main results:

- Theorem `Marker.decode_encode`: a marker reads back, except for the one commit time whose
  bytes mean failure.
-/

namespace SnapshotIsolation

/-- What a commit marker says about its writer. -/
inductive Marker where
  | unresolved
  | committed (ts : Timestamp)
  | failed
deriving DecidableEq, Repr

namespace Marker

/-- Whether the marker says how its writer was settled. -/
def isResolved (m : Marker) : Bool := m != .unresolved

/-- The value of a marker of failure. -/
def failValue : Bytes := List.replicate 8 0xFF

/-- The value of a marker. -/
def encode : Marker → Bytes
  | .unresolved => []
  | .committed ts => ts.toBytes
  | .failed => failValue

/-- Whether a value is that of an unresolved marker. -/
def isUnresolvedValue (value : Bytes) : Bool := value.isEmpty

/-- What the value of a marker says. -/
def decode (value : Bytes) : Except EncodingError Marker :=
  if isUnresolvedValue value then .ok .unresolved
  else if value = failValue then .ok .failed
  else if value.length = 8 then .ok (.committed (Timestamp.ofBytes value))
  else .error (.malformedMarker value.length)

/-- The resolved marker of a writer with its effective status. -/
def resolved (writer : Record) (effective : EffectiveStatus) : Except TransactionError Marker :=
  if writer.status.isFailed then .ok .failed
  else
    match effective with
    | .failed _ => .ok .failed
    | .committed ts =>
      if writer.status = .committed then .ok (.committed ts)
      else .error (.invalidTransition writer.id .active .committed)
    | .active => .error (.invalidTransition writer.id .active .committed)

/-- A marker reads back, except for the one commit time whose bytes mean failure. -/
theorem decode_encode {m : Marker} (h : ∀ ts, m = .committed ts → ts.raw ≠ 0xFFFFFFFFFFFFFFFF) :
    decode m.encode = .ok m := by
  match m with
  | .unresolved => rfl
  | .failed => rfl
  | .committed ts =>
    have nonempty : isUnresolvedValue ts.toBytes = false := by
      cases hb : ts.toBytes with
      | nil => exact absurd (congrArg List.length hb) (by simp)
      | cons => rfl
    have notFail : ts.toBytes ≠ failValue := fun hf => by
      have := Timestamp.ofBytes_toBytes ts
      rw [hf] at this
      exact h ts rfl (this ▸ rfl)
    simp [decode, encode, nonempty, notFail]

end Marker

end SnapshotIsolation
