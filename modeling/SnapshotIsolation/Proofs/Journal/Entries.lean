import SnapshotIsolation.Journal.Frame
import SnapshotIsolation.Proofs.Transaction.Codec

/-!
# What an entry's bytes may be

The forms in which events and entries are accepted, and which frames hold an entry.

Main results:

- Theorem {lit}`Journal.Entry.accepts_read`: an entry is accepted as its number, its transaction and
  its event.
- Theorem {lit}`Journal.Frame.entry_eq_ok_iff`: a frame holds an entry exactly if its checksum matches
  and its payload begins with that entry.
-/

namespace SnapshotIsolation

open Reader (accepts_pure accepts_throw)

namespace Journal

namespace Event

/-- An event: its index, and behind it the ancestors and the isolation with which a transaction
began, or the timestamp at which it committed. -/
inductive Written : Bytes → Event → Prop
  | began {index ancestors isolation : Bytes} {above : List Timestamp} {i : Isolation}
      (hindex : Wire.Numeral 32 index 0)
      (hancestors : Wire.Listed (fun bytes t => Wire.Numeral 64 bytes (Timestamp.toNat t)) ancestors
        above)
      (hisolation : Wire.Numeral 32 isolation i.index) :
      Written (index ++ ancestors ++ isolation) (.began above i)
  | committed {index ts : Bytes} {t : Timestamp} (hindex : Wire.Numeral 32 index 1)
      (hts : Wire.Numeral 64 ts t.toNat) : Written (index ++ ts) (.settled (.commit t))
  | rolledBack {index : Bytes} (hindex : Wire.Numeral 32 index 2) :
      Written index (.settled .rollback)
  | failed {index : Bytes} (hindex : Wire.Numeral 32 index 3) : Written index (.settled .error)

/-- What follows the index of an event. -/
def Follows : Nat → Bytes → Event → Prop
  | 0, bytes, event => ∃ above i ancestors isolation, bytes = ancestors ++ isolation ∧
      Wire.Listed (fun bytes t => Wire.Numeral 64 bytes (Timestamp.toNat t)) ancestors above ∧
      Wire.Numeral 32 isolation i.index ∧ event = .began above i
  | 1, bytes, event => ∃ t : Timestamp, Wire.Numeral 64 bytes t.toNat ∧ event = .settled (.commit t)
  | 2, bytes, event => bytes = [] ∧ event = .settled .rollback
  | 3, bytes, event => bytes = [] ∧ event = .settled .error
  | _, _, _ => False

theorem accepts_began :
    (do let ancestors ← Wire.list Timestamp.read
        let isolation ← Isolation.read
        return .began ancestors isolation : Reader Event).Accepts (Follows 0) := by
  apply ((Wire.accepts_list Timestamp.accepts_read).bind fun above =>
    Isolation.accepts_read.bind fun i => accepts_pure (Event.began above i)).congr
  intro bytes event
  constructor
  · rintro ⟨above, ancestors, _, rfl, hancestors, i, isolation, _, rfl, hisolation, rfl, rfl⟩
    rw [List.append_nil]
    exact ⟨above, i, ancestors, isolation, rfl, hancestors, hisolation, rfl⟩
  · rintro ⟨above, i, ancestors, isolation, rfl, hancestors, hisolation, rfl⟩
    exact ⟨above, ancestors, isolation, rfl, hancestors, i, isolation, [],
      (List.append_nil _).symm, hisolation, rfl, rfl⟩

theorem accepts_committed :
    (do return .settled (.commit (← Timestamp.read)) : Reader Event).Accepts (Follows 1) := by
  apply (Timestamp.accepts_read.bind fun t => accepts_pure (Event.settled (.commit t))).congr
  intro bytes event
  constructor
  · rintro ⟨t, ts, _, rfl, hts, rfl, rfl⟩
    rw [List.append_nil]
    exact ⟨t, hts, rfl⟩
  · rintro ⟨t, hts, rfl⟩
    exact ⟨t, bytes, [], (List.append_nil _).symm, hts, rfl, rfl⟩

theorem written_iff (bytes : Bytes) (event : Event) :
    Written bytes event ↔
      ∃ n index body, bytes = index ++ body ∧ Wire.Numeral 32 index n ∧ Follows n body event := by
  constructor
  · intro h
    cases h with
    | began hindex hancestors hisolation =>
      exact ⟨0, _, _, List.append_assoc .., hindex, _, _, _, _, rfl, hancestors, hisolation, rfl⟩
    | committed hindex hts => exact ⟨1, _, _, rfl, hindex, _, hts, rfl⟩
    | rolledBack hindex => exact ⟨2, bytes, [], (List.append_nil _).symm, hindex, rfl, rfl⟩
    | failed hindex => exact ⟨3, bytes, [], (List.append_nil _).symm, hindex, rfl, rfl⟩
  · rintro ⟨n, index, body, rfl, hindex, hbody⟩
    unfold Follows at hbody
    split at hbody
    · rcases hbody with ⟨above, i, ancestors, isolation, rfl, hancestors, hisolation, rfl⟩
      rw [← List.append_assoc]
      exact .began hindex hancestors hisolation
    · rcases hbody with ⟨t, hts, rfl⟩
      exact .committed hindex hts
    · rcases hbody with ⟨rfl, rfl⟩
      rw [List.append_nil]
      exact .rolledBack hindex
    · rcases hbody with ⟨rfl, rfl⟩
      rw [List.append_nil]
      exact .failed hindex
    · exact hbody.elim

/-- An event is accepted as its index and what follows that. -/
theorem accepts_read : Event.read.Accepts Written := by
  have hread : Event.read.Accepts fun bytes event => ∃ n index body, bytes = index ++ body ∧
      Wire.Numeral 32 index n ∧ Follows n body event := by
    apply (Wire.accepts_number (by decide)).bind
    intro n
    split
    · exact accepts_began
    · exact accepts_committed
    · exact accepts_pure _
    · exact accepts_pure _
    · apply (accepts_throw _).congr
      intro bytes event
      simp only [Follows]
  exact hread.congr fun bytes event => (written_iff bytes event).symm

end Event

namespace Entry

/-- An entry: its number, its transaction and its event. -/
inductive Written : Bytes → Entry → Prop
  | intro {lsn txn event : Bytes} {e : Entry} (hlsn : Wire.Numeral 64 lsn e.lsn.toNat)
      (htxn : Wire.Numeral 64 txn e.txn.toNat) (hevent : Event.Written event e.event) :
      Written (lsn ++ txn ++ event) e

/-- An entry is accepted as its parts one after the other. -/
theorem accepts_read : Entry.read.Accepts Written := by
  apply (Wire.accepts_word.bind fun lsn => Timestamp.accepts_read.bind fun txn =>
    Event.accepts_read.bind fun event => accepts_pure (Entry.mk lsn txn event)).congr
  intro bytes e
  constructor
  · rintro ⟨lsn, _, _, rfl, hlsn, txn, _, _, rfl, htxn, event, _, _, rfl, hevent, rfl, rfl⟩
    rw [List.append_nil, ← List.append_assoc]
    exact .intro hlsn htxn hevent
  · rintro ⟨hlsn, htxn, hevent⟩
    exact ⟨_, _, _, List.append_assoc .., hlsn, _, _, _, rfl, htxn, _, _, [],
      (List.append_nil _).symm, hevent, rfl, rfl⟩

/-- An entry is found in the bytes that begin with it. -/
theorem decode_eq_ok_iff {bytes : Bytes} {e : Entry} :
    decode bytes = .ok e ↔ ∃ written rest, bytes = written ++ rest ∧ Written written e := by
  constructor
  · intro h
    cases hread : read.run bytes with
    | error cause =>
      rw [decode, Wire.ofPrefix, hread] at h
      cases h
    | ok found =>
      rcases found with ⟨a, rest⟩
      rw [decode, Wire.ofPrefix, hread] at h
      cases h
      rcases (accepts_read _ _ _).1 hread with ⟨written, hbytes, hwritten⟩
      exact ⟨written, rest, hbytes, hwritten⟩
  · rintro ⟨written, rest, hbytes, hwritten⟩
    rw [decode, Wire.ofPrefix, (accepts_read bytes e rest).2 ⟨written, hbytes, hwritten⟩]
    rfl

end Entry

namespace Frame

/-- The checksum is that of the payload, and the payload begins with the entry. -/
structure Tells (f : Frame) (e : Entry) : Prop where
  checksum : Checksum.crc32 f.payload = f.checksum
  payload : ∃ written rest, f.payload = written ++ rest ∧ Entry.Written written e

theorem entry_eq_ok_iff {f : Frame} {e : Entry} : f.entry = .ok e ↔ f.Tells e := by
  constructor
  · intro h
    unfold entry at h
    split at h
    · rename_i hchecksum
      split at h
      · rename_i hdecode
        cases h
        exact ⟨hchecksum, Entry.decode_eq_ok_iff.1 hdecode⟩
      · cases h
    · cases h
  · rintro ⟨hchecksum, hpayload⟩
    simp only [entry, hchecksum, if_true, Entry.decode_eq_ok_iff.2 hpayload]

end Frame

end Journal

end SnapshotIsolation
