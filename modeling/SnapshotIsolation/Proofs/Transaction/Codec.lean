import SnapshotIsolation.Proofs.Wire
import SnapshotIsolation.Transaction.Codec

/-!
# What a handle's bytes may be

The forms in which the parts of a handle are accepted.

Main results:

- Theorem {lit}`Handle.accepts_read`: a handle is accepted as its id, its ancestors behind their
  count and the index of its isolation.
-/

namespace SnapshotIsolation

open Reader (accepts_pure accepts_throw steadfast_pure steadfast_throw)

theorem Timestamp.accepts_read :
    Timestamp.read.Accepts fun bytes t => Wire.Numeral 64 bytes t.toNat := by
  apply (Wire.accepts_word.map _).congr
  intro bytes t
  constructor
  · rintro ⟨w, hw, rfl⟩
    exact hw
  · intro ht
    exact ⟨t.raw, ht, rfl⟩

theorem Timestamp.steadfast_read : Timestamp.read.Steadfast :=
  Wire.steadfast_word.map _

namespace Isolation

/-- The place of an isolation among the isolations. -/
def index : Isolation → Nat
  | .snapshot => 0
  | .readCommitted => 1
  | .readUncommitted => 2

theorem index_inj {i j : Isolation} : i.index = j.index ↔ i = j := by
  cases i <;> cases j <;> decide

theorem accepts_variant (i : Isolation) :
    (pure i : Reader Isolation).Accepts fun bytes j => bytes = [] ∧ j.index = i.index := by
  apply (accepts_pure i).congr
  simp only [index_inj, implies_true]

theorem accepts_read :
    Isolation.read.Accepts fun bytes i => Wire.Numeral 32 bytes i.index := by
  have hread : Isolation.read.Accepts fun bytes i => ∃ n front back, bytes = front ++ back ∧
      Wire.Numeral 32 front n ∧ back = [] ∧ i.index = n := by
    apply (Wire.accepts_number (by decide)).bind
    intro n
    split
    · exact accepts_variant .snapshot
    · exact accepts_variant .readCommitted
    · exact accepts_variant .readUncommitted
    · rename_i hzero hone htwo
      apply (accepts_throw _).congr
      intro bytes i
      rw [false_iff]
      rintro ⟨_, hindex⟩
      cases i
      · exact hzero hindex.symm
      · exact hone hindex.symm
      · exact htwo hindex.symm
  apply hread.congr
  intro bytes i
  constructor
  · rintro ⟨_, front, _, rfl, hfront, rfl, rfl⟩
    rwa [List.append_nil]
  · intro hi
    exact ⟨_, bytes, [], (List.append_nil _).symm, hi, rfl, rfl⟩

theorem steadfast_read : Isolation.read.Steadfast := by
  apply (Wire.steadfast_number (by decide)).bind
  intro n
  split
  · exact steadfast_pure _
  · exact steadfast_pure _
  · exact steadfast_pure _
  · exact steadfast_throw _

end Isolation

namespace Handle

/-- A handle: its id, its ancestors behind their count, and the index of its isolation. -/
inductive Written : Bytes → Handle → Prop
  | intro {id ancestors isolation : Bytes} {h : Handle} (hid : Wire.Numeral 64 id h.id.toNat)
      (hancestors : Wire.Listed (fun bytes t => Wire.Numeral 64 bytes (Timestamp.toNat t)) ancestors
        h.ancestors)
      (hisolation : Wire.Numeral 32 isolation h.isolation.index) :
      Written (id ++ ancestors ++ isolation) h

/-- A handle is accepted as its parts one after the other. -/
theorem accepts_read : Handle.read.Accepts Written := by
  apply (Timestamp.accepts_read.bind fun id =>
    (Wire.accepts_list Timestamp.accepts_read).bind fun ancestors =>
      Isolation.accepts_read.bind fun isolation =>
        accepts_pure (Handle.mk id ancestors isolation)).congr
  intro bytes h
  constructor
  · rintro ⟨id, _, _, rfl, hid, ancestors, _, _, rfl, hancestors, isolation, _, _, rfl,
      hisolation, rfl, rfl⟩
    rw [List.append_nil, ← List.append_assoc]
    exact .intro hid hancestors hisolation
  · rintro ⟨hid, hancestors, hisolation⟩
    exact ⟨_, _, _, List.append_assoc .., hid, _, _, _, rfl, hancestors, _, _, [],
      (List.append_nil _).symm, hisolation, rfl, rfl⟩

end Handle

end SnapshotIsolation
