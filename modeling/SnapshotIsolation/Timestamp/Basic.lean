import SnapshotIsolation.Bytes

/-!
# Timestamps

Transaction ids, snapshots and commit times share one totally ordered space of 64-bit words.
Values from `Timestamp.limit` on are never issued; zero stands for "no watermark yet" and is
no transaction id.
-/

namespace SnapshotIsolation

/-- A point in the order of all transactions. -/
structure Timestamp where
  /-- Its position in the order. -/
  raw : UInt64
deriving DecidableEq, Repr

namespace Timestamp

/-- The position as a natural number. -/
abbrev toNat (t : Timestamp) : Nat := t.raw.toNat

/-- The least timestamp; it names no transaction. -/
def zero : Timestamp := ⟨0⟩

/-- The least value that is never issued: the greatest signed 64-bit number. -/
def limit : Timestamp := ⟨0x7FFFFFFFFFFFFFFF⟩

instance : Inhabited Timestamp := ⟨zero⟩

instance : LE Timestamp := ⟨fun a b => a.raw ≤ b.raw⟩
instance : LT Timestamp := ⟨fun a b => a.raw < b.raw⟩
instance (a b : Timestamp) : Decidable (a ≤ b) := inferInstanceAs (Decidable (a.raw ≤ b.raw))
instance (a b : Timestamp) : Decidable (a < b) := inferInstanceAs (Decidable (a.raw < b.raw))
instance : Max Timestamp := ⟨fun a b => if a ≤ b then b else a⟩

instance : Ord Timestamp := ⟨compareOn raw⟩
instance : Std.TransOrd Timestamp := inferInstanceAs (Std.TransCmp (compareOn raw))

instance : Std.LawfulEqOrd Timestamp where
  eq_of_compare {a b} h := by
    have : a.raw = b.raw := Std.LawfulEqCmp.eq_of_compare (show compare a.raw b.raw = .eq from h)
    cases a
    cases b
    simp_all

theorem le_iff_toNat_le {a b : Timestamp} : a ≤ b ↔ a.toNat ≤ b.toNat :=
  UInt64.le_iff_toNat_le

theorem lt_iff_toNat_lt {a b : Timestamp} : a < b ↔ a.toNat < b.toNat :=
  UInt64.lt_iff_toNat_lt

theorem toNat_inj {a b : Timestamp} : a.toNat = b.toNat ↔ a = b := by
  cases a
  cases b
  simp [UInt64.toNat_inj]

/-- How a timestamp is written inside messages. -/
def text (t : Timestamp) : String :=
  "Timestamp(" ++ toString t.toNat ++ ")"

/-- The eight bytes of a timestamp, most significant first. -/
def toBytes (t : Timestamp) : Bytes := Bytes.bigEndian 8 t.toNat

/-- The timestamp written by eight bytes, most significant first. -/
def ofBytes (bytes : Bytes) : Timestamp := ⟨UInt64.ofNat (Bytes.natBE bytes)⟩

@[simp]
theorem length_toBytes (t : Timestamp) : t.toBytes.length = 8 := by
  simp [toBytes]

/-- A timestamp reads back from its bytes. -/
@[simp]
theorem ofBytes_toBytes (t : Timestamp) : ofBytes t.toBytes = t := by
  have h : t.raw.toNat < Nat.pow 256 8 := t.raw.toNat_lt
  rw [ofBytes, toBytes, Bytes.natBE_bigEndian, Nat.mod_eq_of_lt h, UInt64.ofNat_toNat]

/-- Eight bytes are the bytes of the timestamp they are read as. -/
theorem toBytes_ofBytes {bytes : Bytes} (h : bytes.length = 8) :
    (ofBytes bytes).toBytes = bytes := by
  have bound : Bytes.natBE bytes < UInt64.size := by
    have := Bytes.natLE_lt bytes.reverse
    rwa [List.length_reverse, h] at this
  have round := Bytes.bigEndian_natBE bytes
  rw [h] at round
  rw [toBytes, ofBytes, toNat, UInt64.toNat_ofNat', Nat.mod_eq_of_lt bound, round]

end Timestamp

end SnapshotIsolation
