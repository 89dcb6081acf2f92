import Mathlib.Order.Defs.LinearOrder
import SnapshotIsolation.Timestamp.Basic

/-!
# The order of timestamps

Timestamps are linearly ordered by their position, so that the lemmas about linear orders apply
to ids, snapshots and commit times alike.
-/

namespace SnapshotIsolation

namespace Timestamp

instance : LinearOrder Timestamp where
  le_refl a := UInt64.le_refl a.raw
  le_trans _ _ _ hab hbc := UInt64.le_trans hab hbc
  le_antisymm _ _ hab hba := toNat_inj.1 (Nat.le_antisymm hab hba)
  le_total a b := UInt64.le_total a.raw b.raw
  lt_iff_le_not_ge _ _ := Nat.lt_iff_le_and_not_ge
  toDecidableLE := inferInstance
  toDecidableEq := inferInstance
  toDecidableLT := inferInstance
  compare_eq_compareOfLessAndEq a b := by
    show compareOfLessAndEq a.raw b.raw = compareOfLessAndEq a b
    unfold compareOfLessAndEq
    have hraw : a.raw = b.raw ↔ a = b := by rw [← toNat_inj, UInt64.toNat_inj]
    simp only [hraw]
    rfl

/-! ## Positions as numbers -/

theorem toNat_limit : limit.toNat = 0x7FFFFFFFFFFFFFFF :=
  rfl

/-- A position other than the last one has a successor. -/
theorem toNat_add_one {w : UInt64} (h : w.toNat < 0xFFFFFFFFFFFFFFFF) :
    (w + 1).toNat = w.toNat + 1 := by
  have hone : (1 : UInt64).toNat = 1 := rfl
  rw [UInt64.toNat_add, hone]
  exact Nat.mod_eq_of_lt (by omega)

theorem toNat_raw_add_one {t : Timestamp} (h : t < limit) : (t.raw + 1).toNat = t.toNat + 1 := by
  have hlt : t.toNat < limit.toNat := lt_iff_toNat_lt.1 h
  rw [toNat_limit] at hlt
  exact toNat_add_one (Nat.lt_trans hlt (by decide))

theorem toNat_max (v w : UInt64) : (max v w).toNat = max v.toNat w.toNat := by
  have hmax : max v w = if v ≤ w then w else v := rfl
  rw [hmax]
  split
  · rename_i hle
    exact (Nat.max_eq_right (UInt64.le_iff_toNat_le.1 hle)).symm
  · rename_i hlt
    exact (Nat.max_eq_left (Nat.le_of_lt (UInt64.lt_iff_toNat_lt.1 (UInt64.not_le.1 hlt)))).symm

/-! ## Zero -/

/-- Nothing lies below zero. -/
theorem zero_le (t : Timestamp) : zero ≤ t :=
  le_iff_toNat_le.2 (Nat.zero_le _)

end Timestamp

end SnapshotIsolation
