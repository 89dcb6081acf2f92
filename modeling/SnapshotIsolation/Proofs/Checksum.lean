import Mathlib.Logic.Function.Basic
import SnapshotIsolation.Checksum

/-!
# What a checksum notices

A division step loses nothing: the bit that falls out of the register comes back as the highest bit,
which only the polynomial can set. So registers that differ stay different whatever is absorbed, and
byte strings that differ in one place have different checksums, however long they are.

Main results:

- Theorem {lit}`Checksum.shift_injective`: a division step can be undone.
- Theorem {lit}`Checksum.crc32_modify_ne`: a change of one byte changes the checksum.
-/

namespace SnapshotIsolation.Checksum

/-- The bit that falls out of the register is the highest bit of the next one. -/
theorem testBit_shift (register : UInt32) :
    (shift register).toNat.testBit 31 = register.toNat.testBit 0 := by
  have hbelow : (register >>> 1).toNat < 2 ^ 31 := by
    have hlt := register.toNat_lt
    simp only [UInt32.toNat_shiftRight, UInt32.reduceToNat, Nat.reduceMod, Nat.shiftRight_eq_div_pow]
    omega
  have hmoved : (register >>> 1).toNat.testBit 31 = false := Nat.testBit_lt_two_pow hbelow
  have hlow : register &&& 1 = 0 ↔ register.toNat.testBit 0 = false := by
    rw [← UInt32.toNat_inj, UInt32.toNat_and]
    simp [Nat.and_one_is_mod, Nat.testBit_zero]
  unfold shift
  split
  · rename_i hzero
    rw [hmoved, hlow.1 hzero]
  · rename_i hone
    have hset : register.toNat.testBit 0 = true := by
      simpa using mt hlow.2 hone
    rw [UInt32.toNat_xor, Nat.testBit_xor, hmoved, hset]
    decide

/-- A division step can be undone. -/
theorem shift_injective : Function.Injective shift := by
  intro a b h
  have hlow : a.toNat % 2 = b.toNat % 2 := by
    have hbit : a.toNat.testBit 0 = b.toNat.testBit 0 := by
      rw [← testBit_shift, ← testBit_shift, h]
    simp only [Nat.testBit_zero, decide_eq_decide] at hbit
    omega
  have hhigh : a.toNat / 2 = b.toNat / 2 := by
    have hfallen : a &&& 1 = b &&& 1 := by
      rw [← UInt32.toNat_inj, UInt32.toNat_and, UInt32.toNat_and]
      simpa [Nat.and_one_is_mod] using hlow
    have hmoved : a >>> 1 = b >>> 1 := by
      unfold shift at h
      rw [hfallen] at h
      split at h
      · exact h
      · exact (UInt32.xor_left_inj _).1 h
    simpa [Nat.shiftRight_eq_div_pow] using congrArg UInt32.toNat hmoved
  rw [← UInt32.toNat_inj]
  omega

theorem repeat_shift_injective (n : Nat) : Function.Injective (Nat.repeat shift n) := by
  induction n with
  | zero => exact Function.injective_id
  | succ n ih => exact shift_injective.comp ih

/-- Registers that differ stay different, whatever is absorbed. -/
theorem absorb_left_injective (byte : UInt8) : Function.Injective (absorb · byte) := by
  intro a b h
  exact (UInt32.xor_left_inj _).1 (repeat_shift_injective 8 h)

/-- Bytes that differ make different registers. -/
theorem absorb_right_injective (register : UInt32) : Function.Injective (absorb register) := by
  intro a b h
  have hword : a.toUInt32 = b.toUInt32 := (UInt32.xor_right_inj _).1 (repeat_shift_injective 8 h)
  rw [← UInt8.toNat_inj]
  simpa using congrArg UInt32.toNat hword

theorem foldl_absorb_injective (bytes : Bytes) : Function.Injective (bytes.foldl absorb) := by
  induction bytes with
  | nil => exact Function.injective_id
  | cons byte bytes ih => exact ih.comp (absorb_left_injective byte)

/-- Byte strings that differ in one place have the same checksum only if they do not differ
there. -/
theorem crc32_append_cons_inj (first last : Bytes) {a b : UInt8} :
    crc32 (first ++ a :: last) = crc32 (first ++ b :: last) ↔ a = b := by
  constructor
  · intro h
    have hfolded := (UInt32.xor_left_inj _).1 h
    rw [List.foldl_append, List.foldl_append, List.foldl_cons, List.foldl_cons] at hfolded
    exact absorb_right_injective _ (foldl_absorb_injective last hfolded)
  · rintro rfl
    rfl

/-- A change of one byte changes the checksum, wherever it is and however long the string. -/
theorem crc32_modify_ne {bytes : Bytes} {i : Nat} (hi : i < bytes.length) {change : UInt8 → UInt8}
    (hchange : change bytes[i] ≠ bytes[i]) : crc32 (bytes.modify i change) ≠ crc32 bytes := by
  have hbytes : bytes.take i ++ bytes[i] :: bytes.drop (i + 1) = bytes := by
    rw [← List.drop_eq_getElem_cons hi, List.take_append_drop]
  intro hsame
  apply hchange
  rw [← crc32_append_cons_inj (bytes.take i) (bytes.drop (i + 1)), hbytes, ← hsame,
    List.modify_eq_take_cons_drop hi]

end SnapshotIsolation.Checksum
