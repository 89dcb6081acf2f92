/-!
# Bytes and fixed-width words

Byte strings are lists of bytes, so that every definition over them recurses on the data.
A word of a given width is written with its least significant byte first (little endian)
or last (big endian).

Main results:

- Theorem `Bytes.natLE_littleEndian`: reading a little-endian word gives back the number
  modulo its width.
- Theorem `Bytes.littleEndian_natLE`: writing what was read gives back the bytes.
- Theorems `Bytes.natBE_bigEndian` and `Bytes.bigEndian_natBE`: the same for big endian.
-/

namespace SnapshotIsolation

/-- A byte string. -/
abbrev Bytes := List UInt8

namespace Bytes

/-- The `width` low-order bytes of a number, least significant first. -/
def littleEndian : (width : Nat) → Nat → Bytes
  | 0, _ => []
  | width + 1, n => UInt8.ofNat n :: littleEndian width (n / 256)

/-- The number written by bytes that start with the least significant. -/
def natLE : Bytes → Nat
  | [] => 0
  | b :: rest => b.toNat + 256 * natLE rest

/-- The `width` low-order bytes of a number, most significant first. -/
def bigEndian (width n : Nat) : Bytes :=
  (littleEndian width n).reverse

/-- The number written by bytes that start with the most significant. -/
def natBE (bytes : Bytes) : Nat :=
  natLE bytes.reverse

/-- The two hexadecimal digits of a byte. -/
def hexDigits (b : UInt8) : List Char :=
  [Nat.digitChar (b.toNat / 16), Nat.digitChar (b.toNat % 16)]

/-- Bytes in hexadecimal notation. -/
def toHex (bytes : Bytes) : String := String.ofList (bytes.flatMap hexDigits)

/-- The value of a hexadecimal digit. -/
def hexValue? (c : Char) : Option Nat :=
  if '0' ≤ c ∧ c ≤ '9' then some (c.toNat - '0'.toNat)
  else if 'a' ≤ c ∧ c ≤ 'f' then some (c.toNat - 'a'.toNat + 10)
  else if 'A' ≤ c ∧ c ≤ 'F' then some (c.toNat - 'A'.toNat + 10)
  else none

/-- The bytes that hexadecimal digits stand for, two for each byte. -/
def ofHexDigits? : List Char → Option Bytes
  | [] => some []
  | [_] => none
  | high :: low :: rest => do
    return UInt8.ofNat (16 * (← hexValue? high) + (← hexValue? low)) :: (← ofHexDigits? rest)

@[simp]
theorem length_littleEndian (width n : Nat) : (littleEndian width n).length = width := by
  induction width generalizing n with
  | zero => rfl
  | succ width ih => simp [littleEndian, ih]

@[simp]
theorem length_bigEndian (width n : Nat) : (bigEndian width n).length = width := by
  simp [bigEndian]

/-- A little-endian word reads back as the number modulo its width. -/
theorem natLE_littleEndian (width n : Nat) :
    natLE (littleEndian width n) = n % Nat.pow 256 width := by
  induction width generalizing n with
  | zero => simp [littleEndian, natLE, Nat.mod_one]
  | succ width ih =>
    have byte : (UInt8.ofNat n).toNat = n % 256 := by simp
    have wider : Nat.pow 256 (width + 1) = 256 * Nat.pow 256 width := Nat.mul_comm ..
    rw [littleEndian, natLE, ih, byte, wider, Nat.mod_mul]

/-- A number read from bytes is below the bound of their width. -/
theorem natLE_lt (bytes : Bytes) : natLE bytes < Nat.pow 256 bytes.length := by
  induction bytes with
  | nil => simp [natLE]
  | cons b rest ih =>
    have hb : b.toNat < 256 := b.toNat_lt
    have wider : Nat.pow 256 (b :: rest).length = Nat.pow 256 rest.length * 256 := rfl
    rw [natLE, wider]
    omega

/-- Writing the number that was read gives back the bytes. -/
theorem littleEndian_natLE (bytes : Bytes) :
    littleEndian bytes.length (natLE bytes) = bytes := by
  induction bytes with
  | nil => rfl
  | cons b rest ih =>
    have hb : b.toNat < 256 := b.toNat_lt
    have low : UInt8.ofNat (b.toNat + 256 * natLE rest) = b := by
      apply UInt8.toNat_inj.mp
      simp
    have high : (b.toNat + 256 * natLE rest) / 256 = natLE rest := by omega
    simp only [List.length_cons, natLE, littleEndian, low, high, ih]

/-- A big-endian word reads back as the number modulo its width. -/
theorem natBE_bigEndian (width n : Nat) : natBE (bigEndian width n) = n % Nat.pow 256 width := by
  simp [natBE, bigEndian, natLE_littleEndian]

/-- Writing the number that was read most significant byte first gives back the bytes. -/
theorem bigEndian_natBE (bytes : Bytes) : bigEndian bytes.length (natBE bytes) = bytes := by
  have h := littleEndian_natLE bytes.reverse
  rw [List.length_reverse] at h
  rw [natBE, bigEndian, h, List.reverse_reverse]

end Bytes

end SnapshotIsolation
