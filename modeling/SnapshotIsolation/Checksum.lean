import SnapshotIsolation.Bytes

/-!
# Checksum

The 32-bit cyclic redundancy check that guards stored bytes: reflected, with the polynomial
`0xEDB88320`, starting from all ones and complemented at the end.
-/

namespace SnapshotIsolation.Checksum

/-- The generator polynomial, lowest power in the highest bit. -/
def polynomial : UInt32 := 0xEDB88320

/-- One division step: the register moves right by one bit, and the polynomial is taken off
when a one falls out. -/
def shift (register : UInt32) : UInt32 :=
  if register &&& 1 = 0 then register >>> 1 else (register >>> 1) ^^^ polynomial

/-- The register after one more byte. -/
def absorb (register : UInt32) (byte : UInt8) : UInt32 :=
  Nat.repeat shift 8 (register ^^^ byte.toUInt32)

/-- The checksum of a byte string. -/
def crc32 (bytes : Bytes) : UInt32 :=
  bytes.foldl absorb 0xFFFFFFFF ^^^ 0xFFFFFFFF

/-- The published check value of this checksum, that of the text `123456789`. -/
example : crc32 [0x31, 0x32, 0x33, 0x34, 0x35, 0x36, 0x37, 0x38, 0x39] = 0xCBF43926 := by
  decide +kernel

end SnapshotIsolation.Checksum
