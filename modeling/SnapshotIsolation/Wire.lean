import SnapshotIsolation.Bytes

/-!
# Wire format

Values travel as bytes without field names or padding. A word is a base-128 number, least
significant digit first, whose bytes have the high bit set except the last; longer forms than
necessary are read too, as long as the last byte holds only bits that the word has. A list is
its length as a word and then its items, a variant is its index as a 32-bit word, an optional
value is a byte zero or a byte one and the value, and a record is its fields in order.

Main results:

- Theorem `Wire.takeDigits_digits`: the digits of a number are read back, whatever follows them.
- Theorems `Wire.run_word_putWord`, `Wire.run_list_putList` and `Wire.run_option_putOption`: so
  are words, and lists and optional values of what is read back.
-/

namespace SnapshotIsolation

/-- Why bytes cannot be read. -/
inductive WireError where
  /-- The bytes end inside a value. -/
  | endOfInput
  /-- A word does not end within its width. -/
  | overlongWord
  /-- The mark of an optional value is neither zero nor one. -/
  | badOption
  /-- There is no variant with the index read. -/
  | unknownVariant
deriving DecidableEq, Repr

/-- The wording of a reading failure. -/
def WireError.message : WireError → String
  | .endOfInput => "Hit the end of buffer, expected more data"
  | .overlongWord =>
    "Found a varint that didn't terminate. Is the usize too big for this platform?"
  | .badOption => "Found an Option discriminant that wasn't 0 or 1"
  | .unknownVariant => "Serde Deserialization Error"

/-- A reader takes a value off the front of its input. -/
abbrev Reader (α : Type) := StateT Bytes (Except WireError) α

namespace Reader

variable {α β : Type} {item : Reader α} {bytes rest : Bytes} {a : α}

/-- After a value was read, a reader goes on with the rest of the input. -/
theorem run_bind_of_run {next : α → Reader β} (h : item.run bytes = .ok (a, rest)) :
    (item >>= next).run bytes = (next a).run rest := by
  rw [StateT.run_bind, h]
  rfl

/-- A function of what is read leaves the rest of the input alone. -/
theorem run_map_of_run {f : α → β} (h : item.run bytes = .ok (a, rest)) :
    (f <$> item).run bytes = .ok (f a, rest) := by
  rw [StateT.run_map, h]
  rfl

end Reader

namespace Wire

/-! ## Writing -/

/-- A number below `128 ^ (more + 1)` as at most `more + 1` digits. -/
def digits : (more : Nat) → Nat → Bytes
  | 0, n => [UInt8.ofNat n]
  | more + 1, n =>
    if n < 128 then [UInt8.ofNat n] else UInt8.ofNat (n % 128 + 128) :: digits more (n / 128)

/-- A 64-bit word takes at most ten digits. -/
def putWord (w : UInt64) : Bytes := digits 9 w.toNat

/-- A list: its length, then its items. -/
def putList {α : Type} (put : α → Bytes) (items : List α) : Bytes :=
  digits 9 items.length ++ items.flatMap put

/-- An optional value behind its mark. -/
def putOption {α : Type} (put : α → Bytes) : Option α → Bytes
  | none => [0]
  | some a => 1 :: put a

/-! ## Reading -/

/-- One byte. -/
def byte : Reader UInt8 := fun
  | [] => .error .endOfInput
  | b :: rest => .ok (b, rest)

/-- Reads the digits of a number of at most `bits` bits. -/
def takeDigits : (bits : Nat) → Bytes → Except WireError (Nat × Bytes)
  | _, [] => .error .endOfInput
  | bits, b :: rest =>
    if b.toNat < 128 then
      if b.toNat < Nat.pow 2 bits then .ok (b.toNat, rest) else .error .overlongWord
    else if bits ≤ 7 then .error .overlongWord
    else do
      let (high, rest) ← takeDigits (bits - 7) rest
      return (b.toNat - 128 + 128 * high, rest)

/-- A number of at most `bits` bits. -/
def number (bits : Nat) : Reader Nat := takeDigits bits

/-- A 64-bit word. -/
def word : Reader UInt64 := UInt64.ofNat <$> number 64

/-- The index of a variant. -/
def index : Reader Nat := number 32

/-- A given number of values, one after the other. -/
def replicate {α : Type} (item : Reader α) : Nat → Reader (List α)
  | 0 => pure []
  | count + 1 => do
    let a ← item
    let rest ← replicate item count
    return a :: rest

/-- A list behind its length. -/
def list {α : Type} (item : Reader α) : Reader (List α) := do
  replicate item (← number 64)

/-- An optional value behind its mark. -/
def option {α : Type} (item : Reader α) : Reader (Option α) := do
  match (← byte) with
  | 0 => return none
  | 1 => some <$> item
  | _ => throw .badOption

/-- Reads a value off the front of the bytes and drops what follows it. -/
def ofPrefix {α : Type} (item : Reader α) (bytes : Bytes) : Except WireError α := do
  let (a, _) ← item.run bytes
  return a

/-! ## Reading what was written -/

/-- The digits of a number are read back, whatever follows them. -/
theorem takeDigits_digits {more n bits : Nat} (rest : Bytes) (fits : n < Nat.pow 2 bits)
    (narrow : bits ≤ 7 * (more + 1)) : takeDigits bits (digits more n ++ rest) = .ok (n, rest) := by
  have byte : ∀ m < 256, (UInt8.ofNat m).toNat = m := fun m h => UInt8.toNat_ofNat_of_lt' h
  induction more generalizing n bits with
  | zero =>
    have small : n < 2 ^ 7 := Nat.lt_of_lt_of_le fits (Nat.pow_le_pow_right (by omega) (by omega))
    rw [digits, List.singleton_append, takeDigits, byte n (by omega), if_pos (by omega),
      if_pos fits]
  | succ more ih =>
    rw [digits]
    split
    · next small =>
      rw [List.singleton_append, takeDigits, byte n (by omega), if_pos small, if_pos fits]
    · next large =>
      have wide : 7 < bits := Nat.lt_of_not_le fun short => by
        have : n < 2 ^ 7 := Nat.lt_of_lt_of_le fits (Nat.pow_le_pow_right (by omega) short)
        omega
      have high : n / 128 < Nat.pow 2 (bits - 7) := by
        have split : 2 ^ bits = 2 ^ (bits - 7) * 2 ^ 7 := by
          rw [← Nat.pow_add, Nat.sub_add_cancel (by omega)]
        rw [Nat.div_lt_iff_lt_mul (by omega)]
        exact Nat.lt_of_lt_of_eq fits split
      rw [List.cons_append, takeDigits, byte _ (by omega), if_neg (by omega), if_neg (by omega),
        ih high (by omega)]
      exact congrArg (fun m => Except.ok (m, rest)) (by omega)

/-- A number is read back, whatever follows it. -/
theorem run_number_digits {n bits more : Nat} (rest : Bytes) (fits : n < Nat.pow 2 bits)
    (narrow : bits ≤ 7 * (more + 1)) : (number bits).run (digits more n ++ rest) = .ok (n, rest) :=
  takeDigits_digits rest fits narrow

/-- A word is read back, whatever follows it. -/
theorem run_word_putWord (w : UInt64) (rest : Bytes) :
    word.run (putWord w ++ rest) = .ok (w, rest) := by
  rw [word, putWord, Reader.run_map_of_run (run_number_digits rest w.toNat_lt (by omega)),
    UInt64.ofNat_toNat]

variable {α : Type} {item : Reader α} {put : α → Bytes}

/-- Items that are read back one by one are read back together. -/
theorem run_replicate_flatMap (h : ∀ a rest, item.run (put a ++ rest) = .ok (a, rest))
    (items : List α) (rest : Bytes) :
    (replicate item items.length).run (items.flatMap put ++ rest) = .ok (items, rest) := by
  induction items with
  | nil => rfl
  | cons a items ih =>
    rw [List.length_cons, replicate, List.flatMap_cons, List.append_assoc,
      Reader.run_bind_of_run (h a _), Reader.run_bind_of_run ih]
    rfl

/-- A list is read back, whatever follows it, if its items are. -/
theorem run_list_putList (h : ∀ a rest, item.run (put a ++ rest) = .ok (a, rest))
    {items : List α} (fits : items.length < UInt64.size) (rest : Bytes) :
    (list item).run (putList put items ++ rest) = .ok (items, rest) := by
  rw [list, putList, List.append_assoc,
    Reader.run_bind_of_run (run_number_digits _ fits (by omega)), run_replicate_flatMap h]

/-- An optional value is read back, whatever follows it, if its value is. -/
theorem run_option_putOption (h : ∀ a rest, item.run (put a ++ rest) = .ok (a, rest))
    (value : Option α) (rest : Bytes) :
    (option item).run (putOption put value ++ rest) = .ok (value, rest) := by
  cases value with
  | none => rfl
  | some a =>
    have mark : byte.run (putOption put (some a) ++ rest) = .ok (1, put a ++ rest) := rfl
    rw [option, Reader.run_bind_of_run mark]
    exact Reader.run_map_of_run (h a rest)

end Wire

end SnapshotIsolation
