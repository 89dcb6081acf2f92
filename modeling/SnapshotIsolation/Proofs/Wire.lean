import SnapshotIsolation.Wire

/-!
# What readers accept

A reader takes a value off the front of its input exactly if the value is written there in some
form. Forms follow the readers: where one reader comes after another, the bytes of the one come
before the bytes of the other. A number is accepted in every form of base-128 digits that fits its
width, not only in the shortest.

Main results:

- Theorem {lit}`Reader.Accepts.bind`: readers one after the other accept what is written one after
  the other.
- Theorem {lit}`Reader.Accepts.self_delimiting`: what is accepted ends where it ends.
- Theorem {lit}`Reader.Steadfast.run_of_short`: where the end of what is read in full is missing, the
  input runs out.
- Theorem {lit}`Wire.accepts_number`: numbers are accepted in any digits that fit their width.
- Theorem {lit}`Wire.accepts_list`: lists are accepted behind their count.
-/

namespace SnapshotIsolation

namespace Reader

variable {α β : Type} {item : Reader α} {F F' : Bytes → α → Prop}

/-- What is read off the front of any bytes is what is written there in the form. -/
def Accepts (item : Reader α) (F : Bytes → α → Prop) : Prop :=
  ∀ bytes a rest, item.run bytes = .ok (a, rest) ↔ ∃ used, bytes = used ++ rest ∧ F used a

theorem Accepts.congr (h : item.Accepts F) (hsame : ∀ bytes a, F bytes a ↔ F' bytes a) :
    item.Accepts F' := by
  intro bytes a rest
  simp only [h bytes a rest, hsame]

theorem accepts_pure (a : α) : (pure a : Reader α).Accepts fun bytes b => bytes = [] ∧ b = a := by
  intro bytes b rest
  constructor
  · intro h
    cases h
    exact ⟨[], rfl, rfl, rfl⟩
  · rintro ⟨_, rfl, rfl, rfl⟩
    rfl

theorem accepts_throw (e : WireError) : (throw e : Reader α).Accepts fun _ _ => False := by
  intro bytes b rest
  constructor
  · intro h
    cases h
  · rintro ⟨_, _, hnone⟩
    exact hnone.elim

/-- Readers one after the other accept what is written one after the other. -/
theorem Accepts.bind {next : α → Reader β} {G : α → Bytes → β → Prop} (h : item.Accepts F)
    (hnext : ∀ a, (next a).Accepts (G a)) :
    (item >>= next).Accepts fun bytes b =>
      ∃ a front back, bytes = front ++ back ∧ F front a ∧ G a back b := by
  intro bytes b rest
  constructor
  · intro hrun
    cases hitem : item.run bytes with
    | error e =>
      rw [StateT.run_bind, hitem] at hrun
      cases hrun
    | ok read =>
      rcases read with ⟨a, middle⟩
      rw [run_bind_of_run hitem] at hrun
      rcases (h _ _ _).1 hitem with ⟨front, rfl, hfront⟩
      rcases (hnext a _ _ _).1 hrun with ⟨back, rfl, hback⟩
      exact ⟨front ++ back, (List.append_assoc ..).symm, a, front, back, rfl, hfront, hback⟩
  · rintro ⟨_, rfl, a, front, back, rfl, hfront, hback⟩
    rw [List.append_assoc, run_bind_of_run ((h _ _ _).2 ⟨front, rfl, hfront⟩)]
    exact (hnext a _ _ _).2 ⟨back, rfl, hback⟩

theorem Accepts.map (h : item.Accepts F) (f : α → β) :
    (f <$> item).Accepts fun bytes b => ∃ a, F bytes a ∧ b = f a := by
  rw [map_eq_pure_bind]
  apply (h.bind fun a => accepts_pure (f a)).congr
  intro bytes b
  constructor
  · rintro ⟨a, front, _, rfl, hfront, rfl, rfl⟩
    exact ⟨a, by rwa [List.append_nil], rfl⟩
  · rintro ⟨a, hbytes, rfl⟩
    exact ⟨a, bytes, [], (List.append_nil _).symm, hbytes, rfl, rfl⟩

/-- What is accepted ends where it ends, and says one thing only, whatever follows it. -/
theorem Accepts.self_delimiting {used used' rest rest' : Bytes} {a a' : α} (h : item.Accepts F)
    (hused : F used a) (hused' : F used' a') (hsame : used ++ rest = used' ++ rest') :
    a = a' ∧ rest = rest' := by
  have hrun : item.run (used ++ rest) = .ok (a, rest) := (h _ _ _).2 ⟨used, rfl, hused⟩
  have hrun' : item.run (used ++ rest) = .ok (a', rest') := (h _ _ _).2 ⟨used', hsame, hused'⟩
  simpa [hrun] using hrun'

/-- What follows the bytes that are taken does not change what is read. -/
def Local (item : Reader α) : Prop :=
  ∀ bytes a rest, item.run bytes = .ok (a, rest) →
    ∀ more, item.run (bytes ++ more) = .ok (a, rest ++ more)

theorem Accepts.isLocal (h : item.Accepts F) : item.Local := by
  intro bytes a rest hrun more
  rcases (h _ _ _).1 hrun with ⟨used, rfl, hused⟩
  exact (h _ _ _).2 ⟨used, List.append_assoc .., hused⟩

/-! ## Input that runs out -/

/-- Unless the input ran out, more of it changes nothing about how the reading ends. -/
structure Steadfast (item : Reader α) : Prop where
  isLocal : item.Local
  refuses {bytes : Bytes} {e : WireError} : item.run bytes = .error e → e ≠ .endOfInput →
    ∀ more, item.run (bytes ++ more) = .error e

theorem steadfast_pure (a : α) : (pure a : Reader α).Steadfast :=
  ⟨(accepts_pure a).isLocal, nofun⟩

theorem steadfast_throw (e : WireError) : (throw e : Reader α).Steadfast := by
  refine ⟨(accepts_throw e).isLocal, ?_⟩
  intro bytes cause hrun _ more
  cases hrun
  rfl

theorem run_bind_of_error {next : α → Reader β} {bytes : Bytes} {e : WireError}
    (h : item.run bytes = .error e) : (item >>= next).run bytes = .error e := by
  rw [StateT.run_bind, h]
  rfl

theorem Steadfast.bind {next : α → Reader β} (h : item.Steadfast)
    (hnext : ∀ a, (next a).Steadfast) : (item >>= next).Steadfast := by
  constructor
  · intro bytes b rest hrun more
    cases hitem : item.run bytes with
    | error e =>
      rw [run_bind_of_error hitem] at hrun
      cases hrun
    | ok read =>
      rcases read with ⟨a, middle⟩
      rw [run_bind_of_run hitem] at hrun
      rw [run_bind_of_run (h.isLocal _ _ _ hitem more)]
      exact (hnext a).isLocal _ _ _ hrun more
  · intro bytes e hrun hrefused more
    cases hitem : item.run bytes with
    | error cause =>
      rw [run_bind_of_error hitem] at hrun
      cases hrun
      exact run_bind_of_error (h.refuses hitem hrefused more)
    | ok read =>
      rcases read with ⟨a, middle⟩
      rw [run_bind_of_run hitem] at hrun
      rw [run_bind_of_run (h.isLocal _ _ _ hitem more)]
      exact (hnext a).refuses hrun hrefused more

theorem Steadfast.map (h : item.Steadfast) (f : α → β) : (f <$> item).Steadfast := by
  rw [map_eq_pure_bind]
  exact h.bind fun a => steadfast_pure (f a)

/-- Where the end of what is read in full is missing, the input runs out. -/
theorem Steadfast.run_of_short {front back : Bytes} {a : α} (h : item.Steadfast)
    (hwhole : item.run (front ++ back) = .ok (a, [])) (hback : back ≠ []) :
    item.run front = .error .endOfInput := by
  cases hfront : item.run front with
  | ok read =>
    rcases read with ⟨b, rest⟩
    -- the same would be read off the whole, and leave the missing bytes
    have hextended := h.isLocal _ _ _ hfront back
    rw [hwhole, Except.ok.injEq, Prod.mk.injEq] at hextended
    exact absurd (List.append_eq_nil_iff.1 hextended.2.symm).2 hback
  | error e =>
    by_cases hend : e = .endOfInput
    · rw [hend]
    · have hextended := h.refuses hfront hend back
      rw [hwhole] at hextended
      cases hextended

end Reader

namespace Wire

open Reader (accepts_pure steadfast_pure)

/-! ## Numbers -/

/-- A number in base 128, its least significant digit first; each byte but the last has its high
bit set. -/
inductive Digits : Bytes → Nat → Prop
  | last {b : UInt8} (h : b.toNat < 128) : Digits [b] b.toNat
  | more {b : UInt8} {bytes : Bytes} {n : Nat} (h : 128 ≤ b.toNat) (rest : Digits bytes n) :
      Digits (b :: bytes) (b.toNat - 128 + 128 * n)

/-- A number of at most the given bits, in no more digits than so many bits can need. -/
structure Numeral (bits : Nat) (bytes : Bytes) (n : Nat) : Prop where
  digits : Digits bytes n
  short : bytes.length ≤ (bits + 6) / 7
  fits : n < Nat.pow 2 bits

theorem Digits.length_pos {bytes : Bytes} {n : Nat} (h : Digits bytes n) : 0 < bytes.length := by
  cases h <;> simp

/-- Seven bits are left to each digit. -/
theorem low_add_lt_iff {bits low n : Nat} (hwide : 7 < bits) (hlow : low < 128) :
    low + 128 * n < Nat.pow 2 bits ↔ n < Nat.pow 2 (bits - 7) := by
  have hsplit : Nat.pow 2 bits = 128 * Nat.pow 2 (bits - 7) := by
    have hpow := Nat.pow_add 2 7 (bits - 7)
    rwa [Nat.add_sub_cancel' (by omega)] at hpow
  omega

theorem numeral_of_takeDigits {bits n : Nat} {bytes rest : Bytes} (hbits : 0 < bits)
    (h : takeDigits bits bytes = .ok (n, rest)) :
    ∃ used, bytes = used ++ rest ∧ Numeral bits used n := by
  -- each digit that is not the last leaves fewer bits
  induction bytes generalizing bits n with
  | nil => cases h
  | cons b bytes ih =>
    unfold takeDigits at h
    split at h
    · rename_i hlast
      split at h
      · rename_i hfits
        cases h
        exact ⟨[b], rfl, .last hlast, by simp; omega, hfits⟩
      · cases h
    · rename_i hmore
      split at h
      · cases h
      · rename_i hwide
        cases hhigh : takeDigits (bits - 7) bytes with
        | error e =>
          rw [hhigh] at h
          cases h
        | ok read =>
          rcases read with ⟨high, rest'⟩
          rw [hhigh] at h
          cases h
          rcases ih (by omega) hhigh with ⟨used, rfl, hused⟩
          have hshort := hused.short
          have hbyte := b.toNat_lt
          refine ⟨b :: used, rfl, .more (by omega) hused.digits, ?_, ?_⟩
          · rw [List.length_cons]
            omega
          · exact (low_add_lt_iff (by omega) (by omega)).2 hused.fits

theorem takeDigits_of_numeral {bits n : Nat} {used : Bytes} (h : Numeral bits used n)
    (rest : Bytes) : takeDigits bits (used ++ rest) = .ok (n, rest) := by
  rcases h with ⟨hdigits, hshort, hfits⟩
  induction hdigits generalizing bits with
  | last hlast =>
    rw [List.singleton_append, takeDigits, if_pos hlast]
    exact if_pos hfits
  | @more b bytes n hmore hdigits ih =>
    have hpos := hdigits.length_pos
    have hbyte := b.toNat_lt
    rw [List.length_cons] at hshort
    have hhigh : takeDigits (bits - 7) (bytes ++ rest) = .ok (n, rest) :=
      ih (by omega) ((low_add_lt_iff (by omega) (by omega)).1 hfits)
    rw [List.cons_append, takeDigits, if_neg (by omega), if_neg (by omega), hhigh]
    rfl

/-- Numbers are accepted in any digits that fit their width. -/
theorem accepts_number {bits : Nat} (hbits : 0 < bits) : (number bits).Accepts (Numeral bits) := by
  intro bytes n rest
  constructor
  · exact numeral_of_takeDigits hbits
  · rintro ⟨used, rfl, hused⟩
    exact takeDigits_of_numeral hused rest

theorem accepts_word : word.Accepts fun bytes w => Numeral 64 bytes w.toNat := by
  apply ((accepts_number (by decide)).map _).congr
  intro bytes w
  constructor
  · rintro ⟨n, hn, rfl⟩
    rwa [UInt64.toNat_ofNat_of_lt' hn.fits]
  · intro hw
    exact ⟨w.toNat, hw, UInt64.ofNat_toNat.symm⟩

theorem takeDigits_append_of_error {bits : Nat} {bytes : Bytes} {e : WireError}
    (h : takeDigits bits bytes = .error e) (hrefused : e ≠ .endOfInput) (more : Bytes) :
    takeDigits bits (bytes ++ more) = .error e := by
  induction bytes generalizing bits with
  | nil =>
    cases h
    exact absurd rfl hrefused
  | cons b bytes ih =>
    rw [List.cons_append]
    unfold takeDigits at h ⊢
    split at h
    · rename_i hlast
      rw [if_pos hlast]
      split at h
      · cases h
      · rename_i hfits
        rw [if_neg hfits]
        exact h
    · rename_i hmore
      rw [if_neg hmore]
      split at h
      · rename_i hnarrow
        rw [if_pos hnarrow]
        exact h
      · rename_i hwide
        rw [if_neg hwide]
        cases hhigh : takeDigits (bits - 7) bytes with
        | error cause =>
          rw [hhigh] at h
          cases h
          rw [ih hhigh]
          rfl
        | ok read =>
          rw [hhigh] at h
          cases h

theorem steadfast_number {bits : Nat} (hbits : 0 < bits) : (number bits).Steadfast :=
  ⟨(accepts_number hbits).isLocal, takeDigits_append_of_error⟩

theorem steadfast_word : word.Steadfast :=
  (steadfast_number (by decide)).map _

/-! ## Lists -/

variable {α : Type} {item : Reader α} {F : Bytes → α → Prop}

/-- Values one after the other, each in the same form. -/
inductive Items (F : Bytes → α → Prop) : Bytes → List α → Prop
  | nil : Items F [] []
  | cons {front back : Bytes} {a : α} {items : List α} (first : F front a)
      (rest : Items F back items) : Items F (front ++ back) (a :: items)

/-- A list behind its count. -/
inductive Listed (F : Bytes → α → Prop) : Bytes → List α → Prop
  | intro {count body : Bytes} {items : List α} (counted : Numeral 64 count items.length)
      (written : Items F body items) : Listed F (count ++ body) items

theorem accepts_replicate (h : item.Accepts F) (count : Nat) :
    (replicate item count).Accepts fun bytes items => items.length = count ∧ Items F bytes items := by
  induction count with
  | zero =>
    apply (accepts_pure []).congr
    intro bytes items
    constructor
    · rintro ⟨rfl, rfl⟩
      exact ⟨rfl, .nil⟩
    · rintro ⟨hnone, hitems⟩
      cases hitems with
      | nil => exact ⟨rfl, rfl⟩
      | cons => cases hnone
  | succ count ih =>
    apply (h.bind fun a => ih.bind fun rest => accepts_pure (a :: rest)).congr
    intro bytes items
    constructor
    · rintro ⟨a, front, _, rfl, hfront, rest, back, _, rfl, ⟨rfl, hback⟩, rfl, rfl⟩
      rw [List.append_nil]
      exact ⟨rfl, .cons hfront hback⟩
    · rintro ⟨hcount, hitems⟩
      cases hitems with
      | nil => cases hcount
      | @cons front back a rest hfront hback =>
        exact ⟨a, front, back, rfl, hfront, rest, back, [], (List.append_nil _).symm,
          ⟨Nat.succ.inj hcount, hback⟩, rfl, rfl⟩

/-- Lists are accepted behind their count. -/
theorem accepts_list (h : item.Accepts F) : (list item).Accepts (Listed F) := by
  apply ((accepts_number (by decide)).bind (accepts_replicate h)).congr
  intro bytes items
  constructor
  · rintro ⟨_, count, body, rfl, hcount, rfl, hitems⟩
    exact .intro hcount hitems
  · rintro ⟨hcount, hitems⟩
    exact ⟨_, _, _, rfl, hcount, rfl, hitems⟩

theorem steadfast_replicate (h : item.Steadfast) (count : Nat) :
    (replicate item count).Steadfast := by
  induction count with
  | zero => exact steadfast_pure []
  | succ count ih => exact h.bind fun a => ih.bind fun rest => steadfast_pure (a :: rest)

theorem steadfast_list (h : item.Steadfast) : (list item).Steadfast :=
  (steadfast_number (by decide)).bind (steadfast_replicate h)

end Wire

end SnapshotIsolation
