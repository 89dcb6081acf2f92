import Mathlib.Data.List.Basic
import SnapshotIsolation.Proofs.Checksum
import SnapshotIsolation.Proofs.Outcome
import SnapshotIsolation.Timestamp.Watermark

/-!
# Watermark files

A watermark is written to a temporary file that is then moved into place, so a write that fails at
any point leaves the old watermark where it was. Its checksum differs from that of any timestamp
that differs in one byte, so what is read from a file with one byte changed is refused.

Main results:

- Theorem {lit}`WatermarkFile.decode_eq_ok_iff`: only what was written for a timestamp is read as
  that timestamp.
- Theorem {lit}`WatermarkFile.set_encode_ne`: two watermarks never differ in a single byte.
- Theorem {lit}`WatermarkFile.History.holds`: where the last watermark stands after any history.
- Theorem {lit}`WatermarkFile.watermark_file_is_never_wrong`: what is loaded after any history and
  from a damaged file.
-/

namespace SnapshotIsolation

namespace WatermarkFile

variable {ts ts' : Timestamp} {bytes : Bytes} {b : UInt8} {i : Nat}

/-! ## The bytes of a watermark -/

theorem length_encode (ts : Timestamp) : (encode ts).length = size := by
  simp [encode, size]

theorem take_encode (ts : Timestamp) : (encode ts).take 8 = ts.toBytes := by
  rw [encode, List.take_left' (Timestamp.length_toBytes ts)]

theorem drop_encode (ts : Timestamp) :
    (encode ts).drop 8 = Bytes.littleEndian 4 (Checksum.crc32 ts.toBytes).toNat := by
  rw [encode, List.drop_left' (Timestamp.length_toBytes ts)]

/-- Only what was written for a timestamp is read as that timestamp. -/
theorem decode_eq_ok_iff : decode bytes = .ok ts ↔ bytes = encode ts := by
  constructor
  · intro h
    unfold decode at h
    split at h
    · rename_i hlength
      split at h
      · rename_i hchecksum
        cases h
        have hpayload : (bytes.take 8).length = 8 := by simp [hlength, size]
        have htail : Bytes.littleEndian 4 (Bytes.natLE (bytes.drop 8)) = bytes.drop 8 := by
          have hwritten := Bytes.littleEndian_natLE (bytes.drop 8)
          rwa [List.length_drop, hlength] at hwritten
        rw [encode, Timestamp.toBytes_ofBytes hpayload, hchecksum, htail, List.take_append_drop]
      · cases h
    · cases h
  · rintro rfl
    exact decode_encode ts

/-- Bytes of the right length are refused for nothing but their checksum. -/
theorem decode_of_ne_encode (hlength : bytes.length = size) (h : ∀ ts, bytes ≠ encode ts) :
    decode bytes = .error (.corruptWatermark .checksum) := by
  cases hdecode : decode bytes with
  | ok ts => exact absurd (decode_eq_ok_iff.1 hdecode) (h ts)
  | error e =>
    unfold decode at hdecode
    rw [if_pos hlength] at hdecode
    split at hdecode <;> cases hdecode
    rfl

theorem crc32_eq_of_drop_encode (h : (encode ts).drop 8 = (encode ts').drop 8) :
    Checksum.crc32 ts.toBytes = Checksum.crc32 ts'.toBytes := by
  have hread := congrArg Bytes.natLE h
  rw [drop_encode, drop_encode, Bytes.natLE_littleEndian, Bytes.natLE_littleEndian,
    Nat.mod_eq_of_lt (UInt32.toNat_lt _), Nat.mod_eq_of_lt (UInt32.toNat_lt _)] at hread
  exact UInt32.toNat_inj.1 hread

/-- Two watermarks never differ in a single byte. -/
theorem set_encode_ne (hi : i < size) (h : (encode ts)[i]? ≠ some b) (ts' : Timestamp) :
    (encode ts).set i b ≠ encode ts' := by
  intro hsame
  by_cases hpayload : i < 8
  · -- the checksums are the same although the timestamps differ in one byte
    have hhead : ts.toBytes.set i b = ts'.toBytes := by
      rw [← take_encode ts, ← take_encode ts', ← hsame, List.take_set]
    have htail : (encode ts').drop 8 = (encode ts).drop 8 := by
      rw [← hsame, List.drop_set_of_lt hpayload]
    have hinside : i < ts.toBytes.length := by rwa [Timestamp.length_toBytes]
    have hbyte : b ≠ ts.toBytes[i] := by
      rintro rfl
      apply h
      rw [encode, List.getElem?_append_left hinside, List.getElem?_eq_getElem hinside]
    have hchanged : Checksum.crc32 (ts.toBytes.modify i fun _ => b) ≠ Checksum.crc32 ts.toBytes :=
      Checksum.crc32_modify_ne hinside hbyte
    apply hchanged
    rw [← List.set_eq_modify, hhead]
    exact crc32_eq_of_drop_encode htail
  · -- the timestamps are the same, and so are their watermarks
    have hhead : ts.toBytes = ts'.toBytes := by
      rw [← take_encode ts, ← take_encode ts', ← hsame,
        List.take_set_of_le (Nat.le_of_not_lt hpayload)]
    have hts : ts = ts' := by
      rw [← Timestamp.ofBytes_toBytes ts, hhead, Timestamp.ofBytes_toBytes]
    apply h
    rw [hts, ← hsame, List.getElem?_set_self (by rwa [length_encode])]

/-- A watermark with one byte changed is refused. -/
theorem decode_set_encode (hi : i < size) (h : (encode ts)[i]? ≠ some b) :
    decode ((encode ts).set i b) = .error (.corruptWatermark .checksum) :=
  decode_of_ne_encode (by rw [List.length_set, length_encode]) (set_encode_ne hi h)

/-! ## Histories -/

/-- What a watermark file goes through, with the watermark that was stored last. Another program may
put anything at the temporary path, such as a directory or what a crash left of an unfinished write.
It may also put a directory in the watermark's own place, and put back what it set aside. -/
inductive History : WatermarkFile → Option Node → Option Timestamp → Prop
  | fresh (temp : Node) : History ⟨.missing, temp⟩ none none
  | stored {f f' : WatermarkFile} {aside : Option Node} {last : Option Timestamp} {ts : Timestamp} :
      History f aside last → (store ts).run f = .ok () f' → History f' aside (some ts)
  | refused {f f' : WatermarkFile} {aside : Option Node} {last : Option Timestamp} {ts : Timestamp}
      {e : TimestampError} : History f aside last → (store ts).run f = .error e f' →
      History f' aside last
  | reopened {f f' : WatermarkFile} {aside : Option Node} {last : Option Timestamp}
      {obstructed : Bool} : History f aside last → openAt obstructed f = .ok f' →
      History f' aside last
  | temp {f : WatermarkFile} {aside : Option Node} {last : Option Timestamp} (temp : Node) :
      History f aside last → History { f with temp := temp } aside last
  | displaced {f : WatermarkFile} {last : Option Timestamp} : History f none last →
      History { f with node := .directory } (some f.node) last
  | restored {f : WatermarkFile} {node : Node} {last : Option Timestamp} :
      History f (some node) last → History { f with node := node } none last

variable {f f' : WatermarkFile} {aside : Option Node} {last : Option Timestamp}

/-- What stands where the given watermark was stored. -/
def standing : Option Timestamp → Node
  | none => .missing
  | some ts => .file (encode ts)

/-- The watermark that was stored last stands in its place or has been set aside for a directory. -/
structure Holds (f : WatermarkFile) (aside : Option Node) (last : Option Timestamp) : Prop where
  kept : aside.getD f.node = standing last
  displaced {node : Node} : aside = some node → f.node = .directory

theorem run_store (ts : Timestamp) (f : WatermarkFile) :
    (store ts).run f =
      if f.temp = .directory then .error (.watermarkWrite (.io .isADirectory)) f
      else if f.node = .directory then
        .error (.watermarkWrite (.io .isADirectory)) { f with temp := .file (encode ts) }
      else .ok () ⟨.file (encode ts), .missing⟩ := by
  unfold store
  by_cases htemp : f.temp = .directory
  · simp [htemp]
  · by_cases hnode : f.node = .directory <;> simp [htemp, hnode]

/-- A write that goes through finds no directory in the way. -/
theorem Holds.stored (h : Holds f aside last) (hstore : (store ts).run f = .ok () f') :
    Holds f' aside (some ts) := by
  rw [run_store] at hstore
  by_cases htemp : f.temp = .directory
  · simp [htemp] at hstore
  · by_cases hnode : f.node = .directory
    · simp [htemp, hnode] at hstore
    · rw [if_neg htemp, if_neg hnode] at hstore
      cases hstore
      cases aside with
      | none => exact ⟨rfl, nofun⟩
      | some node => exact absurd (h.displaced rfl) hnode

/-- A write that fails has touched nothing but the temporary file. -/
theorem Holds.refused (h : Holds f aside last) {e : TimestampError}
    (hstore : (store ts).run f = .error e f') : Holds f' aside last := by
  rw [run_store] at hstore
  by_cases htemp : f.temp = .directory
  · rw [if_pos htemp] at hstore
    cases hstore
    exact h
  · by_cases hnode : f.node = .directory
    · rw [if_neg htemp, if_pos hnode] at hstore
      cases hstore
      exact ⟨h.kept, h.displaced⟩
    · simp [htemp, hnode] at hstore

theorem History.holds (h : History f aside last) : Holds f aside last := by
  induction h with
  | fresh temp => exact ⟨rfl, nofun⟩
  | stored _ hstore ih => exact ih.stored hstore
  | refused _ hstore ih => exact ih.refused hstore
  | @reopened _ _ _ _ obstructed _ hopen ih =>
    cases obstructed with
    | true => cases hopen
    | false =>
      cases hopen
      exact ih
  | temp _ _ ih => exact ⟨ih.kept, ih.displaced⟩
  | displaced _ ih => exact ⟨ih.kept, fun _ => rfl⟩
  | restored _ ih => exact ⟨ih.kept, nofun⟩

theorem load_of_standing (h : f.node = standing last) : load f = .ok last := by
  unfold load
  rw [h]
  cases last with
  | none => rfl
  | some ts => simp [standing, decode_encode, Except.map]

/-- After any history the watermark that was stored last is loaded, or none if there is a directory
in its place. A file in which one byte of a watermark was changed, or that has another length, is
refused. -/
theorem watermark_file_is_never_wrong (h : History f aside last) :
    (aside = none → load f = .ok last) ∧
    (∀ node, aside = some node → load f = .error (.watermarkRead (.io .isADirectory))) ∧
    (∀ ts, aside = none → last = some ts → f.node = .file (encode ts)) ∧
    (∀ ts i b, i < size → (encode ts)[i]? ≠ some b →
      load { f with node := .file ((encode ts).set i b) } = .error (.corruptWatermark .checksum)) ∧
    ∀ content, content.length ≠ size → load { f with node := .file content } =
      .error (.corruptWatermark (.length size content.length)) := by
  rcases h.holds with ⟨hkept, hdisplaced⟩
  refine ⟨?loaded, ?hidden, ?stands, ?changed, ?cut⟩
  case loaded =>
    rintro rfl
    exact load_of_standing hkept
  case hidden =>
    intro node haside
    unfold load
    rw [hdisplaced haside]
  case stands =>
    rintro ts rfl rfl
    exact hkept
  case changed =>
    intro ts i b hi hb
    show (decode ((encode ts).set i b)).map some = _
    rw [decode_set_encode hi hb]
    rfl
  case cut =>
    intro content hlength
    show (decode content).map some = _
    rw [decode, if_neg hlength]
    rfl

/-- The first write finds a directory at the temporary path and the third one in the watermark's own
place; the second goes through. It is what is loaded in the end, unless its fourth byte changes. -/
theorem watermark_file_is_never_wrong_obstructed :
    let f : WatermarkFile := ⟨.file (encode ⟨7⟩), .file (encode ⟨9⟩)⟩
    History f none (some ⟨7⟩) ∧ load f = .ok (some ⟨7⟩) ∧
      load { f with node := .file ((encode ⟨7⟩).set 3 0xFF) } =
        .error (.corruptWatermark .checksum) := by
  have hfirst : (store ⟨5⟩).run ⟨.missing, .directory⟩ =
      .error (.watermarkWrite (.io .isADirectory)) ⟨.missing, .directory⟩ := rfl
  have hsecond : (store ⟨7⟩).run ⟨.missing, .missing⟩ =
      .ok () ⟨.file (encode ⟨7⟩), .missing⟩ := rfl
  have hthird : (store ⟨9⟩).run ⟨.directory, .missing⟩ =
      .error (.watermarkWrite (.io .isADirectory)) ⟨.directory, .file (encode ⟨9⟩)⟩ := rfl
  have hstored : History ⟨.file (encode ⟨7⟩), .missing⟩ none (some ⟨7⟩) :=
    .stored (.temp .missing (.refused (.fresh .directory) hfirst)) hsecond
  have h : History ⟨.file (encode ⟨7⟩), .file (encode ⟨9⟩)⟩ none (some ⟨7⟩) :=
    .restored (.refused (.displaced hstored) hthird)
  rcases watermark_file_is_never_wrong h with ⟨hloaded, _, _, hchanged, _⟩
  exact ⟨h, hloaded rfl, hchanged ⟨7⟩ 3 0xFF (by decide) (by decide)⟩

end WatermarkFile

end SnapshotIsolation
