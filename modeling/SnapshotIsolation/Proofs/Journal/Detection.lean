import SnapshotIsolation.Proofs.Checksum
import SnapshotIsolation.Proofs.Journal.Damage

/-!
# Damage that the checksum notices

Behind the length of a frame stand its checksum and the payload that the checksum guards. When one
byte of these changes, the length still tells where the next frame begins, and the checksum is no
longer that of the payload. So the frame is refused, and every other frame is found as it was.

Main results:

- Theorem {lit}`Journal.Frame.entry_damaged`: a frame with a changed byte holds no entry.
- Theorem {lit}`Journal.single_damage_is_noticed`: opening a file with a changed byte, and iterating
  over it.
-/

namespace SnapshotIsolation

namespace Journal

variable {j : Journal} {before after : List Entry} {e : Entry} {i : Nat} {mask : UInt8}

namespace Frame

/-- A frame with bits of one byte flipped, the byte counted from the checksum on. -/
def damaged (f : Frame) (i : Nat) (mask : UInt8) : Frame :=
  if i < 4 then
    { f with
      checksum := .ofNat
        (Bytes.natLE ((Bytes.littleEndian 4 f.checksum.toNat).modify i (· ^^^ mask))) }
  else { f with payload := f.payload.modify (i - 4) (· ^^^ mask) }

@[simp]
theorem length_payload_damaged (f : Frame) (i : Nat) (mask : UInt8) :
    (f.damaged i mask).payload.length = f.payload.length := by
  unfold damaged
  split <;> simp

/-- The number that four bytes make is that of a checksum. -/
theorem toNat_ofNat_natLE {bytes : Bytes} (h : bytes.length = 4) :
    (UInt32.ofNat (Bytes.natLE bytes)).toNat = Bytes.natLE bytes := by
  have hbound : Bytes.natLE bytes < UInt32.size := by
    have hlt := Bytes.natLE_lt bytes
    rwa [h] at hlt
  rw [UInt32.toNat_ofNat', Nat.mod_eq_of_lt hbound]

/-- Changing a byte behind the length of a frame makes the damaged frame of it. -/
theorem modify_encode {f : Frame} (hi : i < 4 + f.payload.length) (mask : UInt8)
    (first last : Bytes) :
    (first ++ (f.encode ++ last)).modify (first.length + 4 + i) (· ^^^ mask) =
      first ++ ((f.damaged i mask).encode ++ last) := by
  have hlength : (first ++ Bytes.littleEndian 4 f.payload.length).length = first.length + 4 := by
    simp
  unfold encode damaged
  by_cases hchecksum : i < 4
  · have hinside : i < (Bytes.littleEndian 4 f.checksum.toNat).length := by simpa using hchecksum
    have hwidth : ((Bytes.littleEndian 4 f.checksum.toNat).modify i (· ^^^ mask)).length = 4 := by
      simp
    have hwritten := Bytes.littleEndian_natLE
      ((Bytes.littleEndian 4 f.checksum.toNat).modify i (· ^^^ mask))
    rw [hwidth] at hwritten
    have hmiddle := @modify_middle _ (first ++ Bytes.littleEndian 4 f.payload.length) _
      (f.payload ++ last) hinside (· ^^^ mask)
    rw [hlength] at hmiddle
    simp only [if_pos hchecksum, toNat_ofNat_natLE hwidth, hwritten]
    simpa using hmiddle
  · have hinside : i - 4 < f.payload.length := by omega
    have hmiddle := @modify_middle _ (first ++ Bytes.littleEndian 4 f.payload.length ++
      Bytes.littleEndian 4 f.checksum.toNat) _ last hinside (· ^^^ mask)
    have hplace : first.length + 4 + 4 + (i - 4) = first.length + 4 + i := by omega
    rw [List.length_append, hlength, Bytes.length_littleEndian, hplace] at hmiddle
    simp only [if_neg hchecksum, List.length_modify]
    simpa using hmiddle

/-- A frame with a changed byte does not have the checksum of its payload. -/
theorem entry_damaged {f : Frame} (h : Checksum.crc32 f.payload = f.checksum)
    (hi : i < 4 + f.payload.length) (hmask : mask ≠ 0) :
    (f.damaged i mask).entry = .error .checksumMismatch := by
  unfold damaged
  split
  · rename_i hchecksum
    apply if_neg
    intro hsame
    apply natLE_modify_ne hchecksum hmask f.checksum.toNat
    rw [← toNat_ofNat_natLE (by simp)]
    exact congrArg UInt32.toNat (hsame.symm.trans h)
  · have hinside : i - 4 < f.payload.length := by omega
    apply if_neg
    intro hsame
    exact Checksum.crc32_modify_ne hinside (xor_ne_self hmask _) (hsame.trans h.symm)

end Frame

/-- Flipping bits of a byte behind the length of an entry damages its frame and nothing else. -/
theorem flip_image_behind_length (before : List Entry) (after : List Entry)
    (hi : i < 4 + e.put.length) (mask : UInt8) :
    (Node.file (image (before ++ e :: after))).flip ((image before).length + 4 + i) mask =
      .file (image before ++ (((Frame.ofEntry e).damaged i mask).encode ++ image after)) := by
  have himage : image (before ++ e :: after) =
      image before ++ ((Frame.ofEntry e).encode ++ image after) := by simp [image]
  rw [Node.flip, himage, Frame.modify_encode (f := Frame.ofEntry e) hi]

/-- Iterating finds the other entries where one frame is refused. -/
theorem items_scan_of_entry_error {f : Frame} {cause : JournalError}
    (hbefore : ∀ a ∈ before, a.Fits) (hafter : ∀ a ∈ after, a.Fits)
    (hf : f.payload.length < UInt32.size) (hentry : f.entry = .error cause) :
    (scan (image before ++ (f.encode ++ image after))).items =
      before.map .ok ++ .error cause :: after.map .ok := by
  have hfound : ∀ {entries : List Entry}, (∀ a ∈ entries, a.Fits) →
      (entries.map Frame.ofEntry).map Frame.entry = entries.map .ok := by
    intro entries hfits
    rw [List.map_map]
    exact List.map_congr_left fun a ha => Frame.entry_ofEntry (hfits a ha)
  rw [scan_image_append hbefore, scan_of_split_some (Frame.split_encode_append hf _),
    scan_image hafter]
  simp [Scan.items, hfound hbefore, hfound hafter, hentry]

/-- Whichever byte of the checksum or the payload of a recorded entry changes, opening the file is
refused because of the checksum and leaves the file as it is. A journal that was open before the
change finds the fault in the place of that entry, and all other entries. -/
theorem single_damage_is_noticed (h : Logged j (before ++ e :: after)) (i : Nat) (mask : UInt8)
    (hi : i < 4 + e.put.length) (hmask : mask ≠ 0) :
    let damage := Node.flip ((image before).length + 4 + i) mask
    openAt.run ⟨false, damage j.node⟩ = .error .checksumMismatch ⟨false, damage j.node⟩ ∧
      (j.edit damage).items.1 = before.map .ok ++ .error .checksumMismatch :: after.map .ok := by
  intro damage
  rcases h.eq_holding with ⟨rfl, hlegible⟩
  have hbefore : ∀ a ∈ before, a.Fits := fun a ha => hlegible.fits (List.mem_append_left _ ha)
  have hafter : ∀ a ∈ after, a.Fits :=
    fun a ha => hlegible.fits (List.mem_append_right _ (List.mem_cons_of_mem _ ha))
  have hfits : e.Fits := hlegible.fits (List.mem_append_right _ List.mem_cons_self)
  have hlength : ((Frame.ofEntry e).damaged i mask).payload.length < UInt32.size := by
    rw [Frame.length_payload_damaged]
    exact hfits
  have hentry : ((Frame.ofEntry e).damaged i mask).entry = .error .checksumMismatch :=
    Frame.entry_damaged rfl hi hmask
  have hfile : damage (.file (image (before ++ e :: after))) = _ :=
    flip_image_behind_length before after hi mask
  refine ⟨?_, ?_⟩
  · show openAt.run ⟨false, damage (.file (image (before ++ e :: after)))⟩ =
      .error _ ⟨false, damage (.file (image (before ++ e :: after)))⟩
    rw [hfile]
    exact run_openAt_of_entry_error hbefore (Frame.split_encode_append hlength _) hentry
  · have hedit : (holding (before ++ e :: after)).edit damage = { holding (before ++ e :: after) with
        content := image before ++ (((Frame.ofEntry e).damaged i mask).encode ++ image after) } := by
      simp only [edit, node, holding, Option.getD_none, hfile]
    rw [hedit]
    exact items_scan_of_entry_error hbefore hafter hlength hentry

/-- A byte of the first entry's checksum changes, or the last byte of the second entry. -/
theorem single_damage_is_noticed_beganAndCommitted :
    openAt.run ⟨false, beganAndCommitted.node.flip 5 0x80⟩ =
        .error .checksumMismatch ⟨false, beganAndCommitted.node.flip 5 0x80⟩ ∧
      (beganAndCommitted.edit (Node.flip 24 1)).items.1 =
        [.ok ⟨0, ⟨1⟩, .began [] .snapshot⟩, .error .checksumMismatch] := by
  have hfirst : Logged beganAndCommitted ([] ++ _ :: [_]) := logged_beganAndCommitted
  have hsecond : Logged beganAndCommitted ([_] ++ _ :: []) := logged_beganAndCommitted
  exact ⟨(single_damage_is_noticed hfirst 1 0x80 (by decide) (by decide)).1,
    (single_damage_is_noticed hsecond 7 1 (by decide) (by decide)).2⟩

end Journal

end SnapshotIsolation
