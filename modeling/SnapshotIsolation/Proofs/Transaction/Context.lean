import SnapshotIsolation.Proofs.Transaction.Codec
import SnapshotIsolation.Proofs.Transaction.Settling
import SnapshotIsolation.Transaction.Context

/-!
# Handles in transit

A context is a handle behind the byte for the format, with nothing after it. Whatever bytes
arrive, either they carry one handle with a chain of ancestors or nothing is made of them.

Main results:

- Theorem {lit}`Context.decode_eq_ok_iff`: which bytes carry which handle.
- Theorem {lit}`Context.decoding_is_exact`: handles survive the transport, contexts that are cut
  short or run on are refused, and every handle that arrives could have been made here.
-/

namespace SnapshotIsolation

namespace Context

variable {bytes : Bytes} {h : Handle}

/-- Bytes carry a handle if they are the byte for the format and the handle in some form, with
nothing after it, and the ancestors of the handle form a chain. -/
theorem decode_eq_ok_iff :
    decode bytes = .ok h ↔
      ∃ payload, bytes = version :: payload ∧ Handle.Written payload h ∧ h.Chained := by
  constructor
  · intro hdecode
    unfold decode at hdecode
    split at hdecode
    · cases hdecode
    · rename_i first payload
      split at hdecode
      · rename_i hversion
        split at hdecode
        · cases hdecode
        · rename_i read rest hread
          rcases (Handle.accepts_read _ _ _).1 hread with ⟨used, rfl, hused⟩
          split at hdecode
          · rename_i hend
            split at hdecode
            · rename_i hmade
              cases hdecode
              rcases Handle.ofChain_eq_ok_iff.1 hmade with ⟨rfl, hchained⟩
              rw [List.isEmpty_iff.1 hend, List.append_nil]
              exact ⟨used, by rw [hversion], hused, hchained⟩
            · cases hdecode
          · cases hdecode
      · cases hdecode
  · rintro ⟨payload, rfl, hwritten, hchained⟩
    have hread : Handle.read.run payload = .ok (h, []) :=
      (Handle.accepts_read _ _ _).2 ⟨payload, (List.append_nil _).symm, hwritten⟩
    have hmade : Handle.ofChain h.id h.ancestors h.isolation = .ok h :=
      Handle.ofChain_eq_ok_iff.2 ⟨rfl, hchained⟩
    simp [decode, hread, hmade]

/-- A handle takes any digits that fit, but not a bit more than a word has. -/
example :
    decode [1, 0xAA, 0x80, 0x00, 0x80, 0x00, 0x81, 0x00] = .ok ⟨⟨42⟩, [], .readCommitted⟩ ∧
    decode ([1] ++ List.replicate 9 0xFF ++ [0x01, 0, 0]) =
      .ok ⟨⟨0xFFFFFFFFFFFFFFFF⟩, [], .snapshot⟩ ∧
    decode ([1] ++ List.replicate 9 0xFF ++ [0x02, 0, 0]) = .error (.unreadable .overlongWord) :=
  ⟨rfl, rfl, rfl⟩

/-- A handle with a chain of ancestors is written in the form in which it is accepted. -/
theorem written_put (hchained : h.Chained) : Handle.Written h.put h := by
  have hread : Handle.read.run (h.put ++ []) = .ok (h, []) :=
    Handle.run_read_put hchained.length_lt []
  rcases (Handle.accepts_read _ _ _).1 hread with ⟨used, hput, hwritten⟩
  rw [List.append_nil, List.append_nil] at hput
  rwa [hput]

theorem decode_encode (hchained : h.Chained) : decode (encode h) = .ok h :=
  decode_eq_ok_iff.2 ⟨h.put, rfl, written_put hchained, hchained⟩

/-- No context begins with another one. -/
theorem eq_nil_of_decode_append {front back : Bytes} {h' : Handle} (hfront : decode front = .ok h)
    (hwhole : decode (front ++ back) = .ok h') : back = [] := by
  rcases decode_eq_ok_iff.1 hfront with ⟨payload, rfl, hwritten, _⟩
  rcases decode_eq_ok_iff.1 hwhole with ⟨payload', hpayload, hwritten', _⟩
  have hsame : payload ++ back = payload' ++ [] := by
    rw [List.append_nil]
    exact (List.cons.inj hpayload).2
  exact (Handle.accepts_read.self_delimiting hwritten hwritten' hsame).2

/-- A handle with a chain of ancestors survives the transport, while whatever is left of its bytes
when some are missing at the end, and whatever they become when more follow, is refused. Bytes
carry a handle exactly if they are the byte one and one handle in any digits that fit, with nothing
after it, whose id and ancestors are not zero and descend strictly. Only such a handle arrives as
could be made here. -/
theorem decoding_is_exact :
    (∀ id ancestors isolation h, Handle.ofChain id ancestors isolation = .ok h →
      decode (encode h) = .ok h ∧
      (∀ front back, front ++ back = encode h → back ≠ [] → ∀ other, decode front ≠ .ok other) ∧
      ∀ more, more ≠ [] → ∀ other, decode (encode h ++ more) ≠ .ok other) ∧
    (∀ bytes h, decode bytes = .ok h ↔
      ∃ payload, bytes = 1 :: payload ∧ Handle.Written payload h ∧ h.Chained) ∧
    ∀ bytes h, decode bytes = .ok h → Handle.ofChain h.id h.ancestors h.isolation = .ok h := by
  refine ⟨?_, fun bytes h => decode_eq_ok_iff, ?_⟩
  · intro id ancestors isolation h hmade
    have hround := decode_encode (Handle.ofChain_eq_ok_iff.1 hmade).2
    refine ⟨hround, ?_, ?_⟩
    · intro front back hsplit hback other hfront
      rw [← hsplit] at hround
      exact hback (eq_nil_of_decode_append hfront hround)
    · intro more hmore other hlonger
      exact hmore (eq_nil_of_decode_append hround hlonger)
  · intro bytes h hdecode
    rcases decode_eq_ok_iff.1 hdecode with ⟨_, _, _, hchained⟩
    exact Handle.ofChain_eq_ok_iff.2 ⟨rfl, hchained⟩

/-- A nested transaction's handle in transit. -/
theorem decoding_is_exact_nested :
    encode ⟨⟨300⟩, [⟨200⟩, ⟨7⟩], .readCommitted⟩ = [1, 0xAC, 2, 2, 0xC8, 1, 7, 1] ∧
    decode [1, 0xAC, 2, 2, 0xC8, 1, 7, 1] = .ok ⟨⟨300⟩, [⟨200⟩, ⟨7⟩], .readCommitted⟩ ∧
    (∀ other, decode [1, 0xAC, 2, 2, 0xC8, 1, 7] ≠ .ok other) ∧
    (∀ other, decode [1, 0xAC, 2, 2, 0xC8, 1, 7, 1, 0] ≠ .ok other) ∧
    Handle.ofChain ⟨300⟩ [⟨200⟩, ⟨7⟩] .readCommitted =
      .ok ⟨⟨300⟩, [⟨200⟩, ⟨7⟩], .readCommitted⟩ := by
  have hmade : Handle.ofChain ⟨300⟩ [⟨200⟩, ⟨7⟩] .readCommitted =
      .ok ⟨⟨300⟩, [⟨200⟩, ⟨7⟩], .readCommitted⟩ := rfl
  have hbytes : encode ⟨⟨300⟩, [⟨200⟩, ⟨7⟩], .readCommitted⟩ = [1, 0xAC, 2, 2, 0xC8, 1, 7, 1] := by
    decide
  rcases decoding_is_exact with ⟨htransport, _, hmakes⟩
  rcases htransport _ _ _ _ hmade with ⟨hround, hcut, hlonger⟩
  rw [hbytes] at hround hcut hlonger
  exact ⟨hbytes, hround, hcut [1, 0xAC, 2, 2, 0xC8, 1, 7] [1] rfl (by simp),
    hlonger [0] (by simp), hmakes _ _ hround⟩

end Context

end SnapshotIsolation
