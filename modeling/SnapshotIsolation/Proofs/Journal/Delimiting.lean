import SnapshotIsolation.Proofs.Journal.Entries
import SnapshotIsolation.Proofs.Journal.Frames

/-!
# Where an entry ends

The bytes of an entry tell where they end. So an entry is read back whatever follows it, and where
its end is missing the input runs out.

Main results:

- Theorem {lit}`Journal.Entry.decode_of_short`: an entry whose end is missing is refused for that.
- Theorem {lit}`Journal.Entry.encodings_delimit_themselves`: reading back, cutting short, and no
  encoding at the start of another.
-/

namespace SnapshotIsolation

namespace Journal

open Reader (steadfast_pure steadfast_throw)

theorem Event.steadfast_read : Event.read.Steadfast := by
  apply (Wire.steadfast_number (by decide)).bind
  intro n
  split
  · exact (Wire.steadfast_list Timestamp.steadfast_read).bind fun ancestors =>
      Isolation.steadfast_read.bind fun isolation => steadfast_pure (Event.began ancestors isolation)
  · exact Timestamp.steadfast_read.bind fun ts => steadfast_pure (Event.settled (.commit ts))
  · exact steadfast_pure _
  · exact steadfast_pure _
  · exact steadfast_throw _

namespace Entry

variable {e : Entry}

theorem steadfast_read : Entry.read.Steadfast :=
  Wire.steadfast_word.bind fun lsn => Timestamp.steadfast_read.bind fun txn =>
    Event.steadfast_read.bind fun event => steadfast_pure (Entry.mk lsn txn event)

/-- An entry is read back, whatever follows it. -/
theorem decode_put_append (h : e.Countable) (more : Bytes) : decode (e.put ++ more) = .ok e := by
  have hread := steadfast_read.isLocal _ _ _ (run_read_put h) more
  rw [decode, Wire.ofPrefix, hread]
  rfl

/-- Where the end of an entry is missing, the input runs out. -/
theorem decode_of_short (h : e.Countable) {front back : Bytes} (hsplit : front ++ back = e.put)
    (hback : back ≠ []) : decode front = .error .endOfInput := by
  have hwhole : read.run (front ++ back) = .ok (e, []) := hsplit ▸ run_read_put h
  rw [decode, Wire.ofPrefix, steadfast_read.run_of_short hwhole hback]
  rfl

/-- An entry whose ancestors can be counted in a word is read back, whatever follows its bytes, and
wherever they are cut short the input runs out. So two such entries have different bytes, and
neither begins with the bytes of the other. -/
theorem encodings_delimit_themselves (h : e.Countable) :
    (∀ more, decode (e.put ++ more) = .ok e) ∧
      (∀ front back, front ++ back = e.put → back ≠ [] → decode front = .error .endOfInput) ∧
      ∀ other : Entry, other.Countable → other ≠ e → other.put ≠ e.put ∧ ¬ e.put <+: other.put := by
  refine ⟨decode_put_append h, fun front back hsplit => decode_of_short h hsplit, ?_⟩
  intro other hother hne
  have hapart : ¬ e.put <+: other.put := by
    rintro ⟨more, hmore⟩
    have hread := decode_put_append h more
    rw [hmore, ← List.append_nil other.put, decode_put_append hother] at hread
    exact hne (Except.ok.inj hread)
  exact ⟨fun hsame => hapart (hsame ▸ List.prefix_rfl), hapart⟩

/-- The greatest number, and below it ancestors on both sides of where their digits grow by one. -/
def atBoundaries : Entry :=
  ⟨0xFFFFFFFFFFFFFFFF, ⟨0x7FFFFFFFFFFFFFFF⟩, .began [⟨16384⟩, ⟨16383⟩, ⟨128⟩, ⟨127⟩] .readUncommitted⟩

theorem encodings_delimit_themselves_atBoundaries :
    atBoundaries.Countable ∧
      atBoundaries.put = List.replicate 9 0xFF ++ [0x01] ++ List.replicate 8 0xFF ++ [0x7F] ++
        [0, 4, 0x80, 0x80, 1, 0xFF, 0x7F, 0x80, 1, 0x7F, 2] ∧
      decode (atBoundaries.put ++ [0]) = .ok atBoundaries ∧
      decode (atBoundaries.put.take 29) = .error .endOfInput ∧
      decode (atBoundaries.put.take 24) = .error .endOfInput ∧
      ¬ atBoundaries.put <+:
        (⟨0xFFFFFFFFFFFFFFFF, ⟨0x7FFFFFFFFFFFFFFF⟩, .settled .rollback⟩ : Entry).put := by
  have hcountable : atBoundaries.Countable := by
    rintro _ _ ⟨⟩
    decide
  have hsettled : Countable ⟨0xFFFFFFFFFFFFFFFF, ⟨0x7FFFFFFFFFFFFFFF⟩, .settled .rollback⟩ := by
    rintro _ _ ⟨⟩
  rcases encodings_delimit_themselves hcountable with ⟨hread, hshort, hapart⟩
  refine ⟨hcountable, by decide, hread [0], ?_, ?_, ?_⟩
  · exact hshort _ (atBoundaries.put.drop 29) (List.take_append_drop ..) (by decide)
  · exact hshort _ (atBoundaries.put.drop 24) (List.take_append_drop ..) (by decide)
  · exact (hapart _ hsettled (by decide)).2

end Entry

end Journal

end SnapshotIsolation
