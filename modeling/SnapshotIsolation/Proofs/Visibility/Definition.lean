import Mathlib.Data.List.Sort
import SnapshotIsolation.Proofs.Registry.Reached
import SnapshotIsolation.Proofs.Visibility.Newest

/-!
# Row reads and their definition

What a reader is to find of a row can be told in one sentence about its cells: of each column the
newest version whose writer it sees and that is not older than the newest tombstone whose writer it
sees. A row read finds just that, in whatever order the cells are given, although it looks at each
cell in passing, asks for no writer of a version that is superseded already, and judges later
writers with what it looked up for earlier ones.

Main results:

- Theorem {lit}`Reading.newestDeletion_eq`: the first walk finds the newest deletion.
- Theorem {lit}`Reading.mem_visibleRow_iff_current`: which cells the two walks leave.
- Theorem {lit}`Reading.readRow_meets_definition`: what a row read answers.
-/

namespace SnapshotIsolation

open Registry (Table Coherent Reached)

namespace Reading

variable {α β : Type} {t : Table} {seen : Timestamp → Bool} {row row' : List Cell} {c : Cell}

/-! ## The definition -/

/-- Cells of one row, no two of them at the same place. -/
structure OneRow (row : List Cell) : Prop where
  same : ∀ a ∈ row, ∀ b ∈ row, a.row = b.row
  distinct : (row.map Cell.key).Nodup

/-- The time of the newest tombstone that is seen, if there is one. -/
def newestDeletion (seen : Timestamp → Bool) (row : List Cell) : Option Timestamp :=
  ((row.filter fun c => c.kind = .tombstone ∧ seen c.timestamp).map (·.timestamp)).max?

/-- The cell is a version that is seen and not older than the newest deletion. -/
structure Standing (seen : Timestamp → Bool) (row : List Cell) (c : Cell) : Prop where
  isVersion : c.kind = .userData
  isSeen : seen c.timestamp = true
  isKept : ∀ D ∈ newestDeletion seen row, ¬ c.timestamp < D

/-- The cell is one of the row that stands, and no newer one of its column does. -/
structure Current (seen : Timestamp → Bool) (row : List Cell) (c : Cell) : Prop where
  mem : c ∈ row
  standing : Standing seen row c
  newest : ∀ d ∈ row, d.column = c.column → Standing seen row d → ¬ c.timestamp < d.timestamp

/-- Whether a reader sees what a transaction wrote in a row, asked with the row's marker of it and
nothing looked up before. -/
def seesWriter (r : Registry) (reader : Handle) (row : List Cell) (writer : Timestamp) : Bool :=
  match Step.answer (isWriterVisible writer (markerOf row writer) reader.snapshot reader)
    ⟨r, .empty⟩ with
  | .ok visible => visible
  | .error _ => false

/-! ## What the walks leave -/

theorem foldl_deletionAfter (deletedAt : Option Timestamp) :
    row.foldl (deletionAfter seen) deletedAt =
      (deletedAt.toList ++ (row.filter fun c => c.kind = .tombstone ∧ seen c.timestamp).map
        (·.timestamp)).max? := by
  induction row generalizing deletedAt with
  | nil => cases deletedAt <;> rfl
  | cons c row ih =>
    rw [List.foldl_cons, ih, deletionAfter]
    by_cases hdeletes : c.kind = .tombstone ∧ seen c.timestamp = true
    · rw [if_pos hdeletes, List.filter_cons_of_pos (by simpa using hdeletes), List.map_cons]
      cases deletedAt <;> rfl
    · rw [if_neg hdeletes, List.filter_cons_of_neg (by simpa using hdeletes)]

/-- The first walk finds the newest deletion. -/
theorem newestDeletion_eq (seen : Timestamp → Bool) (row : List Cell) :
    row.foldl (deletionAfter seen) none = newestDeletion seen row :=
  foldl_deletionAfter none

theorem standing_iff_survives :
    Standing seen row c ↔ Survives seen (newestDeletion seen row) c := by
  have hkept : (newestDeletion seen row).any (c.timestamp < ·) = false ↔
      ∀ D ∈ newestDeletion seen row, ¬ c.timestamp < D := by
    cases newestDeletion seen row <;> simp
  rw [Survives, hkept]
  exact ⟨fun h => ⟨h.isVersion, h.isSeen, h.isKept⟩, fun h => ⟨h.1, h.2.1, h.2.2⟩⟩

theorem OneRow.eq_of_column {a b : Cell} (h : OneRow row) (ha : a ∈ row) (hb : b ∈ row)
    (hcolumn : a.column = b.column) (htimestamp : a.timestamp = b.timestamp) : a = b := by
  apply List.inj_on_of_nodup_map h.distinct ha hb
  rw [Cell.column, Cell.column, Column.mk.injEq] at hcolumn
  rw [Cell.key, Cell.key, h.same a ha b hb, hcolumn.1, hcolumn.2, htimestamp]

/-- The walks leave the current cells of a row. -/
theorem mem_visibleRow_iff_current (h : OneRow row) :
    c ∈ visibleRow seen row ↔ Current seen row c := by
  have hnewest := newest_foldl seen (row.foldl (deletionAfter seen) none) row
  rw [mem_visibleRow_iff_get?]
  rw [newestDeletion_eq] at hnewest ⊢
  constructor
  · intro hfound
    rcases hnewest.among hfound with ⟨hmem, hsurvives, _⟩
    refine ⟨hmem, standing_iff_survives.2 hsurvives, ?_⟩
    intro d hd hcolumn hstanding
    rcases hnewest.covers hd (standing_iff_survives.1 hstanding) with ⟨newest, hheld, hle⟩
    rw [hcolumn, hfound, Option.some.injEq] at hheld
    exact not_lt_of_ge (hheld ▸ hle)
  · rintro ⟨hmem, hstanding, hfree⟩
    rcases hnewest.covers hmem (standing_iff_survives.1 hstanding) with ⟨newest, hheld, hle⟩
    rcases hnewest.among hheld with ⟨hmemN, hsurvivesN, hcolumn⟩
    have hge : newest.timestamp ≤ c.timestamp :=
      le_of_not_gt (hfree newest hmemN hcolumn (standing_iff_survives.2 hsurvivesN))
    rw [hheld, h.eq_of_column hmemN hmem hcolumn (le_antisymm hge hle)]

/-! ## The order of the cells -/

theorem current_perm (h : row'.Perm row) : Current seen row' c ↔ Current seen row c := by
  have hstanding : ∀ x, Standing seen row' x ↔ Standing seen row x := by
    intro x
    rw [standing_iff_survives, standing_iff_survives, ← newestDeletion_eq, ← newestDeletion_eq,
      survives_iff, survives_iff]
    simp only [h.mem_iff]
  constructor
  · rintro ⟨hmem, hstands, hnewest⟩
    exact ⟨h.mem_iff.1 hmem, (hstanding c).1 hstands, fun d hd hcolumn hd' =>
      hnewest d (h.mem_iff.2 hd) hcolumn ((hstanding d).2 hd')⟩
  · rintro ⟨hmem, hstands, hnewest⟩
    exact ⟨h.mem_iff.2 hmem, (hstanding c).2 hstands, fun d hd hcolumn hd' =>
      hnewest d (h.mem_iff.1 hd) hcolumn ((hstanding d).1 hd')⟩

/-- Strictly ascending rows with the same cells are the same. -/
theorem eq_of_ascending {cells cells' : List Cell}
    (h : cells.Pairwise fun a b => compare a.column b.column = .lt)
    (h' : cells'.Pairwise fun a b => compare a.column b.column = .lt)
    (hsame : ∀ c, c ∈ cells' ↔ c ∈ cells) : cells' = cells := by
  have : Std.Irrefl fun a b : Cell => compare a.column b.column = .lt :=
    ⟨fun a => by simp⟩
  have : Std.Antisymm fun a b : Cell => compare a.column b.column = .lt :=
    ⟨fun a b hab hba => absurd hba (Std.OrientedCmp.not_lt_of_lt hab)⟩
  exact h'.eq_of_mem_iff h hsame

theorem OneRow.perm (h : OneRow row) (hperm : row'.Perm row) : OneRow row' := by
  constructor
  · intro a ha b hb
    exact h.same a (hperm.mem_iff.1 ha) b (hperm.mem_iff.1 hb)
  · exact (hperm.map _).nodup_iff.2 h.distinct

theorem column_of_commitMarker (h : c.kind = .commitMarker) :
    c.column = ⟨Cell.statusFamily, Cell.markerQualifier⟩ := by
  rw [Cell.kind_eq_commitMarker_iff, Cell.classify] at h
  split at h
  · rename_i hfamily
    split at h
    · rename_i hqualifier
      rw [Cell.column, hfamily, hqualifier]
    · split at h <;> cases h
  · cases h

/-- A writer has at most one marker in a row, so it does not matter which is the last. -/
theorem markerOf_perm (h : OneRow row) (hperm : row'.Perm row) (writer : Timestamp) :
    markerOf row' writer = markerOf row writer := by
  let own := fun c : Cell => decide (c.kind = .commitMarker ∧ c.timestamp = writer)
  have hown : (row.filter own).Pairwise fun _ _ => False := by
    apply (List.pairwise_map.1 h.distinct).filter own |>.imp_of_mem
    intro a b ha hb hne
    simp only [own, List.mem_filter, decide_eq_true_eq] at ha hb
    have hcolumn := (column_of_commitMarker ha.2.1).trans (column_of_commitMarker hb.2.1).symm
    have htimestamp := ha.2.2.trans hb.2.2.symm
    exact hne (congrArg Cell.key (h.eq_of_column ha.1 hb.1 hcolumn htimestamp))
  have hsame : row'.filter own = row.filter own :=
    (hperm.filter own).eq_of_pairwise (fun _ _ _ _ hab _ => hab.elim)
      ((hperm.filter own).symm.pairwise hown id) hown
  unfold markerOf
  rw [hsame]

/-! ## What a row read answers -/

/-- Over a table the reading answers nothing but the value; it may fail. -/
def Yields (t : Table) (act : Reading α) (a : α) : Prop :=
  ∃ result, Answers t act result ∧ ∀ b, result = .ok b → b = a

theorem composes_yields : Composes fun act a => Yields t act a := by
  constructor
  · intro γ c
    exact ⟨.ok c, answers_pure c, fun _ hok => (Except.ok.inj hok).symm⟩
  · rintro γ δ act next c d ⟨result, hact, honly⟩ ⟨result', hnext, honly'⟩
    cases result with
    | error e => exact ⟨.error e, hact.bind_error, nofun⟩
    | ok b =>
      rw [honly b rfl] at hact
      exact ⟨result', hact.bind hnext, honly'⟩

/-- What a reading answers in a state that is faithful to the table. -/
theorem Answers.answer {act : Reading α} {result : Except StorageError α} {s : ReadState}
    (h : Answers t act result) (hs : s.Faithful t) : Step.answer act s = result := by
  rcases h s hs with ⟨s', _, _, hrun⟩
  exact Step.answer_of_run hrun

/-- No look-up fails when the reader is asked for the writers of the row's tombstones and
versions. -/
def Recorded (r : Registry) (reader : Handle) (row : List Cell) : Prop :=
  ∀ c ∈ row, c.kind = .tombstone ∨ c.kind = .userData → ∃ visible,
    Step.answer (isWriterVisible c.timestamp (markerOf row c.timestamp) reader.snapshot reader)
      ⟨r, .empty⟩ = .ok visible

variable {r : Registry}

theorem yields_isWriterVisible (h : Coherent r) (reader : Handle) (row : List Cell)
    (writer : Timestamp) :
    Yields r.table (isWriterVisible writer (markerOf row writer) reader.snapshot reader)
      (seesWriter r reader row writer) := by
  rcases determined_isWriterVisible writer (markerOf row writer) reader.snapshot reader with
    ⟨result, hresult⟩
  refine ⟨result, hresult, ?_⟩
  rintro visible rfl
  rw [seesWriter, hresult.answer (ReadState.faithful_empty h)]

theorem Recorded.answers {reader : Handle} (hrecorded : Recorded r reader row) (h : Coherent r)
    (hc : c ∈ row) (hkind : c.kind = .tombstone ∨ c.kind = .userData) :
    Answers r.table (isWriterVisible c.timestamp (markerOf row c.timestamp) reader.snapshot reader)
      (.ok (seesWriter r reader row c.timestamp)) := by
  rcases yields_isWriterVisible h reader row c.timestamp with ⟨result, hresult, honly⟩
  rcases hrecorded c hc hkind with ⟨visible, hvisible⟩
  rw [hresult.answer (ReadState.faithful_empty h)] at hvisible
  rwa [← honly visible hvisible, ← hvisible]

/-- Cells of one row whose markers decode are read as the definition says, in whatever order they
are given: what is read is in the order of columns, with at most one cell of each, and consists of
the current cells. Where no look-up fails the read answers, and where it answers nothing else is
read. -/
theorem readRow_meets_definition (h : Reached r) (reader : Handle) (hrow : OneRow row)
    (hmarkers : ∀ c ∈ row, c.kind = .commitMarker → ∃ m, Marker.decode c.value = .ok m) :
    ∃ shown : List Cell, shown.Pairwise (fun a b => compare a.column b.column = .lt) ∧
      (∀ c, c ∈ shown ↔ Current (seesWriter r reader row) row c) ∧
      ∀ row', row'.Perm row →
        (Recorded r reader row → Step.answer (readRow row' reader) ⟨r, .empty⟩ = .ok shown) ∧
        ∀ cells, Step.answer (readRow row' reader) ⟨r, .empty⟩ = .ok cells → cells = shown := by
  have hfaithful := ReadState.faithful_empty h.coherent
  refine ⟨visibleRow (seesWriter r reader row) row, visibleRow_ascending _ _,
    fun c => mem_visibleRow_iff_current hrow, ?_⟩
  intro row' hperm
  have hsame : visibleRow (seesWriter r reader row) row' =
      visibleRow (seesWriter r reader row) row := by
    apply eq_of_ascending (visibleRow_ascending ..) (visibleRow_ascending ..)
    intro c
    rw [mem_visibleRow_iff_current hrow, mem_visibleRow_iff_current (hrow.perm hperm),
      current_perm hperm]
  rcases exists_markers fun c hc => hmarkers c (hperm.mem_iff.1 hc) with ⟨found, hfound, _⟩
  have hfound' : ∀ writer, found.get? writer = markerOf row writer := fun writer =>
    (get?_markers hfound writer).trans (markerOf_perm hrow hperm writer)
  rw [← hsame]
  constructor
  · intro hrecorded
    have hread : Answers r.table (readRow row' reader)
        (.ok (visibleRow (seesWriter r reader row) row')) := by
      apply composes_answers.readRow hfound
      intro c hc hkind
      rw [hfound']
      exact hrecorded.answers h.coherent (hperm.mem_iff.1 hc) hkind
    exact hread.answer hfaithful
  · intro cells hcells
    have hread : Yields r.table (readRow row' reader)
        (visibleRow (seesWriter r reader row) row') := by
      apply composes_yields.readRow hfound
      intro c _ _
      rw [hfound']
      exact yields_isWriterVisible h.coherent reader row c.timestamp
    rcases hread with ⟨result, hresult, honly⟩
    rw [hresult.answer hfaithful] at hcells
    exact honly cells hcells

/-- Two transactions commit, and a third one is active. -/
def twoCommitted : Registry := Registry.enact
  [.start ⟨1⟩ none .snapshot, .settle ⟨1⟩ (.commit ⟨2⟩), .start ⟨3⟩ none .snapshot,
    .settle ⟨3⟩ (.commit ⟨4⟩), .start ⟨5⟩ none .snapshot]

/-- What the three left in a row, and the tombstone of a transaction that is not recorded: it says
something else, so that nobody asks for its writer. -/
def mixedRow : List Cell :=
  [.data [114] [97] ⟨1⟩ [49], .data [114] [97] ⟨5⟩ [53], .data [114] [97] ⟨3⟩ [51],
    .data [114] [98] ⟨1⟩ [49], .unresolvedMarker [114] ⟨1⟩,
    (Cell.unresolvedMarker [114] ⟨3⟩).withValue (Marker.committed ⟨4⟩).encode,
    .tombstone [114] ⟨5⟩, .antiTombstone [114] ⟨3⟩, (Cell.tombstone [114] ⟨7⟩).withValue [1]]

/-- A reader that began after both commits finds the newer version of the one column and the only
one of the other. -/
theorem readRow_meets_definition_mixedRow :
    Reached twoCommitted ∧ OneRow mixedRow ∧
      (∀ c ∈ mixedRow, c.kind = .commitMarker → ∃ m, Marker.decode c.value = .ok m) ∧
      Step.answer (readRow mixedRow.reverse ⟨⟨6⟩, [], .snapshot⟩) ⟨twoCommitted, .empty⟩ =
        .ok [.data [114] [97] ⟨3⟩ [51], .data [114] [98] ⟨1⟩ [49]] := by
  have hreached : Reached twoCommitted := Registry.reached_enact _
  have hrow : OneRow mixedRow := ⟨by decide, by decide⟩
  have hmarkers : ∀ c ∈ mixedRow, c.kind = .commitMarker → ∃ m, Marker.decode c.value = .ok m := by
    have hdecode : ∀ c ∈ mixedRow, c.kind = .commitMarker →
        Marker.decode c.value = .ok .unresolved ∨ Marker.decode c.value = .ok (.committed ⟨4⟩) := by
      decide
    intro c hc hkind
    exact (hdecode c hc hkind).elim (fun h => ⟨_, h⟩) fun h => ⟨_, h⟩
  have hrecorded : Recorded twoCommitted ⟨⟨6⟩, [], .snapshot⟩ mixedRow := by
    have hasked : ∀ c ∈ mixedRow, c.kind = .tombstone ∨ c.kind = .userData →
        Step.answer (isWriterVisible c.timestamp (markerOf mixedRow c.timestamp) ⟨6⟩
          ⟨⟨6⟩, [], .snapshot⟩) ⟨twoCommitted, .empty⟩ = .ok (c.timestamp < ⟨5⟩) := by
      decide +kernel
    exact fun c hc hkind => ⟨_, hasked c hc hkind⟩
  rcases readRow_meets_definition hreached ⟨⟨6⟩, [], .snapshot⟩ hrow hmarkers with
    ⟨shown, _, _, hread⟩
  have hasGiven : Step.answer (readRow mixedRow ⟨⟨6⟩, [], .snapshot⟩) ⟨twoCommitted, .empty⟩ =
      .ok [.data [114] [97] ⟨3⟩ [51], .data [114] [98] ⟨1⟩ [49]] := by
    decide +kernel
  rw [(hread _ (.refl _)).2 _ hasGiven]
  exact ⟨hreached, hrow, hmarkers, (hread _ (List.reverse_perm _)).1 hrecorded⟩

end Reading

end SnapshotIsolation
