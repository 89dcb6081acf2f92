import Mathlib.Data.List.Induction
import Mathlib.Order.MinMax
import SnapshotIsolation.Proofs.Visibility.Versions

/-!
# The newest versions

The visible row is found by two walks over the cells of a row, one for the newest deletion and one
for the newest version of each column. What they find has a description without walks: a version
that is seen, which no newer tombstone and no newer version of its column that are seen supersede.

Main results:

- Theorem {lit}`Reading.mem_visibleRow`: which cells are in the visible row.
- Theorem {lit}`Reading.visibleRow_ascending`: the visible row is in the order of columns.
- Theorem {lit}`Reading.mem_visibleRow_row`: which cells of a store are in the visible row.
-/

namespace SnapshotIsolation

/-- Where both are seen, the cell hides another one: it is newer, and it deletes the row or it is a
version of the same column. -/
def Cell.Supersedes (d c : Cell) : Prop :=
  c.timestamp < d.timestamp ∧ (d.kind = .tombstone ∨ d.kind = .userData ∧ d.column = c.column)

namespace Reading

/-- Nothing among the cells that is seen supersedes the cell. -/
def Stands (seen : Timestamp → Bool) (cells : List Cell) (c : Cell) : Prop :=
  ∀ d ∈ cells, seen d.timestamp = true → ¬ d.Supersedes c

variable {seen : Timestamp → Bool} {deletedAt : Option Timestamp} {cells : List Cell} {c : Cell}

theorem stands_congr {cells' : List Cell}
    (h : ∀ d : Cell, d.Supersedes c → (d ∈ cells' ↔ d ∈ cells)) :
    Stands seen cells' c ↔ Stands seen cells c := by
  constructor
  · intro hstands d hd hseen hsupersedes
    exact hstands d ((h d hsupersedes).2 hd) hseen hsupersedes
  · intro hstands d hd hseen hsupersedes
    exact hstands d ((h d hsupersedes).1 hd) hseen hsupersedes

/-! ## The newest deletion -/

theorem any_deletionAfter (deletedAt : Option Timestamp) (c : Cell) (ts : Timestamp) :
    (deletionAfter seen deletedAt c).any (ts < ·) = true ↔ deletedAt.any (ts < ·) = true ∨
      c.kind = .tombstone ∧ seen c.timestamp = true ∧ ts < c.timestamp := by
  unfold deletionAfter
  split
  · rename_i hdeletes
    cases deletedAt with
    | none => simp [hdeletes]
    | some earlier => simp [hdeletes]
  · rename_i hdeletes
    constructor
    · exact .inl
    · rintro (hany | ⟨hkind, hseen, _⟩)
      · exact hany
      · exact absurd ⟨hkind, hseen⟩ hdeletes

theorem any_deletedAt_from (deletedAt : Option Timestamp) (ts : Timestamp) :
    (cells.foldl (deletionAfter seen) deletedAt).any (ts < ·) = true ↔
      deletedAt.any (ts < ·) = true ∨
        ∃ d ∈ cells, d.kind = .tombstone ∧ seen d.timestamp = true ∧ ts < d.timestamp := by
  induction cells generalizing deletedAt with
  | nil => simp
  | cons c cells ih =>
    rw [List.foldl_cons, ih, any_deletionAfter]
    simp [or_assoc]

/-- The newest deletion is later than a time exactly if a tombstone that is seen is. -/
theorem any_deletedAt (ts : Timestamp) :
    (cells.foldl (deletionAfter seen) none).any (ts < ·) = true ↔
      ∃ d ∈ cells, d.kind = .tombstone ∧ seen d.timestamp = true ∧ ts < d.timestamp := by
  rw [any_deletedAt_from]
  simp

/-! ## The newest versions of columns -/

/-- The cell is a version that is seen, and no deletion is newer. -/
def Survives (seen : Timestamp → Bool) (deletedAt : Option Timestamp) (c : Cell) : Prop :=
  c.kind = .userData ∧ seen c.timestamp = true ∧ deletedAt.any (c.timestamp < ·) = false

/-- The columns hold a newest one of the cells with a property for every column that has one. -/
structure Newest (P : Cell → Prop) (cells : List Cell) (columns : SortedMap Column Cell) :
    Prop where
  among {k : Column} {c : Cell} : columns.get? k = some c → c ∈ cells ∧ P c ∧ c.column = k
  covers {c : Cell} : c ∈ cells → P c →
    ∃ newest, columns.get? c.column = some newest ∧ c.timestamp ≤ newest.timestamp

theorem newest_nil (P : Cell → Prop) : Newest P [] .empty :=
  ⟨nofun, nofun⟩

theorem Newest.skip {P : Cell → Prop} {columns : SortedMap Column Cell}
    (h : Newest P cells columns)
    (hskip : P c → ∃ newest, columns.get? c.column = some newest ∧
      c.timestamp ≤ newest.timestamp) : Newest P (cells ++ [c]) columns := by
  constructor
  · intro k x hx
    rcases h.among hx with ⟨hmem, hrest⟩
    exact ⟨List.mem_append_left _ hmem, hrest⟩
  · intro x hx hP
    rcases List.mem_append.1 hx with hx | hx
    · exact h.covers hx hP
    · obtain rfl := List.mem_singleton.1 hx
      exact hskip hP

theorem Newest.insert {P : Cell → Prop} {columns : SortedMap Column Cell}
    (h : Newest P cells columns) (hP : P c)
    (hnewer : ∀ old, columns.get? c.column = some old → old.timestamp < c.timestamp) :
    Newest P (cells ++ [c]) (columns.insert c.column c) := by
  constructor
  · intro k x hx
    rcases SortedMap.eq_or_get?_of_insert hx with ⟨rfl, rfl⟩ | hx
    · exact ⟨List.mem_append_right _ List.mem_cons_self, hP, rfl⟩
    · rcases h.among hx with ⟨hmem, hrest⟩
      exact ⟨List.mem_append_left _ hmem, hrest⟩
  · intro x hx hPx
    by_cases hcolumn : x.column = c.column
    · refine ⟨c, by rw [hcolumn, SortedMap.get?_insert_self], ?_⟩
      rcases List.mem_append.1 hx with hx | hx
      · rcases h.covers hx hPx with ⟨old, hold, hle⟩
        rw [hcolumn] at hold
        exact le_trans hle (le_of_lt (hnewer old hold))
      · obtain rfl := List.mem_singleton.1 hx
        exact le_refl _
    · rcases List.mem_append.1 hx with hx | hx
      · rw [SortedMap.get?_insert_of_ne _ _ hcolumn]
        exact h.covers hx hPx
      · exact absurd (congrArg Cell.column (List.mem_singleton.1 hx)) hcolumn

/-- The walk keeps the newest surviving versions of what it has looked at, by induction from the
end of the cells. -/
theorem newest_foldl (seen : Timestamp → Bool) (deletedAt : Option Timestamp) (cells : List Cell) :
    Newest (Survives seen deletedAt) cells
      (cells.foldl (versionAfter seen deletedAt) .empty) := by
  induction cells using List.reverseRecOn with
  | nil => exact newest_nil _
  | append_singleton cells c ih =>
    rw [List.foldl_append, List.foldl_cons, List.foldl_nil]
    generalize cells.foldl (versionAfter seen deletedAt) .empty = columns at ih
    unfold versionAfter
    split
    · rename_i htaken
      rcases htaken with ⟨hkind, hseen, hkept, hnewer⟩
      refine ih.insert ⟨hkind, hseen, Bool.eq_false_iff.2 hkept⟩ ?_
      intro old hold
      rw [hold, Option.any_some, decide_eq_true_eq] at hnewer
      exact lt_of_not_ge hnewer
    · rename_i hleft
      apply ih.skip
      rintro ⟨hkind, hseen, hkept⟩
      by_contra hnone
      refine hleft ⟨hkind, hseen, by simp [hkept], ?_⟩
      rw [Option.any_eq_true]
      rintro ⟨newest, hnewest, hle⟩
      exact hnone ⟨newest, hnewest, of_decide_eq_true hle⟩

/-! ## Visible rows -/

/-- A cell of the visible row is what the columns hold for its column. -/
theorem mem_visibleRow_iff_get? :
    c ∈ visibleRow seen cells ↔ (cells.foldl (versionAfter seen
      (cells.foldl (deletionAfter seen) none)) .empty).get? c.column = some c := by
  have hnewest := newest_foldl seen (cells.foldl (deletionAfter seen) none) cells
  unfold visibleRow SortedMap.values
  rw [List.mem_map]
  constructor
  · rintro ⟨⟨k, x⟩, hx, rfl⟩
    have hfound := SortedMap.get?_eq_some_iff.2 hx
    rwa [(hnewest.among hfound).2.2]
  · intro hfound
    exact ⟨(c.column, c), SortedMap.get?_eq_some_iff.1 hfound, rfl⟩

/-- The visible row is in the order of columns, with at most one version of each. -/
theorem visibleRow_ascending (seen : Timestamp → Bool) (cells : List Cell) :
    (visibleRow seen cells).Pairwise fun a b => compare a.column b.column = .lt := by
  have hnewest := newest_foldl seen (cells.foldl (deletionAfter seen) none) cells
  unfold visibleRow SortedMap.values
  rw [List.pairwise_map]
  refine (SortedMap.ascending _).imp_of_mem ?_
  rintro ⟨k, a⟩ ⟨k', b⟩ ha hb hlt
  rwa [(hnewest.among (SortedMap.get?_eq_some_iff.2 ha)).2.2,
    (hnewest.among (SortedMap.get?_eq_some_iff.2 hb)).2.2]

/-- A version survives the deletions exactly if no tombstone that is seen supersedes it. -/
theorem survives_iff :
    Survives seen (cells.foldl (deletionAfter seen) none) c ↔
      c.kind = .userData ∧ seen c.timestamp = true ∧
        ∀ d ∈ cells, seen d.timestamp = true → d.kind = .tombstone → d.timestamp ≤ c.timestamp := by
  rw [Survives, Bool.eq_false_iff, ne_eq, any_deletedAt]
  refine and_congr_right fun _ => and_congr_right fun _ => ?_
  constructor
  · intro hnone d hd hseen hkind
    exact le_of_not_gt fun hlt => hnone ⟨d, hd, hkind, hseen, hlt⟩
  · rintro hall ⟨d, hd, hkind, hseen, hlt⟩
    exact not_lt_of_ge (hall d hd hseen hkind) hlt

/-- If no two cells are versions of one column at one time, the visible row is made of the versions
that are seen and that nothing that is seen supersedes. -/
theorem mem_visibleRow
    (hdistinct : ∀ a ∈ cells, ∀ b ∈ cells, a.column = b.column → a.timestamp = b.timestamp → a = b) :
    c ∈ visibleRow seen cells ↔
      c ∈ cells ∧ c.kind = .userData ∧ seen c.timestamp = true ∧ Stands seen cells c := by
  have hnewest := newest_foldl seen (cells.foldl (deletionAfter seen) none) cells
  rw [mem_visibleRow_iff_get?]
  constructor
  · intro hfound
    rcases hnewest.among hfound with ⟨hmem, hsurvives, _⟩
    rcases survives_iff.1 hsurvives with ⟨hkind, hseen, hkept⟩
    refine ⟨hmem, hkind, hseen, ?_⟩
    rintro d hd hseenD ⟨hlt, hdeletes | ⟨hversion, hcolumn⟩⟩
    · exact not_lt_of_ge (hkept d hd hseenD hdeletes) hlt
    · -- a newer version of the column survives as well: what would delete it deletes both
      have hsurvivesD : Survives seen (cells.foldl (deletionAfter seen) none) d := by
        refine survives_iff.2 ⟨hversion, hseenD, ?_⟩
        intro x hx hseenX hdeletes
        exact le_trans (hkept x hx hseenX hdeletes) (le_of_lt hlt)
      rcases hnewest.covers hd hsurvivesD with ⟨newest, hheld, hle⟩
      rw [hcolumn, hfound, Option.some.injEq] at hheld
      exact not_lt_of_ge (hheld ▸ hle) hlt
  · rintro ⟨hmem, hkind, hseen, hfree⟩
    have hsurvives : Survives seen (cells.foldl (deletionAfter seen) none) c := by
      refine survives_iff.2 ⟨hkind, hseen, ?_⟩
      intro d hd hseenD hdeletes
      exact le_of_not_gt fun hlt => hfree d hd hseenD ⟨hlt, .inl hdeletes⟩
    rcases hnewest.covers hmem hsurvives with ⟨newest, hheld, hle⟩
    rcases hnewest.among hheld with ⟨hmemN, ⟨hkindN, hseenN, _⟩, hcolumn⟩
    have hge : newest.timestamp ≤ c.timestamp :=
      le_of_not_gt fun hlt => hfree newest hmemN hseenN ⟨hlt, .inr ⟨hkindN, hcolumn⟩⟩
    rw [hheld, hdistinct newest hmemN c hmem hcolumn (le_antisymm hge hle)]

theorem mem_visibleRow_row {s : CellStore} {row : Bytes} :
    c ∈ visibleRow seen (s.row row) ↔
      c ∈ s.row row ∧ c.kind = .userData ∧ seen c.timestamp = true ∧ Stands seen (s.row row) c := by
  apply mem_visibleRow
  intro a ha b hb hcolumn htimestamp
  rcases CellStore.mem_row.1 ha with ⟨hrowA, hmemA⟩
  rcases CellStore.mem_row.1 hb with ⟨hrowB, hmemB⟩
  have hkey : a.key = b.key := by
    rw [Cell.column, Cell.column, Column.mk.injEq] at hcolumn
    rw [Cell.key, Cell.key, hrowA, hrowB, hcolumn.1, hcolumn.2, htimestamp]
  rw [CellStore.mem_toList] at hmemA hmemB
  rw [hkey, hmemB] at hmemA
  exact (Option.some.inj hmemA).symm

end Reading

end SnapshotIsolation
