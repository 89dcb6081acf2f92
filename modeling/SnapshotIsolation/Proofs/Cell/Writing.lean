import SnapshotIsolation.Proofs.Compaction
import SnapshotIsolation.Proofs.Visibility.Newest

/-!
# Rows after a write or a delete

A write puts the last value of each column, and a delete drops what the transaction wrote and puts
a tombstone. Either leaves alone what stands in other rows or was written by others, so what can be
seen of the row afterwards is told by what could be seen before.

Main results:

- Theorems {lit}`CellStore.mem_written_of_userData` and {lit}`CellStore.mem_deleted_of_userData`:
  which data is there afterwards.
- Theorems {lit}`CellStore.mem_visibleRow_written` and {lit}`CellStore.mem_visibleRow_deleted`:
  what of the row is seen afterwards.
-/

namespace SnapshotIsolation

/-! ## Kinds and places -/

namespace Cell

variable {c x : Cell} {row : Bytes} {id : Timestamp}

theorem kind_eq_userData_iff : c.kind = .userData ↔ c.family ≠ statusFamily := by
  have hclass : classify c.family c.qualifier = .userData ↔ c.family ≠ statusFamily := by
    unfold classify
    split
    · rename_i hstatus
      split
      · simp [hstatus]
      · split <;> simp [hstatus]
    · rename_i hdata
      simp [hdata]
  rw [← hclass]
  unfold kind
  split
  · rename_i htombstone
    rw [htombstone]
    split
    · simp
    · split <;> simp
  · rfl

/-- A tombstone is what its place says. -/
theorem eq_tombstone_of_key (hkind : x.kind = .tombstone) (hkey : x.key = (tombstone row id).key) :
    x = tombstone row id := by
  have hvalue : x.value = [] := by
    unfold kind at hkind
    split at hkind
    · split at hkind
      · cases hkind
      · split at hkind
        · rename_i hempty
          exact List.isEmpty_iff.1 hempty
        · cases hkind
    · rename_i hclass
      exact absurd hkind hclass
  rw [← cell_key x, hkey, hvalue]
  rfl

/-- Data does not stand where a cell of the status family does. -/
theorem key_ne_of_userData (hkind : x.kind = .userData) (hfamily : c.family = statusFamily) :
    x.key ≠ c.key := by
  intro hkey
  exact kind_eq_userData_iff.1 hkind ((congrArg Key.family hkey).trans hfamily)

/-- The cell stands where data of the transaction in the row does. -/
def IsDataOf (c : Cell) (row : Bytes) (id : Timestamp) : Prop :=
  c.row = row ∧ c.family = dataFamily ∧ c.timestamp = id

theorem IsDataOf.eq_data (h : c.IsDataOf row id) : c = data row c.qualifier id c.value := by
  rcases h with ⟨rfl, hfamily, rfl⟩
  rw [data, ← hfamily]

theorem key_data_eq_iff {qualifier value : Bytes} :
    x.key = (data row qualifier id value).key ↔ x.IsDataOf row id ∧ x.qualifier = qualifier := by
  unfold key IsDataOf data
  rw [Key.mk.injEq]
  constructor
  · rintro ⟨hrow, hfamily, hqualifier, htimestamp⟩
    exact ⟨⟨hrow, hfamily, htimestamp⟩, hqualifier⟩
  · rintro ⟨⟨hrow, hfamily, htimestamp⟩, hqualifier⟩
    exact ⟨hrow, hfamily, hqualifier, htimestamp⟩

end Cell

namespace CellStore

open Reading (visibleRow mem_visibleRow_row Stands stands_congr)

variable {s s' s₁ s₂ s₃ : CellStore} {c x : Cell} {row : Bytes} {id : Timestamp}
  {columns : List (Bytes × Bytes)} {cancels : Bool}

/-! ## Changes confined to one writer in one row -/

/-- Between two stores only what one transaction wrote in one row changed. -/
def Confined (row : Bytes) (id : Timestamp) (s s' : CellStore) : Prop :=
  ∀ x : Cell, x.row ≠ row ∨ x.timestamp ≠ id → (x ∈ s'.toList ↔ x ∈ s.toList)

theorem Confined.refl (row : Bytes) (id : Timestamp) (s : CellStore) : Confined row id s s :=
  fun _ _ => Iff.rfl

theorem Confined.trans (h₁ : Confined row id s₁ s₂) (h₂ : Confined row id s₂ s₃) :
    Confined row id s₁ s₃ :=
  fun x hx => (h₂ x hx).trans (h₁ x hx)

theorem key_ne_of_apart (h : x.row ≠ c.row ∨ x.timestamp ≠ c.timestamp) : x.key ≠ c.key := by
  intro hkey
  rcases h with hrow | htimestamp
  · exact hrow (congrArg Cell.Key.row hkey)
  · exact htimestamp (congrArg Cell.Key.timestamp hkey)

theorem confined_put (s : CellStore) (c : Cell) : Confined c.row c.timestamp s (s.put c) := by
  intro x hx
  have hkey := key_ne_of_apart hx
  have hne : x ≠ c := fun heq => hkey (heq ▸ rfl)
  rw [mem_put]
  simp [hne, hkey]

/-- The other rows are as they were. -/
theorem Confined.row_eq (h : Confined row id s s') {other : Bytes} (hother : other ≠ row) :
    s'.row other = s.row other := by
  have hrows : ∀ {s : CellStore}, (s.row other).filter (fun c => c.row = other) = s.row other := by
    intro s
    rw [List.filter_eq_self]
    intro c hc
    exact decide_eq_true (mem_row.1 hc).1
  rw [← hrows, ← hrows (s := s)]
  apply filter_row_congr
  intro c
  simp only [decide_eq_true_eq]
  refine and_congr_left fun hrow => h c (.inl ?_)
  rwa [hrow]

/-! ## Writes -/

/-- The store after a transaction wrote columns of a row, with an anti-tombstone if it is to be. -/
def written (s : CellStore) (row : Bytes) (id : Timestamp) (cancels : Bool)
    (columns : List (Bytes × Bytes)) : CellStore :=
  (columns.foldl (fun s c => s.put (Cell.data row c.1 id c.2))
    (if cancels then s.put (Cell.antiTombstone row id) else s)).put (Cell.unresolvedMarker row id)

/-- What stands in a store after columns were put: the last value of each, and what was there
elsewhere. -/
theorem mem_put_columns :
    x ∈ (columns.foldl (fun s c => s.put (Cell.data row c.1 id c.2)) s).toList ↔
      x.IsDataOf row id ∧ columns.reverse.lookup x.qualifier = some x.value ∨
        x ∈ s.toList ∧ (x.IsDataOf row id → columns.reverse.lookup x.qualifier = none) := by
  induction columns using List.reverseRecOn with
  | nil => simp
  | append_singleton columns c ih =>
    rw [List.foldl_append, List.foldl_cons, List.foldl_nil, mem_put, ih, Ne, Cell.key_data_eq_iff,
      List.reverse_append, List.reverse_singleton, List.singleton_append, List.lookup_cons]
    by_cases hown : x.IsDataOf row id
    · by_cases hqualifier : x.qualifier = c.1
      · have heq : x = Cell.data row c.1 id c.2 ↔ c.2 = x.value := by
          constructor
          · rintro rfl
            rfl
          · intro hvalue
            rw [hown.eq_data, hqualifier, hvalue]
        simp [hown, hqualifier, heq]
      · have hne : x ≠ Cell.data row c.1 id c.2 := fun heq => hqualifier (heq ▸ rfl)
        have hbeq : (x.qualifier == c.1) = false := by simpa using hqualifier
        simp [hown, hqualifier, hne, hbeq]
    · have hne : x ≠ Cell.data row c.1 id c.2 := fun heq => hown (heq ▸ ⟨rfl, rfl, rfl⟩)
      simp [hown, hne]

theorem confined_columns (s : CellStore) (row : Bytes) (id : Timestamp)
    (columns : List (Bytes × Bytes)) :
    Confined row id s (columns.foldl (fun s c => s.put (Cell.data row c.1 id c.2)) s) := by
  intro x hx
  have hother : ¬ x.IsDataOf row id := fun hown => hx.elim (· hown.1) (· hown.2.2)
  rw [mem_put_columns]
  simp [hother]

theorem confined_written (s : CellStore) (row : Bytes) (id : Timestamp) (cancels : Bool)
    (columns : List (Bytes × Bytes)) : Confined row id s (s.written row id cancels columns) := by
  refine (Confined.trans ?_ (confined_columns _ row id columns)).trans
    (confined_put _ (Cell.unresolvedMarker row id))
  cases cancels with
  | true => exact confined_put s (Cell.antiTombstone row id)
  | false => exact .refl row id s

theorem mem_written_of_ne_marker (hkind : x.kind ≠ .commitMarker) :
    x ∈ (s.written row id cancels columns).toList ↔
      x.IsDataOf row id ∧ columns.reverse.lookup x.qualifier = some x.value ∨
        x ∈ (if cancels then s.put (Cell.antiTombstone row id) else s).toList ∧
          (x.IsDataOf row id → columns.reverse.lookup x.qualifier = none) := by
  have hkey : x.key ≠ (Cell.unresolvedMarker row id).key :=
    fun hkey => hkind ((Cell.isMarker_congr hkey).2 (Cell.kind_unresolvedMarker row id))
  have hne : x ≠ Cell.unresolvedMarker row id := fun heq => hkey (heq ▸ rfl)
  rw [written, mem_put, mem_put_columns]
  simp [hne, hkey]

/-- The data after a write: the last value of each column, and what else was there. -/
theorem mem_written_of_userData (hkind : x.kind = .userData) :
    x ∈ (s.written row id cancels columns).toList ↔
      x.IsDataOf row id ∧ columns.reverse.lookup x.qualifier = some x.value ∨
        x ∈ s.toList ∧ (x.IsDataOf row id → columns.reverse.lookup x.qualifier = none) := by
  have hcancels : x ∈ (if cancels then s.put (Cell.antiTombstone row id) else s).toList ↔
      x ∈ s.toList := by
    cases cancels with
    | true =>
      have hkey : x.key ≠ (Cell.antiTombstone row id).key := Cell.key_ne_of_userData hkind rfl
      have hne : x ≠ Cell.antiTombstone row id := fun heq => hkey (heq ▸ rfl)
      simp [mem_put, hkey, hne]
    | false => rfl
  rw [mem_written_of_ne_marker (by simp [hkind]), hcancels]

/-- A write leaves tombstones alone, as it only cancels what others deleted. -/
theorem mem_written_of_tombstone (hkind : x.kind = .tombstone)
    (hcancels : cancels = true → Cell.tombstone row id ∉ s.toList) :
    x ∈ (s.written row id cancels columns).toList ↔ x ∈ s.toList := by
  have hother : ¬ x.IsDataOf row id := by
    intro hown
    rw [hown.eq_data, Cell.kind_data] at hkind
    cases hkind
  have hcancels : x ∈ (if cancels then s.put (Cell.antiTombstone row id) else s).toList ↔
      x ∈ s.toList := by
    cases cancels with
    | true =>
      have hne : x ≠ Cell.antiTombstone row id := by
        rintro rfl
        simp at hkind
      have hkey : x ∈ s.toList → x.key ≠ (Cell.antiTombstone row id).key := by
        intro hx hkey
        exact hcancels rfl (Cell.eq_tombstone_of_key hkind hkey ▸ hx)
      simpa [mem_put, hne] using hkey
    | false => rfl
  rw [mem_written_of_ne_marker (by simp [hkind]), hcancels]
  simp [hother]

/-! ## Deletes -/

/-- The store after a transaction deleted a row. -/
def deleted (s : CellStore) (row : Bytes) (id : Timestamp) : CellStore :=
  ((((s.row row).filter fun c => c.timestamp = id ∧ c.kind = .userData).foldl remove s).put
    (Cell.tombstone row id)).put (Cell.unresolvedMarker row id)

theorem mem_remove_all {cells : List Cell} :
    x ∈ (cells.foldl remove s).toList ↔ x ∈ s.toList ∧ ∀ c ∈ cells, x.key ≠ c.key := by
  induction cells generalizing s with
  | nil => simp
  | cons c cells ih =>
    rw [List.foldl_cons, ih, mem_remove, List.forall_mem_cons]
    constructor
    · rintro ⟨⟨hkey, hx⟩, hall⟩
      exact ⟨hx, hkey, hall⟩
    · rintro ⟨hx, hkey, hall⟩
      exact ⟨⟨hkey, hx⟩, hall⟩

/-- What a transaction wrote in a row is removed with all its data there. -/
theorem mem_remove_own :
    x ∈ (((s.row row).filter fun c => c.timestamp = id ∧ c.kind = .userData).foldl remove s).toList ↔
      x ∈ s.toList ∧ ¬ (x.row = row ∧ x.timestamp = id ∧ x.kind = .userData) := by
  rw [mem_remove_all]
  refine and_congr_right fun hx => ?_
  constructor
  · rintro hall ⟨hrow, hown⟩
    exact hall x (List.mem_filter.2 ⟨mem_row.2 ⟨hrow, hx⟩, decide_eq_true hown⟩) rfl
  · intro hother c hc hkey
    rcases List.mem_filter.1 hc with ⟨hc, hown⟩
    rcases mem_row.1 hc with ⟨hrow, hc⟩
    rw [mem_toList] at hx hc
    rw [hkey, hc, Option.some.injEq] at hx
    exact hother (hx ▸ ⟨hrow, of_decide_eq_true hown⟩)

theorem mem_deleted_of_ne_marker (hkind : x.kind ≠ .commitMarker) :
    x ∈ (s.deleted row id).toList ↔ x = Cell.tombstone row id ∨
      x.key ≠ (Cell.tombstone row id).key ∧ x ∈ s.toList ∧
        ¬ (x.row = row ∧ x.timestamp = id ∧ x.kind = .userData) := by
  have hkey : x.key ≠ (Cell.unresolvedMarker row id).key :=
    fun hkey => hkind ((Cell.isMarker_congr hkey).2 (Cell.kind_unresolvedMarker row id))
  have hne : x ≠ Cell.unresolvedMarker row id := fun heq => hkey (heq ▸ rfl)
  rw [deleted, mem_put, mem_put, mem_remove_own]
  simp [hne, hkey]

/-- The data after a delete: what was there, without what the transaction wrote in the row. -/
theorem mem_deleted_of_userData (hkind : x.kind = .userData) :
    x ∈ (s.deleted row id).toList ↔ x ∈ s.toList ∧ ¬ (x.row = row ∧ x.timestamp = id) := by
  have hkey : x.key ≠ (Cell.tombstone row id).key := Cell.key_ne_of_userData hkind rfl
  have hne : x ≠ Cell.tombstone row id := fun heq => hkey (heq ▸ rfl)
  rw [mem_deleted_of_ne_marker (by simp [hkind])]
  simp [hne, hkey, hkind]

/-- The tombstones after a delete: one more. -/
theorem mem_deleted_of_tombstone (hkind : x.kind = .tombstone) :
    x ∈ (s.deleted row id).toList ↔ x = Cell.tombstone row id ∨ x ∈ s.toList := by
  rw [mem_deleted_of_ne_marker (by simp [hkind])]
  by_cases hkey : x.key = (Cell.tombstone row id).key
  · simp [Cell.eq_tombstone_of_key hkind hkey]
  · simp [hkey, hkind]

theorem confined_deleted (s : CellStore) (row : Bytes) (id : Timestamp) :
    Confined row id s (s.deleted row id) := by
  have hremoved : Confined row id s
      (((s.row row).filter fun c => c.timestamp = id ∧ c.kind = .userData).foldl remove s) := by
    intro x hx
    rw [mem_remove_own]
    refine and_iff_left ?_
    rintro ⟨hrow, htimestamp, _⟩
    exact hx.elim (· hrow) (· htimestamp)
  exact (hremoved.trans (confined_put _ (Cell.tombstone row id))).trans
    (confined_put _ (Cell.unresolvedMarker row id))

/-! ## Who wrote -/

theorem Confined.writtenBy (h : Confined row id s s')
    (hmarkers : ∀ c, c.kind = .commitMarker → c ∈ s'.toList → c ∈ s.toList ∨ c.value = []) :
    WrittenBy id s s' :=
  ⟨fun hc => h _ (.inr hc), hmarkers _⟩

theorem writtenBy_written (s : CellStore) (row : Bytes) (id : Timestamp) (cancels : Bool)
    (columns : List (Bytes × Bytes)) : WrittenBy id s (s.written row id cancels columns) := by
  apply (confined_written s row id cancels columns).writtenBy
  intro c hkind hc
  rcases mem_put.1 hc with rfl | ⟨_, hc⟩
  · exact .inr rfl
  · rcases mem_put_columns.1 hc with ⟨hown, _⟩ | ⟨hc, _⟩
    · rw [hown.eq_data, Cell.kind_data] at hkind
      cases hkind
    · cases cancels with
      | true =>
        rcases mem_put.1 hc with rfl | ⟨_, hc⟩
        · simp at hkind
        · exact .inl hc
      | false => exact .inl hc

theorem writtenBy_deleted (s : CellStore) (row : Bytes) (id : Timestamp) :
    WrittenBy id s (s.deleted row id) := by
  apply (confined_deleted s row id).writtenBy
  intro c hkind hc
  rcases mem_put.1 hc with rfl | ⟨_, hc⟩
  · exact .inr rfl
  · rcases mem_put.1 hc with rfl | ⟨_, hc⟩
    · simp at hkind
    · exact .inl (mem_remove_own.1 hc).1

/-! ## Data in the data family only -/

/-- All data is in the data family. -/
def Plain (s : CellStore) : Prop := ∀ c ∈ s.toList, c.kind = .userData → c.family = Cell.dataFamily

theorem plain_empty : Plain .empty :=
  nofun

theorem Plain.written (h : s.Plain) (row : Bytes) (id : Timestamp) (cancels : Bool)
    (columns : List (Bytes × Bytes)) : (s.written row id cancels columns).Plain := by
  intro c hc hkind
  rcases (mem_written_of_userData hkind).1 hc with ⟨hown, _⟩ | ⟨hc, _⟩
  · exact hown.2.1
  · exact h c hc hkind

theorem Plain.deleted (h : s.Plain) (row : Bytes) (id : Timestamp) : (s.deleted row id).Plain :=
  fun c hc hkind => h c ((mem_deleted_of_userData hkind).1 hc).1 hkind

/-! ## What is seen afterwards -/

variable {seen : Timestamp → Bool}

/-- A change confined to one writer in the row has no bearing on whether a version that is as new
stands. -/
theorem Confined.stands_iff (h : Confined row id s s') (hle : id ≤ c.timestamp) :
    Stands seen (s'.row row) c ↔ Stands seen (s.row row) c := by
  apply stands_congr
  intro d hsupersedes
  rw [mem_row, mem_row, h d (.inr (ne_of_gt (lt_of_le_of_lt hle hsupersedes.1)))]

/-- Nor has a write on versions of columns that it leaves alone. -/
theorem stands_written_iff (hcancels : cancels = true → Cell.tombstone row id ∉ s.toList)
    (hkept : columns.reverse.lookup c.qualifier = none) :
    Stands seen ((s.written row id cancels columns).row row) c ↔ Stands seen (s.row row) c := by
  apply stands_congr
  rintro d ⟨_, hdeletes | ⟨hversion, hcolumn⟩⟩
  · rw [mem_row, mem_row, mem_written_of_tombstone hdeletes hcancels]
  · have hqualifier : d.qualifier = c.qualifier := congrArg Column.qualifier hcolumn
    rw [mem_row, mem_row, mem_written_of_userData hversion]
    simp [hqualifier, hkept]

/-- After a write an older version of a column that was written does not stand. -/
theorem current_of_stands (hplain : s.Plain) (hseen : seen id = true) (hc : c ∈ s.toList)
    (hkind : c.kind = .userData) (hrow : c.row = row)
    (hkept : c.IsDataOf row id → columns.reverse.lookup c.qualifier = none)
    (hstands : Stands seen ((s.written row id cancels columns).row row) c) :
    columns.reverse.lookup c.qualifier = none ∨ id < c.timestamp := by
  have hfamily := hplain c hc hkind
  cases hlast : columns.reverse.lookup c.qualifier with
  | none => exact .inl rfl
  | some value =>
    refine .inr (lt_of_not_ge fun hle => ?_)
    rcases lt_or_eq_of_le hle with hlt | heq
    · have hput : Cell.data row c.qualifier id value ∈
          (s.written row id cancels columns).toList :=
        (mem_written_of_userData rfl).2 (.inl ⟨⟨rfl, rfl, rfl⟩, hlast⟩)
      have hcolumn : (Cell.data row c.qualifier id value).column = c.column := by
        simp [Cell.column, Cell.data, hfamily]
      exact hstands _ (mem_row.2 ⟨rfl, hput⟩) hseen ⟨hlt, .inr ⟨rfl, hcolumn⟩⟩
    · rw [hkept ⟨hrow, hfamily, heq⟩] at hlast
      cases hlast

/-- What is seen of a row after a write by a transaction that sees itself: what was seen before,
unless it is an older version of a column that was written, and of each column that was written the
last value, unless something that is seen supersedes it. -/
theorem mem_visibleRow_written (hplain : s.Plain) (hseen : seen id = true)
    (hcancels : cancels = true → Cell.tombstone row id ∉ s.toList) :
    c ∈ visibleRow seen ((s.written row id cancels columns).row row) ↔
      c ∈ visibleRow seen (s.row row) ∧
          (columns.reverse.lookup c.qualifier = none ∨ id < c.timestamp) ∨
        ∃ value, columns.reverse.lookup c.qualifier = some value ∧
          c = Cell.data row c.qualifier id value ∧ Stands seen (s.row row) c := by
  have hconfined := confined_written s row id cancels columns
  have hstands : columns.reverse.lookup c.qualifier = none ∨ id < c.timestamp →
      (Stands seen ((s.written row id cancels columns).row row) c ↔ Stands seen (s.row row) c) := by
    rintro (hkept | hlt)
    · exact stands_written_iff hcancels hkept
    · exact hconfined.stands_iff (le_of_lt hlt)
  rw [mem_visibleRow_row, mem_visibleRow_row]
  constructor
  · rintro ⟨hmem, hkind, hvisible, hfree⟩
    rcases mem_row.1 hmem with ⟨hrow, hstored⟩
    rcases (mem_written_of_userData hkind).1 hstored with ⟨hown, hlast⟩ | ⟨hold, hkept⟩
    · have hle : id ≤ c.timestamp := le_of_eq hown.2.2.symm
      exact .inr ⟨c.value, hlast, hown.eq_data, (hconfined.stands_iff hle).1 hfree⟩
    · have hcurrent := current_of_stands hplain hseen hold hkind hrow hkept hfree
      exact .inl ⟨⟨mem_row.2 ⟨hrow, hold⟩, hkind, hvisible, (hstands hcurrent).1 hfree⟩, hcurrent⟩
  · rintro (⟨⟨hmem, hkind, hvisible, hfree⟩, hcurrent⟩ | ⟨value, hlast, hdata, hfree⟩)
    · rcases mem_row.1 hmem with ⟨hrow, hold⟩
      have hkept : c.IsDataOf row id → columns.reverse.lookup c.qualifier = none :=
        fun hown => hcurrent.resolve_right fun hlt => (ne_of_gt hlt) hown.2.2
      have hstored : c ∈ (s.written row id cancels columns).toList :=
        (mem_written_of_userData hkind).2 (.inr ⟨hold, hkept⟩)
      exact ⟨mem_row.2 ⟨hrow, hstored⟩, hkind, hvisible, (hstands hcurrent).2 hfree⟩
    · rw [hdata] at hfree ⊢
      have hstored : Cell.data row c.qualifier id value ∈
          (s.written row id cancels columns).toList :=
        (mem_written_of_userData rfl).2 (.inl ⟨⟨rfl, rfl, rfl⟩, hlast⟩)
      exact ⟨mem_row.2 ⟨rfl, hstored⟩, rfl, hseen, (hconfined.stands_iff (le_refl _)).2 hfree⟩

/-- What is seen of a row after a delete by a transaction that sees itself: the versions seen
before whose writers began after it. -/
theorem mem_visibleRow_deleted (hseen : seen id = true) :
    c ∈ visibleRow seen ((s.deleted row id).row row) ↔
      c ∈ visibleRow seen (s.row row) ∧ id < c.timestamp := by
  have hconfined := confined_deleted s row id
  rw [mem_visibleRow_row, mem_visibleRow_row]
  constructor
  · rintro ⟨hmem, hkind, hvisible, hfree⟩
    rcases mem_row.1 hmem with ⟨hrow, hstored⟩
    rcases (mem_deleted_of_userData hkind).1 hstored with ⟨hold, hother⟩
    have hplaced : Cell.tombstone row id ∈ (s.deleted row id).toList :=
      (mem_deleted_of_tombstone rfl).2 (.inl rfl)
    have hle : id ≤ c.timestamp := by
      refine le_of_not_gt fun hlt => ?_
      exact hfree _ (mem_row.2 ⟨rfl, hplaced⟩) hseen ⟨hlt, .inl rfl⟩
    have hlt : id < c.timestamp := lt_of_le_of_ne hle fun heq => hother ⟨hrow, heq.symm⟩
    exact ⟨⟨mem_row.2 ⟨hrow, hold⟩, hkind, hvisible, (hconfined.stands_iff hle).1 hfree⟩, hlt⟩
  · rintro ⟨⟨hmem, hkind, hvisible, hfree⟩, hlt⟩
    rcases mem_row.1 hmem with ⟨hrow, hold⟩
    have hstored := (hconfined c (.inr (ne_of_gt hlt))).2 hold
    exact ⟨mem_row.2 ⟨hrow, hstored⟩, hkind, hvisible,
      (hconfined.stands_iff (le_of_lt hlt)).2 hfree⟩

end CellStore

end SnapshotIsolation
