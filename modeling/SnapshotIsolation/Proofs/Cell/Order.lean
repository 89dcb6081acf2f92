import Mathlib.Data.List.Induction
import Mathlib.Data.List.Sort
import SnapshotIsolation.Proofs.Cell.Rows

/-!
# The order of the cells

The store is one sorted list of cells. Its rows ascend, each of them is one stretch of the list, and
within a row the cells ascend by family and column, with the newest version of a column first. What
stands at a place is a matter of the last change that was made there.

Main results:

- Theorem {lit}`CellStore.rows_ascending`: every row is listed once, in ascending order.
- Theorem {lit}`CellStore.flatMap_row_rows`: the rows one after the other are all cells.
- Theorem {lit}`CellStore.ofChanges_is_sorted_map`: what a store tells after any changes.
-/

namespace SnapshotIsolation

/-- Byte strings are compared from their first bytes on, and a string comes before those that it is
the beginning of. -/
theorem compare_bytes_eq_lt {a b : Bytes} : compare a b = .lt ↔ a < b := by
  induction a generalizing b with
  | nil => cases b <;> simp [compare, List.compareLex]
  | cons x a ih =>
    cases b with
    | nil => simp [compare, List.compareLex]
    | cons y b =>
      rw [List.compare_cons_cons, Ordering.then_eq_lt, Std.compare_eq_lt, ih,
        Std.LawfulEqCmp.compare_eq_iff_eq, List.cons_lt_cons_iff]

/-- Of two cells of a row the first comes first: by family, then by column, then the newer one. -/
def Cell.Precedes (a b : Cell) : Prop :=
  a.family < b.family ∨ a.family = b.family ∧
    (a.qualifier < b.qualifier ∨ a.qualifier = b.qualifier ∧ b.timestamp < a.timestamp)

theorem Cell.precedes_of_compare {a b : Cell} (hrow : a.row = b.row)
    (h : compare a.key b.key = .lt) : a.Precedes b := by
  rw [Key.compare_eq] at h
  simp only [Cell.key, hrow, Std.ReflCmp.compare_self, Ordering.eq_then, Ordering.then_eq_lt,
    compare_bytes_eq_lt, Std.LawfulEqCmp.compare_eq_iff_eq, compare_lt_iff_lt] at h
  exact h

namespace CellStore

variable {s : CellStore} {c : Cell} {k : Cell.Key} {r : Bytes}

/-! ## Rows -/

theorem mem_squeeze {rows : List Bytes} : r ∈ squeeze rows ↔ r ∈ rows := by
  induction rows using squeeze.induct with
  | case1 => rfl
  | case2 r => rfl
  | case3 r rest ih =>
    rw [squeeze, if_pos rfl, ih]
    simp
  | case4 r r' rest hne ih =>
    rw [squeeze, if_neg hne, List.mem_cons, ih, ← List.mem_cons]

/-- Without repetitions a sorted list ascends strictly. -/
theorem squeeze_ascending {rows : List Bytes} (h : rows.Pairwise fun a b => a < b ∨ a = b) :
    (squeeze rows).Pairwise (· < ·) := by
  induction rows using squeeze.induct with
  | case1 => exact .nil
  | case2 r => exact List.pairwise_singleton _ r
  | case3 r rest ih =>
    rw [squeeze, if_pos rfl]
    exact ih (List.pairwise_cons.1 h).2
  | case4 r r' rest hne ih =>
    rcases List.pairwise_cons.1 h with ⟨habove, h'⟩
    have hnext : r < r' := (habove r' List.mem_cons_self).resolve_right hne
    rw [squeeze, if_neg hne]
    refine List.pairwise_cons.2 ⟨?_, ih h'⟩
    intro x hx
    rcases List.mem_cons.1 (mem_squeeze.1 hx) with rfl | hx
    · exact hnext
    · rcases (List.pairwise_cons.1 h').1 x hx with hlt | rfl
      · exact List.lt_trans hnext hlt
      · exact hnext

theorem nodup_of_pairwise_compare {α : Type} (place : α → Cell.Key) {l : List α}
    (h : l.Pairwise fun a b => compare (place a) (place b) = .lt) : l.Nodup := by
  apply h.imp
  rintro a _ hab rfl
  simp at hab

/-- Two lists in the order of places are equal if they have the same members. -/
theorem eq_of_pairwise_compare {α : Type} (place : α → Cell.Key) {l l' : List α}
    (h : l.Pairwise fun a b => compare (place a) (place b) = .lt)
    (h' : l'.Pairwise fun a b => compare (place a) (place b) = .lt)
    (hmem : ∀ a, a ∈ l ↔ a ∈ l') : l = l' := by
  have : Std.Irrefl fun a b : α => compare (place a) (place b) = .lt := ⟨fun a => by simp⟩
  have : Std.Antisymm fun a b : α => compare (place a) (place b) = .lt :=
    ⟨fun a b hab hba => absurd hba (Std.OrientedCmp.not_lt_of_lt hab)⟩
  exact h.eq_of_mem_iff h' fun a => hmem a

theorem toList_ascending (s : CellStore) :
    s.toList.Pairwise fun a b => compare a.key b.key = .lt :=
  List.pairwise_map.2 s.values.ascending

/-- The rows are those of the cells. -/
theorem mem_rows : r ∈ s.rows ↔ ∃ c ∈ s.toList, c.row = r := by
  simp only [rows, mem_squeeze, SortedMap.keys, toList, List.mem_map, exists_exists_and_eq_and]
  rfl

/-- Every row is listed once, in ascending order. -/
theorem rows_ascending (s : CellStore) : s.rows.Pairwise (· < ·) := by
  apply squeeze_ascending
  rw [SortedMap.keys, List.map_map, List.pairwise_map]
  apply s.values.ascending.imp
  intro a b hab
  exact (Cell.Key.compare_row_of_lt hab).imp_left compare_bytes_eq_lt.1

theorem nodup_rows (s : CellStore) : s.rows.Nodup := by
  apply (rows_ascending s).imp
  rintro r _ hlt rfl
  exact List.lt_irrefl r hlt

theorem pairwise_row (s : CellStore) (r : Bytes) :
    (s.row r).Pairwise fun a b => compare a.key b.key = .lt := by
  rw [row_eq_filter, List.pairwise_map]
  exact s.values.ascending.filter _

/-- A row has its cells in order. -/
theorem row_ascending (s : CellStore) (r : Bytes) : (s.row r).Pairwise Cell.Precedes := by
  apply (pairwise_row s r).imp_of_mem
  intro a b ha hb hab
  exact Cell.precedes_of_compare ((mem_row.1 ha).1.trans (mem_row.1 hb).1.symm) hab

theorem mem_flatMap_row_rows : c ∈ s.rows.flatMap s.row ↔ c ∈ s.toList := by
  simp only [List.mem_flatMap, mem_row]
  constructor
  · rintro ⟨_, _, _, hc⟩
    exact hc
  · intro hc
    exact ⟨c.row, mem_rows.2 ⟨c, hc, rfl⟩, rfl, hc⟩

/-- The rows one after the other are all cells, in order. -/
theorem flatMap_row_rows (s : CellStore) : s.rows.flatMap s.row = s.toList := by
  have hsorted : (s.rows.flatMap s.row).Pairwise fun a b => compare a.key b.key = .lt := by
    refine List.pairwise_flatMap.2 ⟨fun r _ => pairwise_row s r, ?_⟩
    apply (rows_ascending s).imp
    intro r r' hlt a ha b hb
    rw [Cell.Key.compare_eq, Ordering.then_eq_lt]
    exact .inl (compare_bytes_eq_lt.2 (by rwa [← (mem_row.1 ha).1, ← (mem_row.1 hb).1] at hlt))
  exact eq_of_pairwise_compare Cell.key hsorted (toList_ascending s) fun c => mem_flatMap_row_rows

/-! ## Changes -/

/-- A change of one cell of a store. -/
inductive Change where
  | put (c : Cell)
  | remove (c : Cell)

namespace Change

/-- The place that is changed. -/
def key : Change → Cell.Key
  | .put c | .remove c => c.key

/-- The store after the change. -/
def apply (s : CellStore) : Change → CellStore
  | .put c => s.put c
  | .remove c => s.remove c

/-- What stands at the place after the change. -/
def leaves : Change → Option Cell
  | .put c => some c
  | .remove _ => none

theorem get?_apply (change : Change) (s : CellStore) (k : Cell.Key) :
    (change.apply s).get? k = if change.key = k then change.leaves else s.get? k := by
  cases change with
  | put c => exact get?_put s c k
  | remove c => exact get?_remove s c k

theorem key_of_leaves {change : Change} (h : change.leaves = some c) : change = .put c := by
  cases change with
  | put c' => exact congrArg put (Option.some.inj h)
  | remove c' => cases h

end Change

/-- The store after changes to the empty one. -/
def ofChanges (changes : List Change) : CellStore := changes.foldl Change.apply empty

/-- What stands at a place is what the last change there left. -/
theorem get?_ofChanges (changes : List Change) (k : Cell.Key) :
    (ofChanges changes).get? k =
      (changes.reverse.find? fun change => change.key = k).bind Change.leaves := by
  induction changes using List.reverseRecOn with
  | nil => rfl
  | append_singleton changes change ih =>
    rw [ofChanges, List.foldl_append, List.foldl_cons, List.foldl_nil, Change.get?_apply,
      List.reverse_concat, List.find?_cons]
    by_cases hkey : change.key = k
    · simp [hkey]
    · rw [if_neg hkey, decide_eq_false hkey]
      exact ih

/-- A cell stands at its place if it was put there and nothing was changed there since. -/
theorem get?_ofChanges_eq_some_iff {changes : List Change} :
    (ofChanges changes).get? k = some c ↔ c.key = k ∧
      ∃ earlier later, changes = earlier ++ .put c :: later ∧ ∀ change ∈ later, change.key ≠ k := by
  rw [get?_ofChanges, Option.bind_eq_some_iff]
  constructor
  · rintro ⟨change, hfind, hleaves⟩
    obtain rfl := Change.key_of_leaves hleaves
    rcases List.find?_eq_some_iff_append.1 hfind with ⟨hkey, later, earlier, hsplit, hlater⟩
    refine ⟨of_decide_eq_true hkey, earlier.reverse, later.reverse, ?_, ?_⟩
    · rw [← List.reverse_reverse changes, hsplit]
      simp
    · intro change hchange
      simpa using hlater change (List.mem_reverse.1 hchange)
  · rintro ⟨hkey, earlier, later, rfl, hlater⟩
    refine ⟨.put c, List.find?_eq_some_iff_append.2 ⟨decide_eq_true hkey, later.reverse,
      earlier.reverse, by simp, ?_⟩, rfl⟩
    intro change hchange
    simpa using hlater change (List.mem_reverse.1 hchange)

theorem size_eq_length_flatMap (s : CellStore) : s.size = (s.rows.flatMap s.row).length := by
  rw [flatMap_row_rows, toList, List.length_map]
  rfl

/-- What a store tells after any changes to the empty one: at each place what was last put there
and not removed since, each row with its cells in order, and each row that has cells once, in
order. The rows one after the other are all cells. -/
theorem ofChanges_is_sorted_map (changes : List Change) :
    (∀ k c, (ofChanges changes).get? k = some c ↔ c.key = k ∧ ∃ earlier later,
      changes = earlier ++ .put c :: later ∧ ∀ change ∈ later, change.key ≠ k) ∧
    (∀ r, (∀ c, c ∈ (ofChanges changes).row r ↔
        c.row = r ∧ (ofChanges changes).get? c.key = some c) ∧
      ((ofChanges changes).row r).Pairwise Cell.Precedes ∧ ((ofChanges changes).row r).Nodup) ∧
    (∀ r, r ∈ (ofChanges changes).rows ↔
      ∃ c, (ofChanges changes).get? c.key = some c ∧ c.row = r) ∧
    (ofChanges changes).rows.Pairwise (· < ·) ∧
    (∀ c, c ∈ (ofChanges changes).rows.flatMap (ofChanges changes).row ↔
      (ofChanges changes).get? c.key = some c) ∧
    ((ofChanges changes).rows.flatMap (ofChanges changes).row).Nodup ∧
    (ofChanges changes).size =
      ((ofChanges changes).rows.flatMap (ofChanges changes).row).length := by
  refine ⟨fun k c => get?_ofChanges_eq_some_iff, fun r => ⟨fun c => ?_, row_ascending _ r, ?_⟩,
    fun r => ?_, rows_ascending _, fun c => ?_, ?_, size_eq_length_flatMap _⟩
  · rw [mem_row, mem_toList]
  · exact nodup_of_pairwise_compare Cell.key (pairwise_row _ r)
  · simp only [mem_rows, mem_toList]
  · rw [mem_flatMap_row_rows, mem_toList]
  · rw [flatMap_row_rows]
    exact nodup_of_pairwise_compare Cell.key (toList_ascending _)

end CellStore

end SnapshotIsolation
