import SnapshotIsolation.Cell.Store
import SnapshotIsolation.Proofs.SortedMap
import SnapshotIsolation.Proofs.Timestamp.Order

/-!
# Rows of the cell store

A row is one stretch of the map, found by walking to its start. It holds exactly the cells that
name the row, in their order.

Main results:

- Theorem {lit}`CellStore.row_eq_filter`: a row is what is left of the store without other rows.
- Theorem {lit}`CellStore.filter_row_congr`: stores that agree on the cells that count agree on
  what counts in each row.
-/

namespace SnapshotIsolation

/-- In a list where what satisfies `p` comes first and what satisfies `q` next, the stretch of
`q` after the stretch of `p` is all of `q`. -/
theorem takeWhile_dropWhile_eq_filter {α : Type} {p q : α → Bool} {l : List α}
    (hsorted : l.Pairwise fun a b => (p b = true → p a = true) ∧
      (q b = true → p a = true ∨ q a = true))
    (hdisjoint : ∀ a ∈ l, q a = true → p a = false) :
    (l.dropWhile p).takeWhile q = l.filter q := by
  induction l with
  | nil => rfl
  | cons a l ih =>
    rcases List.pairwise_cons.1 hsorted with ⟨habove, hsorted'⟩
    have htail := ih hsorted' fun b hb => hdisjoint b (List.mem_cons_of_mem _ hb)
    by_cases hp : p a = true
    · have hq : q a = false := by
        by_contra hq
        rw [Bool.not_eq_false] at hq
        simp [hdisjoint a List.mem_cons_self hq] at hp
      simp [hp, hq, htail]
    · have hstop : l.dropWhile p = l := by
        cases l with
        | nil => rfl
        | cons b l =>
          have hb : ¬ p b = true := fun hb => hp ((habove b List.mem_cons_self).1 hb)
          simp [hb]
      rw [hstop] at htail
      by_cases hq : q a = true
      · simp [hp, hq, htail]
      · have hnone : l.filter q = [] := by
          rw [List.filter_eq_nil_iff]
          intro b hb hqb
          rcases (habove b hb).2 hqb with h | h
          · exact hp h
          · exact hq h
        simp [hp, hq, hnone]

namespace Cell

theorem kind_eq_commitMarker_iff {c : Cell} :
    c.kind = .commitMarker ↔ classify c.family c.qualifier = .commitMarker := by
  unfold kind
  split
  · rename_i htombstone
    rw [htombstone]
    split
    · simp
    · split <;> simp
  · rfl

theorem isMarker_congr {c c' : Cell} (h : c.key = c'.key) :
    c.kind = .commitMarker ↔ c'.kind = .commitMarker := by
  have hfamily : c.family = c'.family := congrArg Cell.Key.family h
  have hqualifier : c.qualifier = c'.qualifier := congrArg Cell.Key.qualifier h
  rw [kind_eq_commitMarker_iff, kind_eq_commitMarker_iff, hfamily, hqualifier]

end Cell

namespace Cell.Key

theorem compare_eq (a b : Key) :
    compare a b = (compare a.row b.row).then ((compare a.family b.family).then
      ((compare a.qualifier b.qualifier).then (compare b.timestamp a.timestamp))) :=
  rfl

theorem compare_nil_ne_lt (l : Bytes) : compare l [] ≠ .lt := by
  cases l <;> simp [compare, List.compareLex]

/-- No cell of a row stands before the row's start. -/
theorem not_before_rowStart {k : Key} {r : Bytes} (h : k.row = r) :
    compare k (rowStart r) ≠ .lt := by
  subst h
  have hlast : compare (rowStart k.row).timestamp k.timestamp ≠ .lt := by
    intro hlt
    have hbelow := Timestamp.lt_iff_toNat_lt.1 (compare_lt_iff_lt.1 hlt)
    have hbound : k.timestamp.toNat < 2 ^ 64 := k.timestamp.raw.toNat_lt
    have hmax : (rowStart k.row).timestamp.toNat = 2 ^ 64 - 1 := rfl
    omega
  rw [compare_eq]
  simp only [rowStart, Std.ReflCmp.compare_self, Ordering.eq_then, ne_eq, Ordering.then_eq_lt,
    not_or, not_and]
  exact ⟨compare_nil_ne_lt _, fun _ => ⟨compare_nil_ne_lt _, fun _ => hlast⟩⟩

theorem before_rowStart {k : Key} {r : Bytes} (h : compare k.row r = .lt) :
    compare k (rowStart r) = .lt := by
  rw [compare_eq, Ordering.then_eq_lt]
  exact .inl h

theorem compare_row_of_lt {a b : Key} (h : compare a b = .lt) :
    compare a.row b.row = .lt ∨ a.row = b.row := by
  rw [compare_eq, Ordering.then_eq_lt] at h
  rcases h with h | ⟨h, _⟩
  · exact .inl h
  · exact .inr (Std.LawfulEqOrd.eq_of_compare h)

end Cell.Key

namespace CellStore

/-- A row is what is left of the store without other rows. -/
theorem row_eq_filter (s : CellStore) (r : Bytes) :
    s.row r = (s.values.entries.filter fun e => e.1.row == r).map fun e => e.1.cell e.2 := by
  unfold row
  rw [takeWhile_dropWhile_eq_filter]
  · apply s.values.ascending.imp
    intro a b hab
    simp only [beq_iff_eq]
    constructor
    · intro hb
      exact Std.TransCmp.lt_trans hab hb
    · intro hb
      rcases Cell.Key.compare_row_of_lt hab with hlt | heq
      · exact .inl (Cell.Key.before_rowStart (hb ▸ hlt))
      · exact .inr (heq.trans hb)
  · intro a _ hrow
    simpa using Cell.Key.not_before_rowStart (beq_iff_eq.1 hrow)

theorem mem_toList_iff {s : CellStore} {c : Cell} :
    c ∈ s.toList ↔ s.values.get? c.key = some c.value := by
  rw [mem_toList, get?, Option.map_eq_some_iff]
  constructor
  · rintro ⟨v, hv, hcell⟩
    rw [hv, ← hcell]
    rfl
  · intro h
    exact ⟨c.value, h, rfl⟩

/-- Cells of a store that stand at the same place are one cell. -/
theorem eq_of_key_eq {s : CellStore} {c c' : Cell} (hc : c ∈ s.toList) (hc' : c' ∈ s.toList)
    (hkey : c.key = c'.key) : c = c' := by
  rw [mem_toList] at hc hc'
  rw [hkey, hc'] at hc
  exact (Option.some.inj hc).symm

theorem mem_row {s : CellStore} {r : Bytes} {c : Cell} :
    c ∈ s.row r ↔ c.row = r ∧ c ∈ s.toList := by
  rw [row_eq_filter, List.mem_map, mem_toList_iff]
  constructor
  · rintro ⟨⟨k, v⟩, he, rfl⟩
    rcases List.mem_filter.1 he with ⟨he, hrow⟩
    exact ⟨beq_iff_eq.1 hrow, SortedMap.get?_eq_some_iff.2 he⟩
  · rintro ⟨hrow, hvalue⟩
    refine ⟨(c.key, c.value), List.mem_filter.2 ⟨SortedMap.get?_eq_some_iff.1 hvalue, ?_⟩, rfl⟩
    exact beq_iff_eq.2 hrow

/-- Stores that agree on the cells that count agree on what counts in each row. -/
theorem filter_row_congr {s s' : CellStore} {p q : Cell → Bool}
    (h : ∀ c, c ∈ s.toList ∧ p c = true ↔ c ∈ s'.toList ∧ q c = true) (r : Bytes) :
    (s.row r).filter p = (s'.row r).filter q := by
  have hentries : ∀ {s : CellStore} {p : Cell → Bool}, (s.row r).filter p =
      (s.values.entries.filter fun e => e.1.row == r && p (e.1.cell e.2)).map
        fun e => e.1.cell e.2 := by
    intro s p
    rw [row_eq_filter, List.filter_map, List.filter_filter]
    simp only [Function.comp_def, Bool.and_comm]
  rw [hentries, hentries]
  refine congrArg _ (SortedMap.entries_filter_congr
    (p := fun (k : Cell.Key) v => k.row == r && p (k.cell v))
    (q := fun (k : Cell.Key) v => k.row == r && q (k.cell v)) ?_)
  intro k
  ext v
  have hcell := h (k.cell v)
  rw [mem_toList_iff, mem_toList_iff] at hcell
  simp only [Option.filter_eq_some_iff, Bool.and_eq_true]
  constructor
  · rintro ⟨hvalue, hrow, hp⟩
    rcases hcell.1 ⟨hvalue, hp⟩ with ⟨hvalue', hq⟩
    exact ⟨hvalue', hrow, hq⟩
  · rintro ⟨hvalue, hrow, hq⟩
    rcases hcell.2 ⟨hvalue, hq⟩ with ⟨hvalue', hp⟩
    exact ⟨hvalue', hrow, hp⟩

/-! ## Writing -/

theorem mem_put {s : CellStore} {c x : Cell} :
    x ∈ (s.put c).toList ↔ x = c ∨ x.key ≠ c.key ∧ x ∈ s.toList := by
  rw [mem_toList, get?_put]
  split
  · rename_i hkey
    simp [hkey, eq_comm]
  · rename_i hkey
    have hne : x ≠ c := fun heq => hkey (heq ▸ rfl)
    simp [hne, Ne.symm hkey, mem_toList]

theorem mem_remove {s : CellStore} {c x : Cell} :
    x ∈ (s.remove c).toList ↔ x.key ≠ c.key ∧ x ∈ s.toList := by
  rw [mem_toList, get?_remove]
  split
  · rename_i hkey
    simp [hkey]
  · rename_i hkey
    simp [Ne.symm hkey, mem_toList]

/-- Between two stores only one transaction wrote, and no marker was resolved. -/
structure WrittenBy (id : Timestamp) (s s' : CellStore) : Prop where
  others {c : Cell} : c.timestamp ≠ id → (c ∈ s'.toList ↔ c ∈ s.toList)
  markers {c : Cell} : c.kind = .commitMarker → c ∈ s'.toList → c ∈ s.toList ∨ c.value = []

end CellStore

end SnapshotIsolation
