import SnapshotIsolation.SortedMap

/-!
# Look-ups in updated maps

Look-ups after an insertion by the equality of keys, the least key, maps cut down to the entries
that satisfy a condition, and maps laid over one another.

Main results:

- Theorem {lit}`SortedMap.minKey?_eq_some_iff`: the least key is the one with none below it.
- Theorem {lit}`SortedMap.get?_filter`: a look-up in a map that was cut down.
- Theorem {lit}`SortedMap.get?_overlaid`: a look-up in a map that lies over another.
- Theorem {lit}`SortedMap.entries_filter_congr`: maps that agree on the entries that count are
  cut down to the same entries.
-/

namespace SnapshotIsolation

namespace SortedMap

variable {κ ν : Type} [Ord κ]

/-- The map with only the entries that satisfy a condition. -/
def filter (p : κ → ν → Bool) (m : SortedMap κ ν) : SortedMap κ ν where
  entries := m.entries.filter fun e => p e.1 e.2
  ascending := m.ascending.filter _

/-- The map with a function applied to every value. -/
def map (f : ν → ν) (m : SortedMap κ ν) : SortedMap κ ν where
  entries := m.entries.map fun e => (e.1, f e.2)
  ascending := List.pairwise_map.2 m.ascending

theorem get?_map (f : ν → ν) (m : SortedMap κ ν) (k : κ) :
    (m.map f).get? k = (m.get? k).map f := by
  simp only [get?, map, List.find?_map, Option.map_map]
  rfl

variable [Std.LawfulEqOrd κ]

theorem get?_filter (p : κ → ν → Bool) (m : SortedMap κ ν) (k : κ) :
    (m.filter p).get? k = (m.get? k).filter (p k) := by
  cases hm : m.get? k with
  | none =>
    rw [get?_eq_none_iff] at hm
    rw [Option.filter_none, get?_eq_none_iff]
    intro v hv
    exact hm v (List.mem_filter.1 hv).1
  | some v =>
    have hmem : (k, v) ∈ m.entries := get?_eq_some_iff.1 hm
    by_cases hp : p k v
    · rw [Option.filter_some_pos hp, get?_eq_some_iff]
      exact List.mem_filter.2 ⟨hmem, hp⟩
    · rw [Option.filter_some_neg (Bool.eq_false_iff.2 hp), get?_eq_none_iff]
      intro w hw
      rcases List.mem_filter.1 hw with ⟨hw, hpw⟩
      obtain rfl : v = w := by simpa [get?_eq_some_iff.2 hw] using hm.symm
      exact hp hpw

theorem contains_iff {m : SortedMap κ ν} {k : κ} :
    m.contains k = true ↔ ∃ v, (k, v) ∈ m.entries := by
  simp only [contains, Option.isSome_iff_exists, get?_eq_some_iff]

theorem contains_erase {m : SortedMap κ ν} {k k' : κ} :
    (m.erase k).contains k' = true ↔ k' ≠ k ∧ m.contains k' = true := by
  simp only [contains, get?_erase, Std.LawfulEqCmp.compare_eq_iff_eq]
  split <;> simp_all

theorem minKey?_eq_none_iff {m : SortedMap κ ν} :
    m.minKey? = none ↔ ∀ k, ¬ m.contains k = true := by
  simp only [minKey?, contains_iff, Option.map_eq_none_iff, List.head?_eq_none_iff]
  constructor
  · intro hnone k
    simp [hnone]
  · intro hnone
    apply List.eq_nil_iff_forall_not_mem.2
    exact fun e he => hnone e.1 ⟨e.2, he⟩

variable [Std.TransOrd κ]

@[simp]
theorem get?_insert_self (m : SortedMap κ ν) (k : κ) (v : ν) : (m.insert k v).get? k = some v := by
  simp [get?_insert]

theorem get?_insert_of_ne (m : SortedMap κ ν) {k k' : κ} (v : ν) (h : k' ≠ k) :
    (m.insert k v).get? k' = m.get? k' := by
  rw [get?_insert, if_neg]
  intro heq
  exact h (Std.LawfulEqOrd.eq_of_compare heq).symm

/-- What is found after an insertion was inserted or found before. -/
theorem eq_or_get?_of_insert {m : SortedMap κ ν} {k k' : κ} {v w : ν}
    (h : (m.insert k v).get? k' = some w) : k' = k ∧ w = v ∨ m.get? k' = some w := by
  by_cases hk : k' = k
  · subst hk
    rw [get?_insert_self, Option.some.injEq] at h
    exact .inl ⟨rfl, h.symm⟩
  · rw [get?_insert_of_ne m v hk] at h
    exact .inr h

theorem contains_insert {m : SortedMap κ ν} {k k' : κ} {v : ν} :
    (m.insert k v).contains k' = true ↔ k' = k ∨ m.contains k' = true := by
  by_cases hk : k' = k
  · subst hk
    simp [contains]
  · simp [contains, get?_insert_of_ne m v hk, hk]

/-- The entries of a map over those of another. -/
def overlaid (m n : SortedMap κ ν) : SortedMap κ ν :=
  m.entries.foldr (fun e n => n.insert e.1 e.2) n

theorem get?_overlaid (m n : SortedMap κ ν) (k : κ) :
    (m.overlaid n).get? k = (m.get? k).or (n.get? k) := by
  rw [overlaid, get?.eq_1 m]
  induction m.entries with
  | nil => rfl
  | cons e entries ih =>
    rw [List.foldr_cons, get?_insert, ih]
    by_cases hkey : compare e.1 k = .eq
    · simp [hkey]
    · simp [hkey]

theorem get?_overlaid_of_some {m : SortedMap κ ν} {k : κ} {v : ν} (h : m.get? k = some v)
    (n : SortedMap κ ν) : (m.overlaid n).get? k = some v := by
  rw [get?_overlaid, h, Option.some_or]

theorem get?_overlaid_of_none {m : SortedMap κ ν} {k : κ} (h : m.get? k = none)
    (n : SortedMap κ ν) : (m.overlaid n).get? k = n.get? k := by
  rw [get?_overlaid, h, Option.none_or]

/-- The least key is the one that no other key lies below. -/
theorem minKey?_eq_some_iff {m : SortedMap κ ν} {k : κ} :
    m.minKey? = some k ↔ m.contains k = true ∧ ∀ k', m.contains k' = true → compare k' k ≠ .lt := by
  rcases m with ⟨_ | ⟨e, rest⟩, hascending⟩
  · simp [minKey?, contains_iff]
  · have habove := (List.pairwise_cons.1 hascending).1
    simp only [minKey?, List.head?_cons, Option.map_some, Option.some.injEq, contains_iff]
    constructor
    · rintro rfl
      refine ⟨⟨e.2, List.mem_cons_self⟩, ?_⟩
      rintro k' ⟨v, hmem⟩ hbelow
      rcases List.mem_cons.1 hmem with rfl | hmem
      · simp at hbelow
      · exact Std.OrientedCmp.not_lt_of_lt (habove _ hmem) hbelow
    · rintro ⟨⟨v, hmem⟩, hleast⟩
      rcases List.mem_cons.1 hmem with rfl | hmem
      · rfl
      · exact absurd (habove _ hmem) (hleast e.1 ⟨e.2, List.mem_cons_self⟩)

/-- Maps that agree on the entries that count are cut down to the same entries. -/
theorem entries_filter_congr {p q : κ → ν → Bool} {m n : SortedMap κ ν}
    (h : ∀ k, (m.get? k).filter (p k) = (n.get? k).filter (q k)) :
    m.entries.filter (fun e => p e.1 e.2) = n.entries.filter fun e => q e.1 e.2 := by
  have heq : m.filter p = n.filter q := by
    apply ext_get?
    intro k
    rw [get?_filter, get?_filter, h]
  exact congrArg entries heq

end SortedMap

end SnapshotIsolation
