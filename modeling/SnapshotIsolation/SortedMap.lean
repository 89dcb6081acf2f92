/-!
# Sorted maps

A finite map kept as the list of its entries in strictly ascending order of their keys.
The order is part of the type, so two maps with the same look-ups are equal, and walking a
map always meets its keys in order.

Main results:

- Theorems `SortedMap.get?_insert` and `SortedMap.get?_erase`: what a look-up finds after an
  update.
- Theorem `SortedMap.get?_eq_some_iff`: look-ups are membership among the entries.
- Theorem `SortedMap.ext_get?`: maps with the same look-ups are equal.
-/

namespace SnapshotIsolation

/-- A finite map from `κ` to `ν`: its entries, strictly ascending by key. -/
structure SortedMap (κ ν : Type) [Ord κ] where
  /-- The entries in order. -/
  entries : List (κ × ν)
  /-- Keys ascend strictly. -/
  ascending : entries.Pairwise fun a b => compare a.1 b.1 = .lt

namespace SortedMap

variable {κ ν : Type} [Ord κ]

/-- The map without entries. -/
def empty : SortedMap κ ν where
  entries := []
  ascending := .nil

instance : EmptyCollection (SortedMap κ ν) := ⟨empty⟩
instance : Inhabited (SortedMap κ ν) := ⟨empty⟩

/-- Number of entries. -/
def size (m : SortedMap κ ν) : Nat := m.entries.length

/-- The keys in ascending order. -/
def keys (m : SortedMap κ ν) : List κ := m.entries.map (·.1)

/-- The values in ascending order of their keys. -/
def values (m : SortedMap κ ν) : List ν := m.entries.map (·.2)

/-- The least key. -/
def minKey? (m : SortedMap κ ν) : Option κ := m.entries.head?.map (·.1)

/-- The value stored under a key. -/
def get? (m : SortedMap κ ν) (k : κ) : Option ν :=
  (m.entries.find? fun e => compare e.1 k == .eq).map (·.2)

/-- Whether a key has a value. -/
def contains (m : SortedMap κ ν) (k : κ) : Bool := (m.get? k).isSome

/-- Puts an entry into an ascending list, in place of one with the same key. -/
def insertEntry (k : κ) (v : ν) : List (κ × ν) → List (κ × ν)
  | [] => [(k, v)]
  | e :: rest =>
    match compare k e.1 with
    | .lt => (k, v) :: e :: rest
    | .eq => (k, v) :: rest
    | .gt => e :: insertEntry k v rest

/-- Members of the list after an insertion are the new entry and old ones. -/
theorem mem_insertEntry {k : κ} {v : ν} {l : List (κ × ν)} {x : κ × ν}
    (h : x ∈ insertEntry k v l) : x = (k, v) ∨ x ∈ l := by
  induction l with
  | nil => simpa [insertEntry] using h
  | cons e rest ih =>
    unfold insertEntry at h
    split at h
    · simpa using h
    · rcases List.mem_cons.1 h with h | h
      · exact .inl h
      · exact .inr (List.mem_cons_of_mem _ h)
    · rcases List.mem_cons.1 h with h | h
      · exact .inr (h ▸ List.mem_cons_self)
      · exact (ih h).imp id (List.mem_cons_of_mem _)

/-- Insertion keeps the list ascending. -/
theorem ascending_insertEntry [Std.TransOrd κ] [Std.LawfulEqOrd κ] {k : κ} {v : ν}
    {l : List (κ × ν)} (h : l.Pairwise fun a b => compare a.1 b.1 = .lt) :
    (insertEntry k v l).Pairwise fun a b => compare a.1 b.1 = .lt := by
  induction l with
  | nil => simp [insertEntry]
  | cons e rest ih =>
    obtain ⟨above, sorted⟩ := List.pairwise_cons.1 h
    unfold insertEntry
    split
    · next hlt =>
      refine List.pairwise_cons.2 ⟨fun x hx => ?_, h⟩
      rcases List.mem_cons.1 hx with rfl | hx
      · exact hlt
      · exact Std.TransCmp.lt_trans hlt (above x hx)
    · next heq =>
      have hk : k = e.1 := Std.LawfulEqCmp.compare_eq_iff_eq.1 heq
      exact List.pairwise_cons.2 ⟨fun x hx => hk ▸ above x hx, sorted⟩
    · next hgt =>
      refine List.pairwise_cons.2 ⟨fun x hx => ?_, ih sorted⟩
      rcases mem_insertEntry hx with rfl | hx
      · exact Std.OrientedCmp.gt_iff_lt.1 hgt
      · exact above x hx

/-- The map with `v` stored under `k`. -/
def insert [Std.TransOrd κ] [Std.LawfulEqOrd κ] (m : SortedMap κ ν) (k : κ) (v : ν) :
    SortedMap κ ν where
  entries := insertEntry k v m.entries
  ascending := ascending_insertEntry m.ascending

/-- The map without the entry under `k`. -/
def erase (m : SortedMap κ ν) (k : κ) : SortedMap κ ν where
  entries := m.entries.filter fun e => compare e.1 k != .eq
  ascending := m.ascending.filter _

/-! ## Look-ups -/

@[simp]
theorem get?_empty (k : κ) : (empty : SortedMap κ ν).get? k = none := rfl

section Lawful

variable [Std.LawfulEqOrd κ]

/-- A look-up finds exactly the entries. -/
theorem get?_eq_some_iff {m : SortedMap κ ν} {k : κ} {v : ν} :
    m.get? k = some v ↔ (k, v) ∈ m.entries := by
  obtain ⟨l, h⟩ := m
  simp only [get?]
  induction l with
  | nil => simp
  | cons e rest ih =>
    obtain ⟨above, sorted⟩ := List.pairwise_cons.1 h
    by_cases he : e.1 = k
    · subst he
      have hself : compare e.1 e.1 = .eq := Std.ReflCmp.compare_self
      simp only [List.find?_cons, hself, List.mem_cons]
      constructor
      · rintro ⟨⟩
        exact .inl rfl
      · rintro (hv | hm)
        · obtain rfl : v = e.2 := congrArg Prod.snd hv
          rfl
        · have := above _ hm
          rw [hself] at this
          cases this
    · have hne : (compare e.1 k == Ordering.eq) = false :=
        beq_eq_false_iff_ne.2 fun hc => he (Std.LawfulEqCmp.compare_eq_iff_eq.1 hc)
      simp only [List.find?_cons, hne, List.mem_cons, ih sorted]
      constructor
      · exact .inr
      · rintro (rfl | hm)
        · exact absurd rfl he
        · exact hm

/-- Nothing is found exactly when no entry has the key. -/
theorem get?_eq_none_iff {m : SortedMap κ ν} {k : κ} :
    m.get? k = none ↔ ∀ v, (k, v) ∉ m.entries := by
  constructor
  · intro h v hm
    rw [get?_eq_some_iff.2 hm] at h
    cases h
  · intro h
    cases hv : m.get? k with
    | none => rfl
    | some v => exact absurd (get?_eq_some_iff.1 hv) (h v)

/-- After an erasure the key has no value and every other key what it had. -/
theorem get?_erase (m : SortedMap κ ν) (k k' : κ) :
    (m.erase k).get? k' = if compare k' k = .eq then none else m.get? k' := by
  split
  · next h => simp [get?_eq_none_iff, erase, h]
  · next h =>
    cases hv : m.get? k' with
    | none =>
      rw [get?_eq_none_iff] at hv ⊢
      intro w hm
      exact hv w ((List.mem_filter.1 hm).1)
    | some w =>
      rw [get?_eq_some_iff] at hv ⊢
      exact List.mem_filter.2 ⟨hv, by simpa using h⟩

variable [Std.TransOrd κ]

/-- Maps with the same look-ups are equal. -/
theorem ext_get? {m n : SortedMap κ ν} (h : ∀ k, m.get? k = n.get? k) : m = n := by
  have mem : ∀ e, e ∈ m.entries ↔ e ∈ n.entries := fun (k, v) => by
    rw [← get?_eq_some_iff, ← get?_eq_some_iff, h]
  obtain ⟨l, hl⟩ := m
  obtain ⟨r, hr⟩ := n
  simp only at mem
  congr
  clear h
  induction l generalizing r with
  | nil =>
    cases r with
    | nil => rfl
    | cons e r => exact absurd ((mem e).2 List.mem_cons_self) (by simp)
  | cons d l ih =>
    obtain ⟨dl, sl⟩ := List.pairwise_cons.1 hl
    cases r with
    | nil => exact absurd ((mem d).1 List.mem_cons_self) (by simp)
    | cons e r =>
      obtain ⟨er, sr⟩ := List.pairwise_cons.1 hr
      have irrefl : ∀ x : κ × ν, compare x.1 x.1 ≠ .lt := fun x h => by
        simp at h
      have hde : d = e := by
        rcases List.mem_cons.1 ((mem d).1 List.mem_cons_self) with hd | hd
        · exact hd
        · rcases List.mem_cons.1 ((mem e).2 List.mem_cons_self) with he | he
          · exact he.symm
          · exact absurd (Std.TransCmp.lt_trans (er d hd) (dl e he)) (irrefl e)
      subst hde
      rw [ih sl r sr fun x => ?_]
      have hx := mem x
      simp only [List.mem_cons] at hx
      constructor
      · intro hm
        rcases hx.1 (.inr hm) with rfl | hm'
        · exact absurd (dl _ hm) (irrefl _)
        · exact hm'
      · intro hm
        rcases hx.2 (.inr hm) with rfl | hm'
        · exact absurd (er _ hm) (irrefl _)
        · exact hm'

/-- The entries after an insertion: the new one and the old ones under other keys. -/
theorem mem_entries_insert {m : SortedMap κ ν} {k : κ} {v : ν} {x : κ × ν} :
    x ∈ (m.insert k v).entries ↔ x = (k, v) ∨ x.1 ≠ k ∧ x ∈ m.entries := by
  obtain ⟨l, h⟩ := m
  simp only [insert]
  induction l with
  | nil => simp [insertEntry]
  | cons e rest ih =>
    obtain ⟨above, sorted⟩ := List.pairwise_cons.1 h
    have ne_of_lt : ∀ {a b : κ}, compare a b = .lt → b ≠ a := fun hab hba => by
      subst hba
      simp at hab
    unfold insertEntry
    split
    · next hlt =>
      have hne : ∀ y ∈ e :: rest, y.1 ≠ k := fun y hy => by
        rcases List.mem_cons.1 hy with rfl | hy
        · exact ne_of_lt hlt
        · exact ne_of_lt (Std.TransCmp.lt_trans hlt (above y hy))
      rw [List.mem_cons]
      exact or_congr_right ⟨fun hx => ⟨hne x hx, hx⟩, And.right⟩
    · next heq =>
      have hk : k = e.1 := Std.LawfulEqCmp.compare_eq_iff_eq.1 heq
      subst hk
      rw [List.mem_cons]
      refine or_congr_right ⟨fun hx => ⟨ne_of_lt (above x hx), List.mem_cons_of_mem _ hx⟩, ?_⟩
      rintro ⟨hne, hx⟩
      rcases List.mem_cons.1 hx with rfl | hx
      · exact absurd rfl hne
      · exact hx
    · next hgt =>
      have hne : e.1 ≠ k := (ne_of_lt (Std.OrientedCmp.gt_iff_lt.1 hgt)).symm
      rw [List.mem_cons, ih sorted, List.mem_cons]
      constructor
      · rintro (rfl | rfl | ⟨hk, hx⟩)
        · exact .inr ⟨hne, .inl rfl⟩
        · exact .inl rfl
        · exact .inr ⟨hk, .inr hx⟩
      · rintro (rfl | ⟨hk, rfl | hx⟩)
        · exact .inr (.inl rfl)
        · exact .inl rfl
        · exact .inr (.inr ⟨hk, hx⟩)

/-- After an insertion the key has the new value and every other key what it had. -/
theorem get?_insert (m : SortedMap κ ν) (k k' : κ) (v : ν) :
    (m.insert k v).get? k' = if compare k k' = .eq then some v else m.get? k' := by
  split
  · next h =>
    have : k = k' := Std.LawfulEqCmp.compare_eq_iff_eq.1 h
    subst this
    exact get?_eq_some_iff.2 (mem_entries_insert.2 (.inl rfl))
  · next h =>
    have hne : k' ≠ k := fun hk => h (Std.LawfulEqCmp.compare_eq_iff_eq.2 hk.symm)
    cases hv : m.get? k' with
    | none =>
      rw [get?_eq_none_iff] at hv ⊢
      intro w hm
      rcases mem_entries_insert.1 hm with hw | ⟨_, hw⟩
      · exact hne (congrArg Prod.fst hw)
      · exact hv w hw
    | some w =>
      rw [get?_eq_some_iff] at hv ⊢
      exact mem_entries_insert.2 (.inr ⟨hne, hv⟩)

end Lawful

end SortedMap

end SnapshotIsolation
