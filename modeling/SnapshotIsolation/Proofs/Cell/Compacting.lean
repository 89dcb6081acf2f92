import SnapshotIsolation.Proofs.Cell.Order
import SnapshotIsolation.Proofs.Compaction

/-!
# Compactions in place

A compaction asks its hook for each row in turn. What the hook answers takes the place of the row
before the next one is asked for, so that a refusal finds the rows before it replaced and all others
untouched.

Main results:

- Theorem {lit}`CellStore.replaced_replaceRow`: what one row of a compaction does to the store.
- Theorem {lit}`CellStore.run_rows_of_calls`: what a run over some rows does.
- Theorem {lit}`CellStore.compact_is_in_place`: what a compaction leaves behind, for any hook.
-/

namespace SnapshotIsolation

namespace CellStore

variable {σ : Type} {hook : Hook σ} {s s' s₁ : CellStore} {c x : Cell} {r : Bytes}
  {rows : List Bytes} {before after : List Cell} {replies : List (List Cell)}

/-! ## Hooks -/

/-- A hook that moves no cell: if it answers with as many cells as it was given, they stand where
those did. -/
def Hook.KeepsPlaces (hook : Hook σ) : Prop :=
  ∀ cells t after t', (hook cells).run t = .ok after t' → after.length = cells.length →
    after.map Cell.key = cells.map Cell.key

/-- A hook is given some rows one after the other and answers each with as many cells. -/
inductive Hook.Calls (hook : Hook σ) : σ → List (List Cell) → List (List Cell) → σ → Prop
  | done (t : σ) : Calls hook t [] [] t
  | call {t t' t'' : σ} {cells after : List Cell} {batches replies : List (List Cell)} :
      (hook cells).run t = .ok after t' → after.length = cells.length →
      Calls hook t' batches replies t'' → Calls hook t (cells :: batches) (after :: replies) t''

/-- A hook answers all rows, or there is a first one that it refuses. -/
theorem Hook.calls_or_refuses (hook : Hook σ) (t : σ) (s : CellStore) (rows : List Bytes) :
    (∃ replies t', hook.Calls t (rows.map s.row) replies t') ∨
    ∃ passed r later replies t' e t'', rows = passed ++ r :: later ∧
      hook.Calls t (passed.map s.row) replies t' ∧ hook.Refuses t' (s.row r) e t'' := by
  induction rows generalizing t with
  | nil => exact .inl ⟨[], t, .done t⟩
  | cons r rows ih =>
    cases hrun : (hook (s.row r)).run t with
    | error e t' => exact .inr ⟨[], r, rows, [], t, e, t', rfl, .done t, .failed hrun⟩
    | ok after t₁ =>
      by_cases hlength : after.length = (s.row r).length
      · rcases ih t₁ with ⟨replies, t', hcalls⟩ |
          ⟨passed, r', later, replies, t', e, t'', rfl, hcalls, hrefuses⟩
        · exact .inl ⟨after :: replies, t', .call hrun hlength hcalls⟩
        · exact .inr ⟨r :: passed, r', later, after :: replies, t', e, t'', rfl,
            .call hrun hlength hcalls, hrefuses⟩
      · exact .inr ⟨[], r, rows, [], t, _, t₁, rfl, .done t, .misfit hrun hlength⟩

/-! ## One row -/

/-- Between two stores some rows were replaced in place. -/
structure Replaced (s : CellStore) (rows : List Bytes) (replies : List (List Cell))
    (s' : CellStore) : Prop where
  places : s'.toList.map Cell.key = s.toList.map Cell.key
  replaced : rows.map s'.row = replies
  others : ∀ r ∉ rows, s'.row r = s.row r

theorem Replaced.refl (s : CellStore) : Replaced s [] [] s :=
  ⟨rfl, rfl, fun _ _ => rfl⟩

/-- What is replaced later leaves the rows that were replaced before. -/
theorem Replaced.cons (h : Replaced s [r] [after] s₁) (hnew : r ∉ rows)
    (h' : Replaced s₁ rows replies s') : Replaced s (r :: rows) (after :: replies) s' := by
  constructor
  · exact h'.places.trans h.places
  · rw [List.map_cons, h'.replaced, h'.others r hnew, (List.cons.inj h.replaced).1]
  · intro r' hr'
    rw [List.mem_cons, not_or] at hr'
    rw [h'.others r' hr'.2, h.others r' (by simpa using hr'.1)]

theorem eq_iff_of_key (h : x.key = c.key) : x = c ↔ x.value = c.value := by
  constructor
  · rintro rfl
    rfl
  · intro hvalue
    rw [← Cell.cell_key x, ← Cell.cell_key c, h, hvalue]

theorem forall₂_key_iff : List.Forall₂ (fun c c' : Cell => c'.key = c.key) before after ↔
    after.map Cell.key = before.map Cell.key := by
  rw [eq_comm, ← List.forall₂_eq_eq_eq, List.forall₂_map_left_iff, List.forall₂_map_right_iff]
  simp only [eq_comm]

/-- The cells after some were replaced: those that took their place, and those elsewhere. -/
theorem mem_replaceRow (h : List.Forall₂ (fun c c' : Cell => c'.key = c.key) before after)
    (hnodup : (before.map Cell.key).Nodup) (hbefore : ∀ c ∈ before, c ∈ s.toList) :
    x ∈ (s.replaceRow before after).toList ↔
      x ∈ after ∨ x.key ∉ before.map Cell.key ∧ x ∈ s.toList := by
  induction h generalizing s with
  | nil => simp [replaceRow]
  | @cons c c' before after hkey _ ih =>
    rcases List.nodup_cons.1 hnodup with ⟨hfresh, hnodup'⟩
    have hone : ∀ y, y ∈ (if c.value = c'.value then s else s.put c').toList ↔
        y = c' ∨ y.key ≠ c.key ∧ y ∈ s.toList := by
      intro y
      split
      · rename_i hvalue
        have hsame : c' = c := (eq_iff_of_key hkey).2 hvalue.symm
        have hc := hbefore c List.mem_cons_self
        rw [hsame]
        constructor
        · intro hy
          by_cases hplace : y.key = c.key
          · exact .inl (eq_of_key_eq hy hc hplace)
          · exact .inr ⟨hplace, hy⟩
        · rintro (rfl | ⟨_, hy⟩)
          · exact hc
          · exact hy
      · rw [mem_put, hkey]
    have hrest : ∀ y ∈ before, y ∈ (if c.value = c'.value then s else s.put c').toList := by
      intro y hy
      refine (hone y).2 (.inr ⟨fun hplace => hfresh ?_, hbefore y (List.mem_cons_of_mem _ hy)⟩)
      exact hplace ▸ List.mem_map_of_mem hy
    show x ∈ (replaceRow before after _).toList ↔ _
    rw [ih hnodup' hrest, hone, List.map_cons, List.mem_cons, List.mem_cons, not_or]
    have hplace : x = c' → x.key ∉ before.map Cell.key := by
      rintro rfl
      rwa [hkey]
    tauto

theorem row_of_mem_map_key (h : x.key ∈ (s.row r).map Cell.key) : x.row = r := by
  rcases List.mem_map.1 h with ⟨c, hc, hkey⟩
  exact (congrArg Cell.Key.row hkey).symm.trans (mem_row.1 hc).1

theorem mem_keys_of_row {k : Cell.Key} (h : k ∈ (s.row r).map Cell.key) :
    k ∈ s.toList.map Cell.key := by
  rcases List.mem_map.1 h with ⟨c, hc, rfl⟩
  exact List.mem_map_of_mem (mem_row.1 hc).2

/-- The cells after a row was replaced. -/
theorem mem_replaceRow_row (h : after.map Cell.key = (s.row r).map Cell.key) :
    x ∈ (s.replaceRow (s.row r) after).toList ↔ x ∈ after ∨ x.row ≠ r ∧ x ∈ s.toList := by
  have hnodup : ((s.row r).map Cell.key).Nodup :=
    nodup_of_pairwise_compare id (List.pairwise_map.2 (pairwise_row s r))
  rw [mem_replaceRow (forall₂_key_iff.2 h) hnodup fun c hc => (mem_row.1 hc).2]
  refine or_congr_right (and_congr_left fun hx => not_congr ⟨row_of_mem_map_key, ?_⟩)
  intro hrow
  exact List.mem_map_of_mem (mem_row.2 ⟨hrow, hx⟩)

theorem places_replaceRow (h : after.map Cell.key = (s.row r).map Cell.key) :
    (s.replaceRow (s.row r) after).toList.map Cell.key = s.toList.map Cell.key := by
  apply eq_of_pairwise_compare id (List.pairwise_map.2 (toList_ascending _))
    (List.pairwise_map.2 (toList_ascending s))
  intro k
  constructor
  · intro hk
    rcases List.mem_map.1 hk with ⟨x, hx, rfl⟩
    rcases (mem_replaceRow_row h).1 hx with hx | ⟨_, hx⟩
    · exact mem_keys_of_row (h ▸ List.mem_map_of_mem hx)
    · exact List.mem_map_of_mem hx
  · intro hk
    rcases List.mem_map.1 hk with ⟨x, hx, rfl⟩
    by_cases hrow : x.row = r
    · have hold : x.key ∈ (s.row r).map Cell.key := List.mem_map_of_mem (mem_row.2 ⟨hrow, hx⟩)
      rw [← h] at hold
      rcases List.mem_map.1 hold with ⟨y, hy, hkey⟩
      exact List.mem_map.2 ⟨y, (mem_replaceRow_row h).2 (.inl hy), hkey⟩
    · exact List.mem_map_of_mem ((mem_replaceRow_row h).2 (.inr ⟨hrow, hx⟩))

/-- The row that is passed becomes what the hook answered for it, and nothing else changes. -/
theorem replaced_replaceRow (h : after.map Cell.key = (s.row r).map Cell.key) :
    Replaced s [r] [after] (s.replaceRow (s.row r) after) := by
  have hrow : ∀ x ∈ after, x.row = r :=
    fun x hx => row_of_mem_map_key (h ▸ List.mem_map_of_mem hx)
  have hkeys : (after.map Cell.key).Pairwise fun a b => compare a b = .lt :=
    h ▸ List.pairwise_map.2 (pairwise_row s r)
  refine ⟨places_replaceRow h, ?_, ?_⟩
  · rw [List.map_singleton, List.singleton_inj]
    apply eq_of_pairwise_compare Cell.key (pairwise_row _ r) (List.pairwise_map.1 hkeys)
    intro x
    rw [mem_row, mem_replaceRow_row h]
    have := hrow x
    tauto
  · intro r' hr'
    have hne : r' ≠ r := by simpa using hr'
    apply eq_of_pairwise_compare Cell.key (pairwise_row _ r') (pairwise_row s r')
    intro x
    rw [mem_row, mem_row, mem_replaceRow_row h]
    constructor
    · rintro ⟨rfl, hx | ⟨_, hx⟩⟩
      · exact absurd (hrow x hx) hne
      · exact ⟨rfl, hx⟩
    · rintro ⟨rfl, hx⟩
      exact ⟨rfl, .inr ⟨hne, hx⟩⟩

/-- What is counted in a row are the cells that do not stand there any more as they did. -/
theorem countChanged_eq_countP (h : List.Forall₂ (fun c c' : Cell => c'.key = c.key) before after)
    (hafter : ∀ c ∈ after, c ∈ s'.toList) :
    countChanged before after = before.countP fun c => s'.get? c.key ≠ some c := by
  induction h with
  | nil => rfl
  | @cons c c' before after hkey _ ih =>
    have hc' : s'.get? c.key = some c' := hkey ▸ mem_toList.1 (hafter c' List.mem_cons_self)
    have hchanged : (c.value != c'.value) = decide (s'.get? c.key ≠ some c) := by
      simp only [hc', ne_eq, Option.some.injEq, eq_iff_of_key hkey, eq_comm (b := c.value),
        bne, Bool.beq_eq_decide_eq, decide_not]
    have hrest := ih fun c hc => hafter c (List.mem_cons_of_mem _ hc)
    rw [countChanged] at hrest ⊢
    rw [List.zip_cons_cons, List.countP_cons, List.countP_cons, hrest, hchanged]

/-! ## Runs -/

/-- A run over rows that the hook answers replaces each of them and counts what changed. -/
theorem run_rows_of_calls (hplaces : hook.KeepsPlaces) (hnodup : rows.Nodup) {t t' : σ}
    (h : hook.Calls t (rows.map s.row) replies t') (total : CompactionOutcome) :
    ∃ s', Replaced s rows replies s' ∧ (rows.foldlM (compactRow hook) total).run (s, t) =
      .ok ⟨total.rows + rows.length, total.cells + (rows.flatMap s.row).length,
        total.changed + (rows.flatMap s.row).countP fun c => s'.get? c.key ≠ some c⟩ (s', t') := by
  induction rows generalizing s t total replies with
  | nil =>
    cases h
    exact ⟨s, .refl s, rfl⟩
  | cons r rows ih =>
    rcases List.nodup_cons.1 hnodup with ⟨hnew, hnodup'⟩
    rw [List.map_cons] at h
    cases h with
    | @call _ t₁ _ _ after _ replies hrun hlength hcalls =>
      have hkeys := hplaces _ _ _ _ hrun hlength
      have hrow := replaced_replaceRow hkeys
      have hnext := run_compactRow_of_ok hrun hlength total
      generalize s.replaceRow (s.row r) after = s₁ at hrow hnext
      -- the rows to come still stand as they did at the start
      have hlater : ∀ r' ∈ rows, s₁.row r' = s.row r' := by
        intro r' hr'
        apply hrow.others
        rw [List.mem_singleton]
        rintro rfl
        exact hnew hr'
      rw [← List.map_congr_left hlater] at hcalls
      obtain ⟨s', hreplaced, hrest⟩ := ih hnodup' hcalls
        ⟨total.rows + 1, total.cells + (s.row r).length, total.changed + countChanged (s.row r) after⟩
      have hcons := hrow.cons hnew hreplaced
      refine ⟨s', hcons, ?_⟩
      have hcount : countChanged (s.row r) after =
          (s.row r).countP fun c => s'.get? c.key ≠ some c := by
        apply countChanged_eq_countP (forall₂_key_iff.2 hkeys)
        intro c hc
        rw [← (List.cons.inj hcons.replaced).1] at hc
        exact (mem_row.1 hc).2
      have hcells : rows.flatMap s₁.row = rows.flatMap s.row := List.flatMap_congr hlater
      rw [List.foldlM_cons, Step.run_bind_of_ok hnext, hrest, hcells, hcount]
      simp only [List.flatMap_cons, List.length_cons, List.length_append, List.countP_append,
        Nat.add_assoc, Nat.add_comm 1]

end CellStore

/-! ## Passes over markers -/

namespace CompactionPass

theorem keepsPlaces_hook : hook.KeepsPlaces := by
  intro cells q after q' hrun _
  exact CellStore.forall₂_key_iff.1 ((remarks_of_run_hook hrun).imp fun _ _ => Cell.Remarks.key)

/-- A pass over markers refuses no row. -/
theorem not_refuses_hook (q : Registry × CompactionPass) (cells : List Cell) {e : StorageError}
    {q' : Registry × CompactionPass} : ¬ hook.Refuses q cells e q' := by
  intro h
  cases h with
  | failed hrun => rw [run_hook] at hrun; cases hrun
  | misfit hrun hlength => exact hlength (remarks_of_run_hook hrun).length_eq.symm

end CompactionPass

namespace CellStore

variable {σ : Type} {hook : Hook σ}

/-- A compaction whose hook answers every row replaces them all. -/
theorem run_compact_of_calls (hplaces : hook.KeepsPlaces) {s : CellStore} {t t' : σ}
    {replies : List (List Cell)} (h : hook.Calls t (s.rows.map s.row) replies t') :
    ∃ s', Replaced s s.rows replies s' ∧ (compact hook).run (s, t) =
      .ok ⟨s.rows.length, s.size, s.toList.countP fun c => s'.get? c.key ≠ some c⟩ (s', t') := by
  obtain ⟨s', hreplaced, hrun⟩ := run_rows_of_calls hplaces (nodup_rows s) h ⟨0, 0, 0⟩
  refine ⟨s', hreplaced, ?_⟩
  rw [run_compact_eq, hrun, size_eq_length_flatMap, flatMap_row_rows]
  simp only [Nat.zero_add]

/-- A compaction stops at the first row that the hook refuses and replaces those before it. -/
theorem run_compact_of_refuses (hplaces : hook.KeepsPlaces) {s : CellStore} {t t' t'' : σ}
    {passed later : List Bytes} {r : Bytes} {replies : List (List Cell)} {e : StorageError}
    (hrows : s.rows = passed ++ r :: later) (h : hook.Calls t (passed.map s.row) replies t')
    (hrefuses : hook.Refuses t' (s.row r) e t'') :
    ∃ s', Replaced s passed replies s' ∧ (compact hook).run (s, t) = .error e (s', t'') := by
  have hnodup : (passed ++ r :: later).Nodup := hrows ▸ nodup_rows s
  rcases List.nodup_append.1 hnodup with ⟨hpassed, _, hdisjoint⟩
  obtain ⟨s', hreplaced, hrun⟩ := run_rows_of_calls hplaces hpassed h ⟨0, 0, 0⟩
  have hsame : s'.row r = s.row r :=
    hreplaced.others r fun hr => hdisjoint r hr r List.mem_cons_self rfl
  rw [← hsame] at hrefuses
  refine ⟨s', hreplaced, ?_⟩
  rw [run_compact_eq, hrows, List.foldlM_append, Step.run_bind_of_ok hrun, List.foldlM_cons,
    Step.run_bind_of_error (run_compactRow_of_refuses hrefuses _)]

/-- What a compaction leaves behind. The hook is given the rows in ascending order, each as it
stood at the start. If it answers them all, their cells have the values that it gave, and what is
counted are all rows, all cells, and those whose value is another one. If there is a row that it is
the first to refuse, the compaction fails as it does, with the rows before replaced and all others
as they were. A pass over markers never fails. -/
theorem compact_is_in_place (hplaces : hook.KeepsPlaces) (s : CellStore) (t : σ) :
    s.rows.Pairwise (· < ·) ∧
    (∀ replies t', hook.Calls t (s.rows.map s.row) replies t' →
      ∃ s', Replaced s s.rows replies s' ∧ (compact hook).run (s, t) =
        .ok ⟨s.rows.length, s.size, s.toList.countP fun c => s'.get? c.key ≠ some c⟩ (s', t')) ∧
    (∀ passed r later replies t' e t'', s.rows = passed ++ r :: later →
      hook.Calls t (passed.map s.row) replies t' → hook.Refuses t' (s.row r) e t'' →
      ∃ s', Replaced s passed replies s' ∧ (compact hook).run (s, t) = .error e (s', t'')) ∧
    ((∃ replies t', hook.Calls t (s.rows.map s.row) replies t') ∨
      ∃ passed r later replies t' e t'', s.rows = passed ++ r :: later ∧
        hook.Calls t (passed.map s.row) replies t' ∧ hook.Refuses t' (s.row r) e t'') ∧
    ∀ (s : CellStore) q, ∃ outcome s' q',
      (compact CompactionPass.hook).run (s, q) = .ok outcome (s', q') := by
  refine ⟨rows_ascending s, fun _ _ => run_compact_of_calls hplaces,
    fun _ _ _ _ _ _ _ => run_compact_of_refuses hplaces, hook.calls_or_refuses t s s.rows, ?_⟩
  intro s q
  rcases CompactionPass.hook.calls_or_refuses q s s.rows with
    ⟨replies, q', hcalls⟩ | ⟨_, r, _, _, q', e, q'', _, _, hrefuses⟩
  · obtain ⟨s', _, hrun⟩ := run_compact_of_calls CompactionPass.keepsPlaces_hook hcalls
    exact ⟨_, s', q', hrun⟩
  · exact absurd hrefuses (CompactionPass.not_refuses_hook q' (s.row r))

/-- A hook that clears so many rows and has no answer for more. -/
def Hook.clearing : Hook Nat := fun cells n =>
  match n with
  | 0 => .ok [] 0
  | n + 1 => .ok (cells.map fun c => c.withValue []) n

theorem keepsPlaces_clearing : Hook.clearing.KeepsPlaces := by
  intro cells n after n' hrun hlength
  cases n with
  | zero =>
    cases hrun
    rw [List.eq_nil_of_length_eq_zero hlength.symm]
  | succ n =>
    cases hrun
    rw [List.map_map]
    rfl

/-- A store with a cell in each of two rows. -/
def twoRows : CellStore :=
  (empty.put (Cell.data [1] [0] ⟨3⟩ [7])).put (Cell.data [2] [0] ⟨3⟩ [8])

/-- A hook that clears one row leaves the second one as it was. -/
theorem compact_is_in_place_clearing : Hook.clearing.KeepsPlaces ∧
    ∃ s', Replaced twoRows [[1]] [[Cell.data [1] [0] ⟨3⟩ []]] s' ∧
      (compact Hook.clearing).run (twoRows, 1) =
        .error (.encoding (.batchSizeMismatch 1 0)) (s', 0) := by
  have hcalls : Hook.clearing.Calls 1 ([[1]].map twoRows.row) [[Cell.data [1] [0] ⟨3⟩ []]] 0 :=
    .call rfl rfl (.done 0)
  have hrun : (Hook.clearing (twoRows.row [2])).run 0 = .ok [] 0 := rfl
  exact ⟨keepsPlaces_clearing, (compact_is_in_place keepsPlaces_clearing twoRows 1).2.2.1 [[1]] [2]
    [] _ 0 _ 0 (by decide) hcalls (.misfit hrun (by decide))⟩

end CellStore

end SnapshotIsolation
