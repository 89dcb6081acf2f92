import SnapshotIsolation.Proofs.Timestamp.Issuance

/-!
# Restarts near the limit

The last value that may be issued lies one below the limit, and a restart goes on above the stored
watermark, so it needs a watermark below the limit. No request to remember a timestamp stores a
higher one. A reservation does: its ceiling is cut off at the limit itself. Once a timestamp was
issued from such a block, no authority can be recovered over the store any more.

Main results:

- Theorem {lit}`Authority.Run.trans`: one history after the other.
- Theorem {lit}`Authority.Steady.floor_perform`: how one request takes the watermark to the limit.
- Theorem {lit}`Authority.floor_eq_limit_iff`: how a history does.
- Theorem {lit}`Authority.restarts_succeed_until_exhausted`: which histories can be followed by a
  restart.
-/

namespace SnapshotIsolation

namespace Authority

variable {ω : Type} [WatermarkStore ω] [LawfulWatermarkStore ω] {a b c : Authority ω}
  {events later : List Event} {event : Option Event} {call : Call} {ts : Timestamp}

theorem Run.trans (h : Run a events b) (hlater : Run b later c) : Run a (events ++ later) c := by
  induction hlater with
  | nil =>
    rw [List.append_nil]
    exact h
  | answered _ hcall ih =>
    rw [← List.append_assoc]
    exact ih.answered hcall
  | refused _ hcall ih => exact ih.refused hcall
  | disturbed _ hkept ih => exact ih.disturbed hkept
  | crashed _ hcut hkept hrecover ih => exact ih.crashed hcut hkept hrecover

/-! ## Reaching the limit -/

/-- The next timestamp needs a fresh block, and the block reaches the limit. -/
structure Exhausts (a : Authority ω) : Prop where
  uncovered : a.reserved < a.counter
  reaches : Timestamp.limit.toNat ≤ a.counter.toNat + (a.blockSize.toNat - 1)

/-- In the course of a history a timestamp was issued from a fresh block that reaches the limit. -/
def Exhausted (a : Authority ω) (events : List Event) (b : Authority ω) : Prop :=
  ∃ before c ts c' later, Run a before c ∧ Exhausts c ∧ next.run c = .ok ts c' ∧ Run c' later b ∧
    events = before ++ .issued ts :: later

theorem Exhausted.trans (h : Exhausted a events b) (hlater : Run b later c) :
    Exhausted a (events ++ later) c := by
  rcases h with ⟨before, c₀, ts, c', rest, hbefore, hexhausts, hnext, hrest, rfl⟩
  exact ⟨before, c₀, ts, c', rest ++ later, hbefore, hexhausts, hnext, hrest.trans hlater,
    by rw [List.append_assoc, List.cons_append]⟩

/-- A timestamp is issued from a block that was reserved or from a fresh one. -/
theorem floor_of_next (hnext : next.run a = .ok ts b) :
    (a.reserved < a.counter ∧ floor b.watermarks = ⟨ceiling a.counter a.blockSize⟩) ∨
      (¬ a.reserved < a.counter ∧ floor b.watermarks = floor a.watermarks) := by
  rw [run_next] at hnext
  split at hnext
  · cases hnext
  · split at hnext
    · rename_i hreserve
      split at hnext
      · rename_i hstore
        cases hnext
        exact .inl ⟨hreserve, by rw [floor, LawfulWatermarkStore.store_ok hstore, Option.getD_some]⟩
      · cases hnext
    · rename_i hcovered
      cases hnext
      exact .inr ⟨hcovered, rfl⟩

theorem floor_of_remember (hremember : (remember ts).run a = .ok () b) :
    ts < Timestamp.limit ∧ floor b.watermarks = ⟨max a.reserved ts.raw⟩ := by
  rw [run_remember] at hremember
  split at hremember
  · cases hremember
  · rename_i hroom
    split at hremember
    · rename_i hstore
      cases hremember
      refine ⟨lt_of_not_ge hroom, ?_⟩
      rw [floor, LawfulWatermarkStore.store_ok hstore, Option.getD_some]
    · cases hremember

theorem Exhausts.floor_of_next (h : Exhausts a)
    (hnext : next.run a = .ok ts b) : floor b.watermarks = Timestamp.limit := by
  rcases Authority.floor_of_next hnext with ⟨_, hfloor⟩ | ⟨hcovered, _⟩
  · rw [hfloor, ceiling, if_pos h.reaches]
  · exact absurd h.uncovered hcovered

/-- Only issuing a timestamp from a block that reaches the limit takes the watermark there. -/
theorem Steady.floor_perform (h : Steady a) (hfloor : floor a.watermarks ≤ Timestamp.limit)
    (hcall : (perform call).run a = .ok event b) :
    floor b.watermarks ≤ Timestamp.limit ∧ (floor b.watermarks = Timestamp.limit →
      floor a.watermarks = Timestamp.limit ∨
        ∃ ts, event = some (.issued ts) ∧ Exhausts a ∧ next.run a = .ok ts b) := by
  rcases perform_cases hcall with
    ⟨ts, hnext, rfl⟩ | ⟨ts, hremember, rfl⟩ | ⟨rfl, rfl⟩ | ⟨blockSize, hrecover, rfl⟩
  · rcases floor_of_next hnext with ⟨hreserve, hblock⟩ | ⟨_, hsame⟩
    · have hceiling : Timestamp.toNat ⟨ceiling a.counter a.blockSize⟩ =
          min (a.counter.toNat + (a.blockSize.toNat - 1)) Timestamp.limit.toNat :=
        toNat_ceiling h.block_pos
      rw [hblock, Timestamp.le_iff_toNat_le, ← Timestamp.toNat_inj, hceiling]
      refine ⟨Nat.min_le_right _ _, fun hlimit => .inr ⟨ts, rfl, ⟨hreserve, ?_⟩, hnext⟩⟩
      omega
    · rw [hsame]
      exact ⟨hfloor, .inl⟩
  · rcases floor_of_remember hremember with ⟨hroom, hmax⟩
    have hkept : Timestamp.toNat ⟨max a.reserved ts.raw⟩ = max a.reserved.toNat ts.toNat :=
      Timestamp.toNat_max _ _
    have hlt : ts.toNat < Timestamp.limit.toNat := Timestamp.lt_iff_toNat_lt.1 hroom
    rw [h.floor_eq, Timestamp.le_iff_toNat_le] at hfloor
    rw [hmax, h.floor_eq, Timestamp.le_iff_toNat_le, ← Timestamp.toNat_inj, ← Timestamp.toNat_inj,
      hkept]
    simp only [Timestamp.toNat] at hfloor hlt ⊢
    exact ⟨by omega, fun hlimit => .inl (by omega)⟩
  · exact ⟨hfloor, .inl⟩
  · rw [(recover_eq_ok hrecover).1]
    exact ⟨hfloor, .inl⟩

/-- A refused request and a change of the store that keeps its watermark leave the floor. -/
theorem floor_congr {w w' : ω}
    (h : LawfulWatermarkStore.kept w' = LawfulWatermarkStore.kept w) : floor w' = floor w := by
  rw [floor, floor, h]

/-- A restart finds a watermark below the limit. -/
theorem floor_lt_limit_of_recover {w : ω} {blockSize : UInt64} (h : recover w blockSize = .ok b) :
    floor b.watermarks < Timestamp.limit := by
  rcases recover_eq_ok h with ⟨rfl, hsteady, hcounter⟩
  have hbound := hsteady.counter_le_limit
  exact Timestamp.lt_iff_toNat_lt.2 (by omega)

/-- A history keeps the watermark at or below the limit, and takes it there only by issuing a
timestamp from a block that reaches the limit. -/
theorem floor_of_run (h : Steady a) (hfloor : floor a.watermarks < Timestamp.limit)
    (hrun : Run a events b) :
    floor b.watermarks ≤ Timestamp.limit ∧
      (floor b.watermarks = Timestamp.limit → Exhausted a events b) := by
  induction hrun with
  | nil => exact ⟨le_of_lt hfloor, fun hlimit => absurd hlimit (ne_of_lt hfloor)⟩
  | @answered events b b' call event hrun hcall ih =>
    rcases ih with ⟨hle, hexhausted⟩
    rcases (Advances.of_run h hrun).steady.floor_perform hle hcall with ⟨hle', hcauses⟩
    refine ⟨hle', fun hlimit => ?_⟩
    rcases hcauses hlimit with hbefore | ⟨ts, rfl, hexhausts, hnext⟩
    · exact (hexhausted hbefore).trans (.answered .nil hcall)
    · exact ⟨events, b, ts, b', [], hrun, hexhausts, hnext, .nil, rfl⟩
  | @refused events b b' call e hrun hcall ih =>
    rw [floor_congr (Unmoved.of_perform hcall).kept]
    have hstep : Run b [] b' := .refused .nil hcall
    exact ⟨ih.1, fun hlimit => List.append_nil events ▸ (ih.2 hlimit).trans hstep⟩
  | @disturbed events b w hrun hkept ih =>
    rw [floor_congr hkept]
    have hstep : Run b [] { b with watermarks := w } := .disturbed .nil hkept
    exact ⟨ih.1, fun hlimit => List.append_nil events ▸ (ih.2 hlimit).trans hstep⟩
  | crashed _ _ _ hrecover _ =>
    have hbelow := floor_lt_limit_of_recover hrecover
    exact ⟨le_of_lt hbelow, fun hlimit => absurd hlimit (ne_of_lt hbelow)⟩

/-- The watermark ends up at the limit exactly if a timestamp was issued from a block that reaches
the limit. -/
theorem floor_eq_limit_iff (h : Steady a) (hfloor : floor a.watermarks < Timestamp.limit)
    (hrun : Run a events b) : floor b.watermarks = Timestamp.limit ↔ Exhausted a events b := by
  rcases floor_of_run h hfloor hrun with ⟨hle, hexhausted⟩
  refine ⟨hexhausted, ?_⟩
  rintro ⟨before, c, ts, c', later, hbefore, hexhausts, hnext, hlater, _⟩
  have hsteady := ((Advances.of_run h hbefore).steady.advances_next hnext).steady
  have hreached := (Advances.of_run hsteady hlater).floor_le
  rw [hexhausts.floor_of_next hnext] at hreached
  exact le_antisymm hle hreached

/-! ## Restarts -/

theorem recover_of_load {w : ω} {found : Option Timestamp}
    (hload : WatermarkStore.load w = .ok found) (blockSize : UInt64) :
    recover w blockSize =
      if Timestamp.limit ≤ floor w then .error (.overflow (floor w).raw)
      else .ok ⟨(floor w).raw + 1, (floor w).raw, if blockSize = 0 then 1 else blockSize, w⟩ := by
  have hfound : found.getD .zero = floor w := by rw [floor, LawfulWatermarkStore.load_ok hload]
  simp only [recover, hload, bind, Except.bind, hfound]
  split <;> rfl

/-- Whatever is asked of an authority and however often it is restarted, it can be restarted again
and goes on above everything issued and remembered, unless a timestamp was issued from a block that
reaches the limit. In that case no authority can be recovered any more. -/
theorem restarts_succeed_until_exhausted {w : ω} {blockSize : UInt64} {found : Option Timestamp}
    (hstart : recover w blockSize = .ok a) (hrun : Run a events b)
    (hload : WatermarkStore.load b.watermarks = .ok found) (again : UInt64) :
    (¬ Exhausted a events b → ∃ c, recover b.watermarks again = .ok c ∧
      ∀ x ∈ events, x.timestamp < c.current) ∧
    (Exhausted a events b →
      recover b.watermarks again = .error (.overflow Timestamp.limit.raw)) := by
  have hsteady : Steady a := (recover_eq_ok hstart).2.1
  have hbelow := floor_lt_limit_of_recover hstart
  have hiff := floor_eq_limit_iff hsteady hbelow hrun
  have hadvances := Advances.of_run hsteady hrun
  rw [recover_of_load hload]
  constructor
  · intro hnot
    have hroom : floor b.watermarks < Timestamp.limit :=
      lt_of_le_of_ne (floor_of_run hsteady hbelow hrun).1 (mt hiff.1 hnot)
    rw [if_neg (not_le_of_gt hroom)]
    refine ⟨_, rfl, fun x hx => ?_⟩
    have hnext : ((floor b.watermarks).raw + 1).toNat = (floor b.watermarks).toNat + 1 :=
      Timestamp.toNat_raw_add_one hroom
    have hx := hadvances.below x hx
    have hreserved := hadvances.steady.counter_le
    rw [Timestamp.lt_iff_toNat_lt]
    show x.timestamp.toNat < ((floor b.watermarks).raw + 1).toNat
    rw [hnext, hadvances.steady.floor_eq]
    exact Nat.lt_of_lt_of_le hx hreserved
  · intro hexhausted
    rw [hiff.2 hexhausted, if_pos (le_refl _)]

/-- With blocks of one, the last two timestamps are issued and the next one is refused. The
authority can still be restarted, with the limit itself as the next value. -/
theorem restarts_succeed_until_exhausted_lastTimestamps :
    ∃ b c : Authority MemoryWatermark,
      Run ⟨1, 0, 1, .ofValue none⟩ [.remembered ⟨0x7FFFFFFFFFFFFFFC⟩, .issued ⟨0x7FFFFFFFFFFFFFFD⟩,
        .issued ⟨0x7FFFFFFFFFFFFFFE⟩] b ∧
      next.run b = .error (.overflow Timestamp.limit.raw) b ∧
      recover b.watermarks 1024 = .ok c ∧ c.current = Timestamp.limit ∧
      ∀ x ∈ [Event.remembered ⟨0x7FFFFFFFFFFFFFFC⟩, .issued ⟨0x7FFFFFFFFFFFFFFD⟩,
        .issued ⟨0x7FFFFFFFFFFFFFFE⟩], x.timestamp < c.current := by
  have hstart : recover (MemoryWatermark.ofValue none) 1 = .ok ⟨1, 0, 1, .ofValue none⟩ := rfl
  have hremember : (perform (.remember ⟨0x7FFFFFFFFFFFFFFC⟩)).run
      (⟨1, 0, 1, .ofValue none⟩ : Authority MemoryWatermark) =
      .ok (some (.remembered ⟨0x7FFFFFFFFFFFFFFC⟩)) ⟨0x7FFFFFFFFFFFFFFD, 0x7FFFFFFFFFFFFFFC, 1,
        .ofValue (some ⟨0x7FFFFFFFFFFFFFFC⟩)⟩ := rfl
  have hissue : (perform .next).run (⟨0x7FFFFFFFFFFFFFFD, 0x7FFFFFFFFFFFFFFC, 1,
      .ofValue (some ⟨0x7FFFFFFFFFFFFFFC⟩)⟩ : Authority MemoryWatermark) =
      .ok (some (.issued ⟨0x7FFFFFFFFFFFFFFD⟩)) ⟨0x7FFFFFFFFFFFFFFE, 0x7FFFFFFFFFFFFFFD, 1,
        .ofValue (some ⟨0x7FFFFFFFFFFFFFFD⟩)⟩ := rfl
  have hlast : (perform .next).run (⟨0x7FFFFFFFFFFFFFFE, 0x7FFFFFFFFFFFFFFD, 1,
      .ofValue (some ⟨0x7FFFFFFFFFFFFFFD⟩)⟩ : Authority MemoryWatermark) =
      .ok (some (.issued ⟨0x7FFFFFFFFFFFFFFE⟩)) ⟨0x7FFFFFFFFFFFFFFF, 0x7FFFFFFFFFFFFFFE, 1,
        .ofValue (some ⟨0x7FFFFFFFFFFFFFFE⟩)⟩ := rfl
  have hrun := Run.answered (.answered (.answered .nil hremember) hissue) hlast
  have hload : WatermarkStore.load (MemoryWatermark.ofValue (some ⟨0x7FFFFFFFFFFFFFFE⟩)) =
      .ok (some ⟨0x7FFFFFFFFFFFFFFE⟩) := rfl
  rcases restarts_succeed_until_exhausted hstart hrun hload 1024 with ⟨hsucceeds, hfails⟩
  have hrecover : recover (MemoryWatermark.ofValue (some ⟨0x7FFFFFFFFFFFFFFE⟩)) 1024 =
      .ok ⟨0x7FFFFFFFFFFFFFFF, 0x7FFFFFFFFFFFFFFE, 1024,
        .ofValue (some ⟨0x7FFFFFFFFFFFFFFE⟩)⟩ := rfl
  rcases hsucceeds (fun hexhausted => nomatch hrecover.symm.trans (hfails hexhausted)) with
    ⟨c, hc, habove⟩
  obtain rfl := Except.ok.inj (hrecover.symm.trans hc)
  exact ⟨_, _, hrun, rfl, hrecover, rfl, habove⟩

/-- In a block of all values there are, the first timestamp is the last: over the store of an
authority that issued it none can be recovered. -/
theorem first_timestamp_exhausts :
    ∃ a b : Authority MemoryWatermark,
      recover (.ofValue none) 0x7FFFFFFFFFFFFFFF = .ok a ∧ Run a [.issued ⟨1⟩] b ∧
        WatermarkStore.load b.watermarks = .ok (some Timestamp.limit) ∧
        ∀ again, recover b.watermarks again = .error (.overflow Timestamp.limit.raw) := by
  have hstart : recover (MemoryWatermark.ofValue none) 0x7FFFFFFFFFFFFFFF =
      .ok ⟨1, 0, 0x7FFFFFFFFFFFFFFF, .ofValue none⟩ := rfl
  have hissue : (perform .next).run
      (⟨1, 0, 0x7FFFFFFFFFFFFFFF, .ofValue none⟩ : Authority MemoryWatermark) =
      .ok (some (.issued ⟨1⟩)) ⟨2, 0x7FFFFFFFFFFFFFFF, 0x7FFFFFFFFFFFFFFF,
        .ofValue (some Timestamp.limit)⟩ := rfl
  exact ⟨_, _, hstart, .answered .nil hissue, rfl, fun _ => rfl⟩

end Authority

end SnapshotIsolation
