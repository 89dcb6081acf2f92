import SnapshotIsolation.Proofs.Outcome
import SnapshotIsolation.Proofs.Timestamp.Order
import SnapshotIsolation.Timestamp.Authority

/-!
# Issuing timestamps across restarts

A history of an authority is any sequence of requests and restarts over one watermark store.
Requests may fail because the store does, and a crash may fall between two requests or inside
one, after the watermark was written and before anything was issued.

Three counters move by different rules: the next value, the reserved ceiling and the stored
watermark.  They are tied together by {lit}`Authority.Steady`: the ceiling is what the store
holds, and the next value is at most one above it.

Main results:

- Theorem {lit}`Authority.Advances.of_run`: every history raises the next value and the
  watermark, and issues only above what it issued or remembered before.
- Theorem {lit}`Authority.history_never_reissues`: no timestamp is issued twice over any number
  of restarts, and a refused request changes nothing.
-/

namespace SnapshotIsolation

/-! ## Stores that keep what was stored -/

/-- A watermark store whose contents are one optional timestamp: reading it tells the contents,
a write that succeeds replaces them and a write that fails leaves them. -/
class LawfulWatermarkStore (ω : Type) [WatermarkStore ω] where
  kept : ω → Option Timestamp
  load_ok {w : ω} {found : Option Timestamp} (h : WatermarkStore.load w = .ok found) :
    found = kept w
  store_ok {w w' : ω} {ts : Timestamp} (h : (WatermarkStore.store ts).run w = .ok () w') :
    kept w' = some ts
  store_error {w w' : ω} {ts : Timestamp} {e : TimestampError}
    (h : (WatermarkStore.store ts).run w = .error e w') : kept w' = kept w

instance : LawfulWatermarkStore MemoryWatermark where
  kept m := m.value
  load_ok {m found} h := by
    unfold WatermarkStore.load MemoryWatermark.instWatermarkStore at h
    cases hfault : m.loadFault <;> simp_all
  store_ok {m m' ts} h := by
    unfold WatermarkStore.store MemoryWatermark.instWatermarkStore at h
    cases hfault : m.storeFault <;> simp [hfault] at h
    rw [← h]
  store_error {m m' ts e} h := by
    unfold WatermarkStore.store MemoryWatermark.instWatermarkStore at h
    cases hfault : m.storeFault <;> simp [hfault] at h
    rw [← h.2]

/-- A directory or a damaged file keeps nothing. -/
instance : LawfulWatermarkStore WatermarkFile where
  kept f := match f.load with
    | .ok found => found
    | .error _ => none
  load_ok {f found} h := by
    have hload : f.load = .ok found := h
    rw [hload]
  store_ok {f f' ts} h := by
    have hstore : (WatermarkFile.store ts).run f = .ok () f' := h
    unfold WatermarkFile.store at hstore
    by_cases htemp : f.temp = .directory
    · simp [htemp] at hstore
    · by_cases hnode : f.node = .directory
      · simp [htemp, hnode] at hstore
      · simp [htemp, hnode] at hstore
        rw [← hstore]
        simp [WatermarkFile.load, WatermarkFile.decode_encode, Except.map]
  store_error {f f' ts e} h := by
    have hstore : (WatermarkFile.store ts).run f = .error e f' := h
    unfold WatermarkFile.store at hstore
    by_cases htemp : f.temp = .directory
    · simp [htemp] at hstore
      rw [hstore.2]
    · by_cases hnode : f.node = .directory
      · simp [htemp, hnode] at hstore
        rw [← hstore.2]
        simp [WatermarkFile.load, hnode]
      · simp [htemp, hnode] at hstore

namespace Authority

variable {ω : Type} [WatermarkStore ω]

/-! ## What each request does -/

theorem run_keep (a : Authority ω) (ts : Timestamp) :
    (keep ts).run a =
      match (WatermarkStore.store ts : Step TimestampError ω Unit).run a.watermarks with
      | .ok _ w => .ok () { a with watermarks := w }
      | .error e w => .error e { a with watermarks := w } := by
  rw [keep, EStateM.run, Step.focus]
  cases (WatermarkStore.store ts : Step TimestampError ω Unit).run a.watermarks <;> rfl

theorem run_next (a : Authority ω) :
    next.run a =
      if Timestamp.limit.raw ≤ a.counter then .error (.overflow a.counter) a
      else if a.reserved < a.counter then
        match (WatermarkStore.store ⟨ceiling a.counter a.blockSize⟩ :
            Step TimestampError ω Unit).run a.watermarks with
        | .ok _ w => .ok ⟨a.counter⟩ { a with
            watermarks := w
            reserved := ceiling a.counter a.blockSize
            counter := a.counter + 1 }
        | .error e w => .error e { a with watermarks := w }
      else .ok ⟨a.counter⟩ { a with counter := a.counter + 1 } := by
  unfold next reserveThrough
  by_cases hfull : Timestamp.limit.raw ≤ a.counter
  · simp [hfull]
  · by_cases hcovered : a.reserved < a.counter
    · simp only [EStateM.run_bind, EStateM.run_get, hfull, hcovered, if_true, if_false, run_keep]
      cases hstore : (WatermarkStore.store ⟨ceiling a.counter a.blockSize⟩ :
          Step TimestampError ω Unit).run a.watermarks <;> simp
    · simp [hfull, hcovered]

theorem run_remember (a : Authority ω) (ts : Timestamp) :
    (remember ts).run a =
      if Timestamp.limit ≤ ts then .error (.overflow ts.raw) a
      else
        match (WatermarkStore.store ⟨max a.reserved ts.raw⟩ :
            Step TimestampError ω Unit).run a.watermarks with
        | .ok _ w => .ok () { a with
            watermarks := w
            reserved := max a.reserved ts.raw
            counter := max a.counter (ts.raw + 1) }
        | .error e w => .error e { a with watermarks := w } := by
  unfold remember
  by_cases hfull : Timestamp.limit ≤ ts
  · simp [hfull]
  · simp only [EStateM.run_bind, EStateM.run_get, hfull, if_false, run_keep]
    cases hstore : (WatermarkStore.store ⟨max a.reserved ts.raw⟩ :
        Step TimestampError ω Unit).run a.watermarks <;> simp

/-! ## Histories -/

/-- A request to an authority.  To recover is to start a new authority over the same store. -/
inductive Call where
  | next
  | remember (ts : Timestamp)
  | retrieve
  | recover (blockSize : UInt64)

/-- What a request that succeeds commits the authority to. -/
inductive Event where
  | issued (ts : Timestamp)
  | remembered (ts : Timestamp)

/-- The timestamp that was issued or remembered. -/
def Event.timestamp : Event → Timestamp
  | .issued ts | .remembered ts => ts

/-- Carries out a request. -/
def perform : Call → Step TimestampError (Authority ω) (Option Event)
  | .next => do return some (.issued (← next))
  | .remember ts => do
    remember ts
    return some (.remembered ts)
  | .retrieve => do
    let _ ← Step.ofExcept (← get).retrieve
    return none
  | .recover blockSize => do
    set (← Step.ofExcept (recover (← get).watermarks blockSize))
    return none

/-- What a request that succeeds was. -/
theorem perform_cases {a b : Authority ω} {call : Call} {event : Option Event}
    (hcall : (perform call).run a = .ok event b) :
    (∃ ts, next.run a = .ok ts b ∧ event = some (.issued ts)) ∨
      (∃ ts, (remember ts).run a = .ok () b ∧ event = some (.remembered ts)) ∨
      (b = a ∧ event = none) ∨
      ∃ blockSize, recover a.watermarks blockSize = .ok b ∧ event = none := by
  cases call with
  | next =>
    simp only [perform, EStateM.run_bind] at hcall
    cases hnext : next.run a with
    | ok ts b' =>
      rw [hnext] at hcall
      cases hcall
      exact .inl ⟨ts, rfl, rfl⟩
    | error e b' =>
      rw [hnext] at hcall
      cases hcall
  | remember ts =>
    simp only [perform, EStateM.run_bind] at hcall
    cases hremember : (remember ts).run a with
    | ok _ b' =>
      rw [hremember] at hcall
      cases hcall
      exact .inr (.inl ⟨ts, hremember, rfl⟩)
    | error e b' =>
      rw [hremember] at hcall
      cases hcall
  | retrieve =>
    simp only [perform, EStateM.run_bind, EStateM.run_get, Step.run_ofExcept] at hcall
    cases hretrieve : a.retrieve with
    | ok ts =>
      rw [hretrieve] at hcall
      cases hcall
      exact .inr (.inr (.inl ⟨rfl, rfl⟩))
    | error e =>
      rw [hretrieve] at hcall
      cases hcall
  | recover blockSize =>
    simp only [perform, EStateM.run_bind, EStateM.run_get, Step.run_ofExcept] at hcall
    cases hrecover : recover a.watermarks blockSize with
    | ok b' =>
      rw [hrecover] at hcall
      cases hcall
      exact .inr (.inr (.inr ⟨blockSize, hrecover, rfl⟩))
    | error e =>
      rw [hrecover] at hcall
      cases hcall

variable [LawfulWatermarkStore ω]

/-- The watermark in a store, zero if there is none. -/
def floor (w : ω) : Timestamp := (LawfulWatermarkStore.kept w).getD .zero

/-- What a crash inside a request leaves in the store: the watermark that the request writes,
while nothing was issued and no counter moved. -/
inductive Interrupted (a : Authority ω) : ω → Prop where
  | next {w : ω} (hroom : a.counter < Timestamp.limit.raw) (hreserve : a.reserved < a.counter)
      (hstore : (WatermarkStore.store ⟨ceiling a.counter a.blockSize⟩).run a.watermarks =
        .ok () w) :
      Interrupted a w
  | remember {ts : Timestamp} {w : ω} (hroom : ts < Timestamp.limit)
      (hstore : (WatermarkStore.store ⟨max a.reserved ts.raw⟩).run a.watermarks = .ok () w) :
      Interrupted a w

/-- The histories that start from an authority: what they committed to, and the authority they
end in.  Between requests the store may change in any way that keeps its watermark, so that it
may begin or cease to fail. -/
inductive Run (a : Authority ω) : List Event → Authority ω → Prop where
  | nil : Run a [] a
  | answered {events : List Event} {b b' : Authority ω} {call : Call} {event : Option Event}
      (hrun : Run a events b) (hcall : (perform call).run b = .ok event b') :
      Run a (events ++ event.toList) b'
  | refused {events : List Event} {b b' : Authority ω} {call : Call} {e : TimestampError}
      (hrun : Run a events b) (hcall : (perform call).run b = .error e b') : Run a events b'
  | disturbed {events : List Event} {b : Authority ω} {w : ω} (hrun : Run a events b)
      (hkept : LawfulWatermarkStore.kept w = LawfulWatermarkStore.kept b.watermarks) :
      Run a events { b with watermarks := w }
  | crashed {events : List Event} {b b' : Authority ω} {w w' : ω} {blockSize : UInt64}
      (hrun : Run a events b) (hcut : Interrupted b w)
      (hkept : LawfulWatermarkStore.kept w' = LawfulWatermarkStore.kept w)
      (hrecover : recover w' blockSize = .ok b') : Run a events b'

/-! ## The three counters -/

/-- How next value, ceiling and watermark hang together between requests. -/
structure Steady (a : Authority ω) : Prop where
  floor_eq : floor a.watermarks = ⟨a.reserved⟩
  counter_le : a.counter.toNat ≤ a.reserved.toNat + 1
  counter_le_limit : a.counter.toNat ≤ Timestamp.limit.toNat
  block_pos : 0 < a.blockSize.toNat

/-- Of two events, an issued timestamp lies above what came before it. -/
def Precedes (earlier later : Event) : Prop :=
  ∀ ts, later = .issued ts → earlier.timestamp < ts

/-- What a stretch of history achieves, from one authority to the next. -/
structure Advances (a : Authority ω) (events : List Event) (b : Authority ω) : Prop where
  steady : Steady b
  floor_le : floor a.watermarks ≤ floor b.watermarks
  counter_le : a.counter.toNat ≤ b.counter.toNat
  below : ∀ x ∈ events, x.timestamp.toNat < b.counter.toNat
  fresh : ∀ ts, Event.issued ts ∈ events → a.counter.toNat ≤ ts.toNat ∧ ts < Timestamp.limit
  ordered : events.Pairwise Precedes

theorem Advances.trans {a b c : Authority ω} {events later : List Event}
    (h₁ : Advances a events b) (h₂ : Advances b later c) : Advances a (events ++ later) c where
  steady := h₂.steady
  floor_le := le_trans h₁.floor_le h₂.floor_le
  counter_le := Nat.le_trans h₁.counter_le h₂.counter_le
  below := by
    intro x hx
    rcases List.mem_append.1 hx with hx | hx
    · exact Nat.lt_of_lt_of_le (h₁.below x hx) h₂.counter_le
    · exact h₂.below x hx
  fresh := by
    intro ts hts
    rcases List.mem_append.1 hts with hts | hts
    · exact h₁.fresh ts hts
    · exact ⟨Nat.le_trans h₁.counter_le (h₂.fresh ts hts).1, (h₂.fresh ts hts).2⟩
  ordered := by
    refine List.pairwise_append.2 ⟨h₁.ordered, h₂.ordered, ?_⟩
    rintro x hx y hy ts rfl
    exact Timestamp.lt_iff_toNat_lt.2 (Nat.lt_of_lt_of_le (h₁.below x hx) (h₂.fresh ts hy).1)

/-- A stretch that commits to nothing. -/
theorem Advances.silent {a b : Authority ω} (hsteady : Steady b)
    (hfloor : floor a.watermarks ≤ floor b.watermarks)
    (hcounter : a.counter.toNat ≤ b.counter.toNat) : Advances a [] b :=
  ⟨hsteady, hfloor, hcounter, by simp, by simp, .nil⟩

/-- A stretch that commits to one thing. -/
theorem Advances.single {a b : Authority ω} {event : Event} (hsteady : Steady b)
    (hfloor : floor a.watermarks ≤ floor b.watermarks)
    (hcounter : a.counter.toNat ≤ b.counter.toNat)
    (hbelow : event.timestamp.toNat < b.counter.toNat)
    (hfresh : ∀ ts, event = .issued ts → a.counter.toNat ≤ ts.toNat ∧ ts < Timestamp.limit) :
    Advances a [event] b where
  steady := hsteady
  floor_le := hfloor
  counter_le := hcounter
  below := by simpa using hbelow
  fresh := fun ts hts => hfresh ts (List.mem_singleton.1 hts).symm
  ordered := List.pairwise_singleton _ _

/-- The end of a block lies at or above its start and at or below the limit. -/
theorem toNat_ceiling {start blockSize : UInt64} (hblock : 0 < blockSize.toNat) :
    (ceiling start blockSize).toNat =
      min (start.toNat + (blockSize.toNat - 1)) Timestamp.limit.toNat := by
  have hlimit := Timestamp.toNat_limit
  have hone : (1 : UInt64).toNat = 1 := rfl
  have hless : (blockSize - 1).toNat = blockSize.toNat - 1 := by
    rw [UInt64.toNat_sub_of_le _ _ (UInt64.le_iff_toNat_le.2 (hone ▸ hblock)), hone]
  unfold ceiling
  split
  · rename_i hfull
    exact (Nat.min_eq_right hfull).symm
  · rename_i hroom
    rw [UInt64.toNat_add, hless]
    omega

/-! ## One request -/

/-- A restart is steady and goes on right above the watermark. -/
theorem recover_eq_ok {w : ω} {blockSize : UInt64} {b : Authority ω}
    (h : recover w blockSize = .ok b) :
    b.watermarks = w ∧ Steady b ∧ b.counter.toNat = (floor w).toNat + 1 := by
  cases hload : WatermarkStore.load w with
  | error e =>
    rw [recover, hload] at h
    cases h
  | ok found =>
    have hfound : found.getD .zero = floor w := by
      rw [floor, LawfulWatermarkStore.load_ok hload]
    simp only [recover, hload, bind, Except.bind, hfound] at h
    by_cases hfull : Timestamp.limit ≤ floor w
    · simp only [hfull, if_true] at h
      cases h
    · simp only [hfull, if_false] at h
      cases h
      have hroom : (floor w).toNat < Timestamp.limit.toNat :=
        Timestamp.lt_iff_toNat_lt.1 (lt_of_not_ge hfull)
      have hnext : ((floor w).raw + 1).toNat = (floor w).toNat + 1 :=
        Timestamp.toNat_raw_add_one (lt_of_not_ge hfull)
      refine ⟨rfl, ⟨rfl, ?_, ?_, ?_⟩, hnext⟩
      · exact Nat.le_of_eq hnext
      · simp only [hnext]
        omega
      · by_cases hzero : blockSize = 0
        · simp [hzero]
        · simp only [hzero, if_false]
          exact Nat.pos_of_ne_zero fun h0 => hzero (UInt64.toNat_inj.1 h0)

/-- A restart over a store whose watermark did not go below the old ceiling goes on above
everything issued before. -/
theorem Steady.advances_recover {a b : Authority ω} {w : ω} {blockSize : UInt64} (h : Steady a)
    (hfloor : floor a.watermarks ≤ floor w) (hrecover : recover w blockSize = .ok b) :
    Advances a [] b := by
  rcases recover_eq_ok hrecover with ⟨rfl, hsteady, hcounter⟩
  refine .silent hsteady hfloor ?_
  have hold := h.counter_le
  have hle : a.reserved.toNat ≤ (floor b.watermarks).toNat := by
    have := Timestamp.le_iff_toNat_le.1 hfloor
    rwa [h.floor_eq] at this
  omega

/-- Issuing the next value, once it is covered by the ceiling. -/
theorem Steady.advances_issue {a b : Authority ω} (h : Steady a)
    (hroom : a.counter < Timestamp.limit.raw) (hfloor : floor b.watermarks = ⟨b.reserved⟩)
    (hreserved : a.reserved.toNat ≤ b.reserved.toNat)
    (hcovered : a.counter.toNat ≤ b.reserved.toNat)
    (hcounter : b.counter = a.counter + 1) (hblock : b.blockSize = a.blockSize) :
    Advances a [.issued ⟨a.counter⟩] b := by
  have hlt : a.counter.toNat < Timestamp.limit.toNat := UInt64.lt_iff_toNat_lt.1 hroom
  have hlimit := Timestamp.toNat_limit
  have hnext : b.counter.toNat = a.counter.toNat + 1 := by
    rw [hcounter]
    exact Timestamp.toNat_add_one (by omega)
  refine .single ⟨hfloor, by omega, by omega, hblock ▸ h.block_pos⟩ ?_ (by omega) ?_ ?_
  · rw [h.floor_eq, hfloor]
    exact Timestamp.le_iff_toNat_le.2 hreserved
  · show a.counter.toNat < b.counter.toNat
    omega
  · rintro ts ⟨⟩
    exact ⟨Nat.le_refl _, Timestamp.lt_iff_toNat_lt.2 hlt⟩

theorem Steady.advances_next {a b : Authority ω} {ts : Timestamp} (h : Steady a)
    (hrun : next.run a = .ok ts b) : Advances a [.issued ts] b := by
  rw [run_next] at hrun
  split at hrun
  · cases hrun
  · rename_i hfull
    have hroom : a.counter < Timestamp.limit.raw := UInt64.not_le.1 hfull
    split at hrun
    · rename_i hreserve
      split at hrun
      · rename_i hstore
        cases hrun
        have hceiling : (ceiling a.counter a.blockSize).toNat = _ := toNat_ceiling h.block_pos
        have hlt : a.counter.toNat < Timestamp.limit.toNat := UInt64.lt_iff_toNat_lt.1 hroom
        have hgap : a.reserved.toNat < a.counter.toNat := UInt64.lt_iff_toNat_lt.1 hreserve
        refine h.advances_issue hroom ?_ ?_ ?_ rfl rfl
        · simp only [floor, LawfulWatermarkStore.store_ok hstore, Option.getD_some]
        · simp only [hceiling]
          omega
        · simp only [hceiling]
          omega
      · cases hrun
    · rename_i hcovered
      cases hrun
      exact h.advances_issue hroom h.floor_eq (Nat.le_refl _)
        (UInt64.le_iff_toNat_le.1 (UInt64.not_lt.1 hcovered)) rfl rfl

theorem Steady.advances_remember {a b : Authority ω} {ts : Timestamp} (h : Steady a)
    (hrun : (remember ts).run a = .ok () b) : Advances a [.remembered ts] b := by
  rw [run_remember] at hrun
  split at hrun
  · cases hrun
  · rename_i hfull
    split at hrun
    · rename_i hstore
      cases hrun
      have hlt : ts.toNat < Timestamp.limit.toNat :=
        Timestamp.lt_iff_toNat_lt.1 (lt_of_not_ge hfull)
      have hold := h.counter_le
      have hbound := h.counter_le_limit
      have hnext : (ts.raw + 1).toNat = ts.toNat + 1 :=
        Timestamp.toNat_raw_add_one (lt_of_not_ge hfull)
      have hceiling : (max a.reserved ts.raw).toNat = max a.reserved.toNat ts.toNat :=
        Timestamp.toNat_max _ _
      have hcounter : (max a.counter (ts.raw + 1)).toNat = max a.counter.toNat (ts.toNat + 1) := by
        rw [Timestamp.toNat_max, hnext]
      have hfloor := LawfulWatermarkStore.store_ok hstore
      refine .single ⟨?_, ?_, ?_, h.block_pos⟩ ?_ ?_ ?_ ?_
      · simp only [floor, hfloor, Option.getD_some]
      · simp only [hcounter, hceiling]
        omega
      · simp only [hcounter]
        omega
      · rw [h.floor_eq]
        simp only [floor, hfloor, Option.getD_some]
        exact Timestamp.le_iff_toNat_le.2 (by simp only [Timestamp.toNat, hceiling]; omega)
      · simp only [hcounter]
        omega
      · simp only [Event.timestamp, hcounter]
        omega
      · rintro _ ⟨⟩
    · cases hrun

theorem Steady.advances_perform {a b : Authority ω} {call : Call} {event : Option Event}
    (h : Steady a) (hcall : (perform call).run a = .ok event b) :
    Advances a event.toList b := by
  rcases perform_cases hcall with
    ⟨ts, hnext, rfl⟩ | ⟨ts, hremember, rfl⟩ | ⟨rfl, rfl⟩ | ⟨blockSize, hrecover, rfl⟩
  · exact h.advances_next hnext
  · exact h.advances_remember hremember
  · exact .silent h le_rfl (Nat.le_refl _)
  · exact h.advances_recover le_rfl hrecover

/-- Between an authority and itself after a refused request, only the store may differ, and not
in its watermark. -/
structure Unmoved (a b : Authority ω) : Prop where
  counter : b.counter = a.counter
  reserved : b.reserved = a.reserved
  blockSize : b.blockSize = a.blockSize
  kept : LawfulWatermarkStore.kept b.watermarks = LawfulWatermarkStore.kept a.watermarks

theorem Unmoved.refl (a : Authority ω) : Unmoved a a :=
  ⟨rfl, rfl, rfl, rfl⟩

theorem Unmoved.of_kept {a : Authority ω} {w : ω}
    (h : LawfulWatermarkStore.kept w = LawfulWatermarkStore.kept a.watermarks) :
    Unmoved a { a with watermarks := w } :=
  ⟨rfl, rfl, rfl, h⟩

theorem Unmoved.of_next {a b : Authority ω} {e : TimestampError} (h : next.run a = .error e b) :
    Unmoved a b := by
  rw [run_next] at h
  split at h
  · cases h
    exact .refl a
  · split at h
    · split at h
      · cases h
      · rename_i hstore
        cases h
        exact .of_kept (LawfulWatermarkStore.store_error hstore)
    · cases h

theorem Unmoved.of_remember {a b : Authority ω} {ts : Timestamp} {e : TimestampError}
    (h : (remember ts).run a = .error e b) : Unmoved a b := by
  rw [run_remember] at h
  split at h
  · cases h
    exact .refl a
  · split at h
    · cases h
    · rename_i hstore
      cases h
      exact .of_kept (LawfulWatermarkStore.store_error hstore)

/-- A refused request moves no counter and leaves the watermark. -/
theorem Unmoved.of_perform {a b : Authority ω} {call : Call} {e : TimestampError}
    (hcall : (perform call).run a = .error e b) : Unmoved a b := by
  cases call with
  | next =>
    simp only [perform, EStateM.run_bind] at hcall
    cases hnext : next.run a with
    | ok ts b' =>
      rw [hnext] at hcall
      cases hcall
    | error e' b' =>
      rw [hnext] at hcall
      cases hcall
      exact .of_next hnext
  | remember ts =>
    simp only [perform, EStateM.run_bind] at hcall
    cases hremember : (remember ts).run a with
    | ok _ b' =>
      rw [hremember] at hcall
      cases hcall
    | error e' b' =>
      rw [hremember] at hcall
      cases hcall
      exact .of_remember hremember
  | retrieve =>
    simp only [perform, EStateM.run_bind, EStateM.run_get, Step.run_ofExcept] at hcall
    cases hretrieve : a.retrieve with
    | ok ts =>
      rw [hretrieve] at hcall
      cases hcall
    | error e' =>
      rw [hretrieve] at hcall
      cases hcall
      exact .refl a
  | recover blockSize =>
    simp only [perform, EStateM.run_bind, EStateM.run_get, Step.run_ofExcept] at hcall
    cases hrecover : recover a.watermarks blockSize with
    | ok b' =>
      rw [hrecover] at hcall
      cases hcall
    | error e' =>
      rw [hrecover] at hcall
      cases hcall
      exact .refl a

theorem Steady.advances_unmoved {a b : Authority ω} (h : Steady a) (hsame : Unmoved a b) :
    Advances a [] b := by
  have hfloor : floor b.watermarks = floor a.watermarks := by rw [floor, hsame.kept, floor]
  refine .silent ⟨?_, ?_, ?_, ?_⟩ (le_of_eq hfloor.symm) (Nat.le_of_eq ?_)
  · rw [hfloor, hsame.reserved, h.floor_eq]
  · rw [hsame.counter, hsame.reserved]
    exact h.counter_le
  · rw [hsame.counter]
    exact h.counter_le_limit
  · rw [hsame.blockSize]
    exact h.block_pos
  · rw [hsame.counter]

/-- A crash inside a request has not lowered the watermark. -/
theorem Steady.floor_le_of_interrupted {a : Authority ω} {w : ω} (h : Steady a)
    (hcut : Interrupted a w) : floor a.watermarks ≤ floor w := by
  cases hcut with
  | next hroom hreserve hstore =>
    have hceiling : (ceiling a.counter a.blockSize).toNat = _ := toNat_ceiling h.block_pos
    have hgap : a.reserved.toNat < a.counter.toNat := UInt64.lt_iff_toNat_lt.1 hreserve
    have hlt : a.counter.toNat < Timestamp.limit.toNat := UInt64.lt_iff_toNat_lt.1 hroom
    rw [h.floor_eq, floor, LawfulWatermarkStore.store_ok hstore, Option.getD_some,
      Timestamp.le_iff_toNat_le]
    show a.reserved.toNat ≤ (ceiling a.counter a.blockSize).toNat
    rw [hceiling]
    omega
  | remember hroom hstore =>
    rw [h.floor_eq, floor, LawfulWatermarkStore.store_ok hstore, Option.getD_some,
      Timestamp.le_iff_toNat_le]
    simp only [Timestamp.toNat, Timestamp.toNat_max]
    omega

/-! ## Whole histories -/

/-- What every history achieves, by induction on its requests. -/
theorem Advances.of_run {a b : Authority ω} {events : List Event} (h : Steady a)
    (hrun : Run a events b) : Advances a events b := by
  induction hrun with
  | nil => exact .silent h le_rfl (Nat.le_refl _)
  | answered _ hcall ih => exact ih.trans (ih.steady.advances_perform hcall)
  | refused _ hcall ih =>
    simpa using ih.trans (ih.steady.advances_unmoved (.of_perform hcall))
  | disturbed _ hkept ih =>
    simpa using ih.trans (ih.steady.advances_unmoved (.of_kept hkept))
  | crashed _ hcut hkept hrecover ih =>
    have hfloor := ih.steady.floor_le_of_interrupted hcut
    have hsame : floor _ = floor _ := congrArg (·.getD .zero) hkept
    simpa using ih.trans (ih.steady.advances_recover (hsame ▸ hfloor) hrecover)

/-- No timestamp is issued twice, whatever fails and however often the authority is restarted.
Issued timestamps rise strictly, above the first watermark and above all that was remembered
before; the watermark covers everything issued and remembered and never goes down; a refused
request issues nothing and moves nothing. -/
theorem history_never_reissues {w : ω} {blockSize : UInt64} {a b : Authority ω}
    {events : List Event} (hstart : recover w blockSize = .ok a) (hrun : Run a events b) :
    events.Pairwise (fun earlier later => ∀ ts, later = .issued ts → earlier.timestamp < ts) ∧
      (∀ ts, Event.issued ts ∈ events →
        Timestamp.zero < ts ∧ floor w < ts ∧ ts < Timestamp.limit) ∧
      (∀ x ∈ events, x.timestamp ≤ floor b.watermarks) ∧
      (∀ c later, Run b later c → floor b.watermarks ≤ floor c.watermarks) ∧
      ∀ call e c, (perform call).run b = .error e c →
        c.counter = b.counter ∧ c.reserved = b.reserved ∧
          LawfulWatermarkStore.kept c.watermarks = LawfulWatermarkStore.kept b.watermarks := by
  rcases recover_eq_ok hstart with ⟨rfl, hsteady, hcounter⟩
  have hadv := Advances.of_run hsteady hrun
  refine ⟨hadv.ordered, ?_, ?_, ?_, ?_⟩
  · intro ts hts
    rcases hadv.fresh ts hts with ⟨habove, hbelow⟩
    have hfloor : floor a.watermarks < ts := Timestamp.lt_iff_toNat_lt.2 (by omega)
    exact ⟨lt_of_le_of_lt (Timestamp.zero_le _) hfloor, hfloor, hbelow⟩
  · intro x hx
    have hlt := hadv.below x hx
    have hceiling := hadv.steady.counter_le
    rw [hadv.steady.floor_eq, Timestamp.le_iff_toNat_le]
    exact Nat.le_of_lt_succ (Nat.lt_of_lt_of_le hlt hceiling)
  · intro c later hlater
    exact (Advances.of_run hadv.steady hlater).floor_le
  · intro call e c hcall
    have hsame := Unmoved.of_perform hcall
    exact ⟨hsame.counter, hsame.reserved, hsame.kept⟩

/-- Blocks of four, a floor at nine, a write that fails and a restart: ten follows one. -/
theorem history_never_reissues_restarted :
    ∃ a b : Authority MemoryWatermark,
      recover (.ofValue none) 4 = .ok a ∧
        Run a [.issued ⟨1⟩, .remembered ⟨9⟩, .issued ⟨10⟩] b ∧
        (∀ ts, Event.issued ts ∈ [.issued ⟨1⟩, .remembered ⟨9⟩, .issued ⟨10⟩] →
          Timestamp.zero < ts ∧ floor (MemoryWatermark.ofValue none) < ts ∧ ts < Timestamp.limit) ∧
        ∀ x ∈ [Event.issued ⟨1⟩, .remembered ⟨9⟩, .issued ⟨10⟩],
          x.timestamp ≤ floor b.watermarks := by
  have hstart : recover (MemoryWatermark.ofValue none) 4 = .ok ⟨1, 0, 4, .ofValue none⟩ := rfl
  have hissue : (perform .next).run (⟨1, 0, 4, .ofValue none⟩ : Authority MemoryWatermark) =
      .ok (some (.issued ⟨1⟩)) ⟨2, 4, 4, .ofValue (some ⟨4⟩)⟩ := rfl
  have hremember : (perform (.remember ⟨9⟩)).run
      (⟨2, 4, 4, .ofValue (some ⟨4⟩)⟩ : Authority MemoryWatermark) =
      .ok (some (.remembered ⟨9⟩)) ⟨10, 9, 4, .ofValue (some ⟨9⟩)⟩ := rfl
  have hfail : (perform .next).run
      (⟨10, 9, 4, ⟨some ⟨9⟩, some "disk full", none⟩⟩ : Authority MemoryWatermark) =
      .error (.watermarkWrite (.reported "disk full"))
        ⟨10, 9, 4, ⟨some ⟨9⟩, some "disk full", none⟩⟩ := rfl
  have hrecover : (perform (.recover 4)).run
      (⟨10, 9, 4, .ofValue (some ⟨9⟩)⟩ : Authority MemoryWatermark) =
      .ok none ⟨10, 9, 4, .ofValue (some ⟨9⟩)⟩ := rfl
  have hagain : (perform .next).run
      (⟨10, 9, 4, .ofValue (some ⟨9⟩)⟩ : Authority MemoryWatermark) =
      .ok (some (.issued ⟨10⟩)) ⟨11, 13, 4, .ofValue (some ⟨13⟩)⟩ := rfl
  have hfloor := Run.answered (.answered .nil hissue) hremember
  have hfull := Run.refused (.disturbed (w := ⟨some ⟨9⟩, some "disk full", none⟩) hfloor rfl) hfail
  have hback := Run.answered (.disturbed (w := .ofValue (some ⟨9⟩)) hfull rfl) hrecover
  have hrun := Run.answered hback hagain
  have hall := history_never_reissues hstart hrun
  exact ⟨_, _, hstart, hrun, hall.2.1, hall.2.2.1⟩

end Authority

end SnapshotIsolation
