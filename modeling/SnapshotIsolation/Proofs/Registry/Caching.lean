import SnapshotIsolation.Proofs.Registry.Finality

/-!
# Caches of any size

Registries that differ in their caches only answer every call alike and go on differing in their
caches only. The reason is that each cache agrees with the table: settled records never change, and
no other records are cached.

Main results:

- Theorem {lit}`Registry.alike_act`: one call over two registries that differ in their caches only.
- Theorem {lit}`Registry.Alike.serve`: calls one after the other.
- Theorem {lit}`Registry.cache_is_transparent`: caches of any two sizes.
-/

namespace SnapshotIsolation

namespace Registry

variable {α β : Type} {r₁ r₂ r₁' r₂' : Registry}

/-- The registries differ in their caches only, and each cache agrees with the table. -/
structure Alike (r₁ r₂ : Registry) : Prop where
  table : r₁.table = r₂.table
  active : r₁.active = r₂.active
  journal : r₁.journal = r₂.journal
  left : Coherent r₁
  right : Coherent r₂

theorem Alike.refl {r : Registry} (h : Coherent r) : Alike r r :=
  ⟨rfl, rfl, rfl, h, h⟩

theorem Alike.trans {r : Registry} (h : Alike r r₁) (h' : Alike r₁ r₂) : Alike r r₂ :=
  ⟨h.table.trans h'.table, h.active.trans h'.active, h.journal.trans h'.journal, h.left, h'.right⟩

theorem Consulted.alike (h : Consulted r₁ r₂) (hcoherent : Coherent r₁) : Alike r₁ r₂ :=
  ⟨h.table.symm, h.active.symm, h.journal.symm, hcoherent, h.coherent⟩

theorem Alike.of_consulted (h : Alike r₁ r₂) (h₁ : Consulted r₁ r₁') (h₂ : Consulted r₂ r₂') :
    Alike r₁' r₂' := by
  refine ⟨?_, ?_, ?_, h₁.coherent, h₂.coherent⟩
  · rw [h₁.table, h₂.table, h.table]
  · rw [h₁.active, h₂.active, h.active]
  · rw [h₁.journal, h₂.journal, h.journal]

theorem alike_inMemory (capacity₁ capacity₂ : Nat) (journal : Option Journal) :
    Alike { inMemory capacity₁ with journal := journal }
      { inMemory capacity₂ with journal := journal } :=
  ⟨rfl, rfl, rfl, coherent_inMemory capacity₁ journal, coherent_inMemory capacity₂ journal⟩

/-- A change of the table that loses nothing settled is made alike. -/
theorem Alike.of_extends (h : Alike r₁ r₂) (htable : r₁'.table = r₂'.table)
    (hactive : r₁'.active = r₂'.active) (hjournal : r₁'.journal = r₂'.journal)
    (hcache₁ : r₁'.cache = r₁.cache) (hcache₂ : r₂'.cache = r₂.cache)
    (hextends : Extends r₁.table r₁'.table) : Alike r₁' r₂' :=
  ⟨htable, hactive, hjournal, h.left.of_extends hcache₁ hextends,
    h.right.of_extends hcache₂ (htable ▸ h.table ▸ hextends)⟩

/-! ## One call -/

/-- Over registries that differ in their caches only, the operation ends with the same answer or
failure and leaves registries that do. -/
def CacheBlind (act : Action α) : Prop :=
  ∀ r₁ r₂, Alike r₁ r₂ →
    Step.answer act r₁ = Step.answer act r₂ ∧ Alike (Step.after act r₁) (Step.after act r₂)

theorem CacheBlind.map {act : Action α} (h : CacheBlind act) (f : α → β) :
    CacheBlind (f <$> act) := by
  intro r₁ r₂ halike
  simp only [Step.answer_map, Step.after_map]
  rcases h r₁ r₂ halike with ⟨hanswer, hafter⟩
  exact ⟨by rw [hanswer], hafter⟩

/-- What only looks up is blind for the cache. -/
theorem cacheBlind_of_gives {act : Action α} {result : Table → Except StorageError α}
    (h : ∀ t, Gives t act (result t)) : CacheBlind act := by
  intro r₁ r₂ halike
  rcases h r₁.table r₁ halike.left rfl with ⟨r₁', hconsulted₁, hrun₁⟩
  rcases h r₁.table r₂ halike.right halike.table.symm with ⟨r₂', hconsulted₂, hrun₂⟩
  rw [Step.answer_of_run hrun₁, Step.answer_of_run hrun₂, Step.after_of_run hrun₁,
    Step.after_of_run hrun₂]
  exact ⟨rfl, halike.of_consulted hconsulted₁ hconsulted₂⟩

theorem cacheBlind_start (id : Timestamp) (parent : Option Handle) (isolation : Isolation) :
    CacheBlind (start id parent isolation) := by
  intro r₁ r₂ halike
  rcases run_start halike.left id parent isolation with ⟨r₁', hconsulted₁, hrun₁⟩
  rcases run_start halike.right id parent isolation with ⟨r₂', hconsulted₂, hrun₂⟩
  have halike' := halike.of_consulted hconsulted₁ hconsulted₂
  unfold Step.answer Step.after
  rw [hrun₁, hrun₂, ← halike.table]
  cases hfresh : freshRecord r₁.table id parent isolation with
  | error e => exact ⟨rfl, halike'⟩
  | ok fresh =>
    refine ⟨rfl, halike'.of_extends ?_ ?_ ?_ rfl rfl ?_⟩
    · simp only [withBegun, halike'.table]
    · simp only [withBegun, halike'.active]
    · simp only [withBegun, halike'.journal]
    · have hunused := (begins_of_freshRecord hfresh).unused
      rw [← hconsulted₁.table] at hunused
      exact extends_insert_of_unused hunused fresh

theorem cacheBlind_settle (id : Timestamp) (outcome : Outcome) :
    CacheBlind (settle id outcome) := by
  intro r₁ r₂ halike
  unfold Step.answer Step.after
  rw [run_settle, run_settle, ← halike.table]
  cases hsettled : settledRecord r₁.table id outcome with
  | error e => exact ⟨rfl, halike⟩
  | ok new =>
    by_cases hsame : r₁.table.get? id = some new
    · simp only [hsame, if_true]
      exact ⟨trivial, halike⟩
    · simp only [hsame, if_false]
      refine ⟨trivial, halike.of_extends ?_ ?_ ?_ rfl rfl ?_⟩
      · simp only [withSettled, halike.table]
      · simp only [withSettled, halike.active]
      · simp only [withSettled, halike.journal]
      · have hput : (Operation.settle id outcome).put? r₁.table = some new := by
          simp [Operation.put?, hsettled, Except.toOption, hsame]
        exact Operation.extends_insert_of_put? hput

theorem cacheBlind_lowWatermark : CacheBlind (lowWatermark <$> get) := by
  intro r₁ r₂ halike
  refine ⟨?_, halike⟩
  show Except.ok (lowWatermark r₁) = Except.ok (lowWatermark r₂)
  rw [lowWatermark, lowWatermark, halike.active]

/-! ## Calls -/

/-- What may be asked of a registry. -/
inductive Call where
  | start (id : Timestamp) (parent : Option Handle) (isolation : Isolation)
  | find (id : Timestamp)
  | settle (id : Timestamp) (outcome : Outcome)
  | effectiveStatus (id : Timestamp)
  | lowWatermark

/-- What a call is answered if it is not refused. -/
inductive Reply where
  | begun (handle : Handle)
  | found (record : Record)
  | settled
  | counts (status : EffectiveStatus)
  | watermark (least : Option Timestamp)
deriving DecidableEq

/-- Carries out the call. -/
def Call.act : Call → Action Reply
  | .start id parent isolation => .begun <$> Registry.start id parent isolation
  | .find id => .found <$> Registry.find id
  | .settle id outcome => (fun _ => .settled) <$> Registry.settle id outcome
  | .effectiveStatus id => .counts <$> Registry.effectiveStatus id
  | .lowWatermark => .watermark <$> Registry.lowWatermark <$> get

/-- The answers to calls one after the other, and the registry that they leave. -/
def serve : List Call → Registry → List (Except StorageError Reply) × Registry
  | [], r => ([], r)
  | call :: calls, r =>
    (Step.answer call.act r :: (serve calls (Step.after call.act r)).1,
      (serve calls (Step.after call.act r)).2)

/-- One call over two registries that differ in their caches only. -/
theorem alike_act (call : Call) : CacheBlind call.act := by
  cases call with
  | start id parent isolation => exact (cacheBlind_start id parent isolation).map _
  | find id => exact (cacheBlind_of_gives fun _ => gives_find id).map _
  | settle id outcome => exact (cacheBlind_settle id outcome).map _
  | effectiveStatus id => exact (cacheBlind_of_gives fun _ => gives_effectiveStatus id).map _
  | lowWatermark => exact cacheBlind_lowWatermark.map _

/-- Calls one after the other, over two registries that differ in their caches only. -/
theorem Alike.serve (h : Alike r₁ r₂) (calls : List Call) :
    (serve calls r₁).1 = (serve calls r₂).1 ∧ Alike (serve calls r₁).2 (serve calls r₂).2 := by
  induction calls generalizing r₁ r₂ with
  | nil => exact ⟨rfl, h⟩
  | cons call calls ih =>
    rcases alike_act call r₁ r₂ h with ⟨hanswer, hafter⟩
    rcases ih hafter with ⟨hanswers, hend⟩
    exact ⟨List.cons_eq_cons.2 ⟨hanswer, hanswers⟩, hend⟩

/-- Whatever is asked of an empty registry, caches of any two sizes lead to the same answers and the
same table, index and journal. Whenever one looks, each cached record is settled and the one that
the table has for its id, and a look-up finds the record of the table. -/
theorem cache_is_transparent (capacity₁ capacity₂ : Nat) (journal : Option Journal)
    (calls : List Call) :
    let end₁ := serve calls { inMemory capacity₁ with journal := journal }
    let end₂ := serve calls { inMemory capacity₂ with journal := journal }
    end₁.1 = end₂.1 ∧ end₁.2.table = end₂.2.table ∧ end₁.2.active = end₂.2.active ∧
      end₁.2.journal = end₂.2.journal ∧
      (∀ e ∈ end₁.2.cache.recent, e.2.status.isTerminal = true ∧
        end₁.2.table.get? e.1 = some e.2) ∧
      ∀ id, Step.answer (find id) end₁.2 = lookUp end₁.2.table id := by
  rcases (alike_inMemory capacity₁ capacity₂ journal).serve calls with ⟨hanswers, halike⟩
  refine ⟨hanswers, halike.table, halike.active, halike.journal, ?_, answer_find halike.left⟩
  intro e he
  exact (halike.left e he).symm

/-- The caches themselves differ: the smallest one keeps a single record. -/
example :
    let calls : List Call := [.start ⟨1⟩ none .snapshot, .settle ⟨1⟩ .rollback,
      .start ⟨2⟩ none .snapshot, .settle ⟨2⟩ .rollback, .find ⟨1⟩, .find ⟨2⟩]
    (serve calls (inMemory 0)).2.cache.recent.map (·.1) = [⟨2⟩] ∧
      (serve calls (inMemory 2)).2.cache.recent.map (·.1) = [⟨2⟩, ⟨1⟩] := by
  decide

end Registry

end SnapshotIsolation
