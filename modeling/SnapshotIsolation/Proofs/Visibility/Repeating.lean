import SnapshotIsolation.Proofs.Visibility.Reading
import SnapshotIsolation.Visibility.Row

/-!
# Verdicts that are kept

A row read keeps its verdicts on writers. That makes no difference to what it answers, nor to what
it looks up: a verdict that was reached once is reached again whatever was looked up since, from the
scope alone.

What is put together from look-ups has whatever property look-ups have, if that carries over from
the parts to the whole. Verdicts on writers are put together in this way, and so are row reads.

Main results:

- Theorem {lit}`Reading.Compositional.isWriterVisible`: a property that carries over from look-ups
  to the verdict on a writer.
- Theorem {lit}`Reading.repeatable_isWriterVisible`: the verdict on a writer is reached again.
- Theorem {lit}`Reading.readRow_eq`: a row read answers as if it asked for each writer anew.
-/

namespace SnapshotIsolation

namespace Reading

variable {α β : Type}

/-! ## What is put together from look-ups -/

/-- A property of readings that results and look-ups have, and that carries over to one reading
after another. -/
structure Compositional (P : ∀ {γ : Type}, Reading γ → Prop) : Prop where
  ofExcept {γ : Type} (result : Except StorageError γ) : P (Step.ofExcept result)
  find (id : Timestamp) : P (find id)
  bind {γ δ : Type} {act : Reading γ} {next : γ → Reading δ} : P act → (∀ c, P (next c)) →
    P (act >>= next)

section Compositional

variable {P : ∀ {γ : Type}, Reading γ → Prop}

theorem Compositional.pure (h : Compositional P) (a : α) : P (pure a : Reading α) :=
  h.ofExcept (.ok a)

theorem Compositional.walkChain (h : Compositional P) (reader : Handle)
    (snapshot member : Timestamp) : P (walkChain reader snapshot member) := by
  -- the walk descends to ever smaller ids
  induction hn : member.toNat using Nat.strongRecOn generalizing member with
  | _ n ih =>
    rw [Reading.walkChain]
    apply h.bind (h.find member)
    intro record
    split
    · exact h.pure _
    · exact h.pure _
    · exact h.pure _
    · exact h.pure _
    · split
      · exact h.pure _
      · rename_i parent _
        split
        · exact h.pure _
        · split
          · exact h.pure _
          · split
            · rename_i hbelow
              exact ih parent.toNat (hn ▸ Timestamp.lt_iff_toNat_lt.1 hbelow) parent rfl
            · exact h.pure _

theorem Compositional.isWriterVisible (h : Compositional P) (writer : Timestamp)
    (marker : Option Marker) (snapshot : Timestamp) (reader : Handle) :
    P (isWriterVisible writer marker snapshot reader) := by
  unfold Reading.isWriterVisible
  split
  · exact h.pure _
  · split
    · exact h.bind (h.find writer) fun _ => h.pure _
    · split
      · exact h.pure _
      · exact h.pure _
      · exact h.walkChain reader snapshot writer
      · exact h.walkChain reader snapshot writer

end Compositional

/-! ## Rows, in whatever way writers are judged -/

/-- A relation between computations of two kinds that carries over to one after another. -/
structure Relates (m n : Type → Type) [Monad m] [Monad n]
    (R : ∀ {γ : Type}, m γ → n γ → Prop) : Prop where
  pure {γ : Type} (c : γ) : R (pure c) (pure c)
  bind {γ δ : Type} {act : m γ} {act' : n γ} {next : γ → m δ} {next' : γ → n δ} : R act act' →
    (∀ c, R (next c) (next' c)) → R (act >>= next) (act' >>= next')

section Relates

variable {m n : Type → Type} [Monad m] [Monad n]
  {R : ∀ {γ : Type}, m γ → n γ → Prop} {visible : Timestamp → m Bool}
  {visible' : Timestamp → n Bool} {c : Cell}

theorem Relates.foldlM (h : Relates m n R) {step : β → α → m β} {step' : β → α → n β}
    {items : List α} (hstep : ∀ b, ∀ a ∈ items, R (step b a) (step' b a)) (b : β) :
    R (items.foldlM step b) (items.foldlM step' b) := by
  induction items generalizing b with
  | nil => exact h.pure b
  | cons a items ih =>
    rw [List.foldlM_cons, List.foldlM_cons]
    apply h.bind (hstep b a List.mem_cons_self)
    intro b'
    exact ih (fun b a' ha' => hstep b a' (List.mem_cons_of_mem _ ha')) b'

theorem Relates.deletionStep (h : Relates m n R)
    (hvisible : c.kind = .tombstone → R (visible c.timestamp) (visible' c.timestamp))
    (deletedAt : Option Timestamp) :
    R (deletionStep visible deletedAt c) (deletionStep visible' deletedAt c) := by
  unfold Reading.deletionStep
  split
  · rename_i hkind
    apply h.bind (hvisible hkind)
    intro seen
    split <;> exact h.pure _
  · exact h.pure _

theorem Relates.versionStep (h : Relates m n R)
    (hvisible : c.kind = .userData → R (visible c.timestamp) (visible' c.timestamp))
    (deletedAt : Option Timestamp) (columns : SortedMap Column Cell) :
    R (versionStep visible deletedAt columns c) (versionStep visible' deletedAt columns c) := by
  unfold Reading.versionStep
  split
  · exact h.pure _
  · rename_i hkind
    split
    · exact h.pure _
    · split
      · exact h.pure _
      · apply h.bind (hvisible (Decidable.not_not.1 hkind))
        intro seen
        split <;> exact h.pure _

/-- Only writers of tombstones and of versions are judged. -/
theorem Relates.visibleCells (h : Relates m n R) (visible : Timestamp → m Bool)
    (visible' : Timestamp → n Bool) {cells : List Cell}
    (hvisible : ∀ c ∈ cells, c.kind = .tombstone ∨ c.kind = .userData →
      R (visible c.timestamp) (visible' c.timestamp)) :
    R (visibleCells visible cells) (visibleCells visible' cells) := by
  unfold Reading.visibleCells
  refine h.bind (h.foldlM ?_ none) fun deletedAt => ?_
  · intro deletedAt c hc
    exact h.deletionStep (fun hkind => hvisible c hc (.inl hkind)) deletedAt
  · refine h.bind (h.foldlM ?_ SortedMap.empty) fun columns => h.pure _
    intro columns c hc
    exact h.versionStep (fun hkind => hvisible c hc (.inr hkind)) deletedAt columns

end Relates

theorem Compositional.relates {P : ∀ {γ : Type}, Reading γ → Prop} (h : Compositional P) :
    Relates Reading Reading fun act _ => P act :=
  ⟨h.pure, h.bind⟩

/-! ## Answers that are given again -/

/-- Everything that the one scope remembers, the other remembers too. -/
def Retains (s s' : ReadState) : Prop :=
  ∀ id record, s.scope.records.get? id = some record → s'.scope.records.get? id = some record

theorem Retains.trans {s s' s'' : ReadState} (h : Retains s s') (h' : Retains s' s'') :
    Retains s s'' :=
  fun id record hknown => h' id record (h id record hknown)

/-- If the reading answers, it forgets nothing, and it gives the same answer ever after, without a
change of the state. -/
def Repeatable (act : Reading α) : Prop :=
  ∀ s a s', act.run s = .ok a s' →
    Retains s s' ∧ ∀ later, Retains s' later → act.run later = .ok a later

/-- A look-up that finds a record puts it into the scope, and takes nothing out. -/
theorem retains_of_run_find {s s' : ReadState} {id : Timestamp} {record : Record}
    (hrun : (find id).run s = .ok record s') :
    Retains s s' ∧ s'.scope.records.get? id = some record := by
  cases hknown : s.scope.records.get? id with
  | some found =>
    rw [run_find_of_known hknown] at hrun
    cases hrun
    exact ⟨fun _ _ h => h, hknown⟩
  | none =>
    unfold find at hrun
    simp only [EStateM.run_bind, EStateM.run_get, hknown] at hrun
    cases hlook : (onRegistry (Registry.find id)).run s with
    | error e s₁ =>
      rw [hlook] at hrun
      cases hrun
    | ok found s₁ =>
      rw [hlook] at hrun
      cases hrun
      have hscope : s₁.scope = s.scope := by
        rw [onRegistry, Step.run_focus] at hlook
        cases hanswer : Step.answer (Registry.find id) s.registry with
        | error e =>
          rw [hanswer] at hlook
          cases hlook
        | ok found =>
          rw [hanswer] at hlook
          cases hlook
          rfl
      simp only [Retains, hscope, SortedMap.get?_insert_self, and_true]
      intro id' record' hknown'
      rwa [SortedMap.get?_insert_of_ne]
      rintro rfl
      rw [hknown] at hknown'
      cases hknown'

theorem repeatable_find (id : Timestamp) : Repeatable (find id) := by
  intro s record s' hrun
  rcases retains_of_run_find hrun with ⟨hretains, hknown⟩
  refine ⟨hretains, ?_⟩
  intro later hlater
  exact run_find_of_known (hlater id record hknown)

theorem compositional_repeatable : Compositional Repeatable := by
  constructor
  · intro γ result s a s' hrun
    cases result with
    | error e => cases hrun
    | ok b =>
      cases hrun
      exact ⟨fun _ _ h => h, fun later _ => rfl⟩
  · exact repeatable_find
  · intro γ δ act next hact hnext s d s' hrun
    cases hfirst : act.run s with
    | error e s₁ =>
      rw [Step.run_bind_of_error hfirst] at hrun
      cases hrun
    | ok c s₁ =>
      rw [Step.run_bind_of_ok hfirst] at hrun
      rcases hact s c s₁ hfirst with ⟨hretains, hagain⟩
      rcases hnext c s₁ d s' hrun with ⟨hretains', hagain'⟩
      refine ⟨hretains.trans hretains', ?_⟩
      intro later hlater
      rw [Step.run_bind_of_ok (hagain later (hretains'.trans hlater))]
      exact hagain' later hlater

/-- The verdict on a writer is reached again. -/
theorem repeatable_isWriterVisible (writer : Timestamp) (marker : Option Marker)
    (snapshot : Timestamp) (reader : Handle) :
    Repeatable (isWriterVisible writer marker snapshot reader) :=
  compositional_repeatable.isWriterVisible writer marker snapshot reader

/-! ## Kept verdicts -/

/-- The verdicts that were kept are reached again. -/
def Settled (visible : Timestamp → Reading Bool) (verdicts : Verdicts) (s : ReadState) : Prop :=
  ∀ writer verdict, verdicts.get? writer = some verdict →
    ∀ later, Retains s later → (visible writer).run later = .ok verdict later

/-- With verdicts kept, the computation ends as the reading does. -/
def Follows (visible : Timestamp → Reading Bool) (kept : StateT Verdicts Reading α)
    (act : Reading α) : Prop :=
  ∀ verdicts s, Settled visible verdicts s →
    match act.run s with
    | .ok a s' => ∃ verdicts', (kept.run verdicts).run s = .ok (a, verdicts') s' ∧
        Settled visible verdicts' s'
    | .error e s' => (kept.run verdicts).run s = .error e s'

variable {visible : Timestamp → Reading Bool}

theorem relates_follows (visible : Timestamp → Reading Bool) :
    Relates (StateT Verdicts Reading) Reading (Follows visible) := by
  constructor
  · intro γ c verdicts s hsettled
    exact ⟨verdicts, rfl, hsettled⟩
  · intro γ δ act act' next next' hact hnext verdicts s hsettled
    have hfirst := hact verdicts s hsettled
    cases hrun : act'.run s with
    | error e s₁ =>
      rw [hrun] at hfirst
      rw [Step.run_bind_of_error hrun, StateT.run_bind, Step.run_bind_of_error hfirst]
    | ok c s₁ =>
      rw [hrun] at hfirst
      rcases hfirst with ⟨verdicts₁, hkept, hsettled₁⟩
      rw [Step.run_bind_of_ok hrun, StateT.run_bind, Step.run_bind_of_ok hkept]
      exact hnext c verdicts₁ s₁ hsettled₁

theorem follows_judgeOnce (hvisible : ∀ writer, Repeatable (visible writer)) (writer : Timestamp) :
    Follows visible (judgeOnce visible writer) (visible writer) := by
  intro verdicts s hsettled
  cases hkept : verdicts.get? writer with
  | some verdict =>
    rw [hsettled writer verdict hkept s fun _ _ h => h]
    refine ⟨verdicts, ?_, hsettled⟩
    simp [judgeOnce, hkept]
  | none =>
    cases hrun : (visible writer).run s with
    | error e s' =>
      simp [judgeOnce, hkept, hrun]
    | ok verdict s' =>
      refine ⟨verdicts.insert writer verdict, ?_, ?_⟩
      · simp [judgeOnce, hkept, hrun]
      · rcases hvisible writer s verdict s' hrun with ⟨hretains, hagain⟩
        intro writer' verdict' hknown later hlater
        rcases SortedMap.eq_or_get?_of_insert hknown with ⟨rfl, rfl⟩ | hknown
        · exact hagain later hlater
        · exact hsettled writer' verdict' hknown later (hretains.trans hlater)

theorem Follows.run'_empty {kept : StateT Verdicts Reading α} {act : Reading α}
    (h : Follows visible kept act) : kept.run' .empty = act := by
  funext s
  have hend := h .empty s nofun
  change EStateM.run (Prod.fst <$> kept.run .empty) s = act.run s
  rw [Step.run_map]
  cases hrun : act.run s with
  | error e s' =>
    rw [hrun] at hend
    rw [hend]
  | ok a s' =>
    rw [hrun] at hend
    rcases hend with ⟨verdicts, hkept, _⟩
    rw [hkept]

/-- A row read answers as if it asked for each writer anew, and leaves the same state. -/
theorem readRow_eq (cells : List Cell) (reader : Handle) :
    readRow cells reader = (do
      let found ← Step.ofExcept ((markers cells).mapError .encoding)
      let visible := fun writer => isWriterVisible writer (found.get? writer) reader.snapshot reader
      visibleCells visible cells) := by
  unfold readRow
  congr 1
  funext found
  let visible := fun writer => isWriterVisible writer (found.get? writer) reader.snapshot reader
  have hvisible : ∀ writer, Repeatable (visible writer) := fun writer =>
    repeatable_isWriterVisible writer (found.get? writer) reader.snapshot reader
  have hfollows :
      Follows visible (visibleCells (judgeOnce visible) cells) (visibleCells visible cells) :=
    (relates_follows visible).visibleCells (judgeOnce visible) visible fun c _ _ =>
      follows_judgeOnce hvisible c.timestamp
  exact hfollows.run'_empty

theorem Compositional.readRow {P : ∀ {γ : Type}, Reading γ → Prop} (h : Compositional P)
    (cells : List Cell) (reader : Handle) : P (readRow cells reader) := by
  rw [readRow_eq]
  apply h.bind (h.ofExcept _)
  intro found
  let visible := fun writer =>
    Reading.isWriterVisible writer (found.get? writer) reader.snapshot reader
  exact h.relates.visibleCells visible visible fun c _ _ => h.isWriterVisible c.timestamp _ _ reader

end Reading

end SnapshotIsolation
