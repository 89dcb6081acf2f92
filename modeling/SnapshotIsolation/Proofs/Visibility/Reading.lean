import SnapshotIsolation.Proofs.Registry.Statuses
import SnapshotIsolation.Visibility.Scope

/-!
# What readings answer

A reading looks records up through its scope and through the registry's cache. What it answers
depends alone on the table that these two make up, which is the registry's own unless that changed
since a look-up.

Main results:

- Theorem {lit}`Reading.answers_find`: a look-up answers from the table.
- Theorem {lit}`Reading.answers_statusIn`: the walk over the ancestors answers what the table says
  of a transaction.
-/

namespace SnapshotIsolation

open Registry (Table Coherent Consulted lookUp Lineage Sound statusIn)

/-- The record that a reading goes by: the one in the scope, or else the registry's. -/
def ReadState.known? (s : ReadState) (id : Timestamp) : Option Record :=
  (s.scope.records.get? id).or (s.registry.table.get? id)

/-- What readings go by is what the table has. The table is the registry's own if that has not
changed since the first look-up, and otherwise it may be behind. -/
structure ReadState.Faithful (t : Table) (s : ReadState) : Prop where
  coherent : Coherent s.registry
  known (id : Timestamp) : s.known? id = t.get? id

/-- A scope that holds what the registry's table has is faithful to that. -/
theorem ReadState.faithful_of_scope {s : ReadState} (h : Coherent s.registry)
    (hscope : ∀ id record, s.scope.records.get? id = some record →
      s.registry.table.get? id = some record) : ReadState.Faithful s.registry.table s := by
  refine ⟨h, fun id => ?_⟩
  unfold known?
  cases hknown : s.scope.records.get? id with
  | none => rfl
  | some record => rw [hscope id record hknown, Option.some_or]

theorem ReadState.faithful_empty {r : Registry} (h : Coherent r) :
    ReadState.Faithful r.table ⟨r, .empty⟩ :=
  ReadState.faithful_of_scope (s := ⟨r, .empty⟩) h nofun

namespace Reading

variable {α β : Type} {t : Table}

/-- Over a table the reading ends with the result, whatever was looked up before. -/
def Answers (t : Table) (act : Reading α) (result : Except StorageError α) : Prop :=
  ∀ s : ReadState, s.Faithful t → ∃ s' : ReadState, s'.Faithful t ∧
    Consulted s.registry s'.registry ∧ act.run s = Step.ending result s'

theorem answers_pure (a : α) : Answers t (pure a) (.ok a) := by
  intro s hs
  exact ⟨s, hs, .refl hs.coherent, rfl⟩

theorem answers_ofExcept (result : Except StorageError α) :
    Answers t (Step.ofExcept result) result := by
  intro s hs
  exact ⟨s, hs, .refl hs.coherent, Step.run_ofExcept ..⟩

theorem Answers.bind {act : Reading α} {next : α → Reading β} {a : α}
    {result : Except StorageError β} (h : Answers t act (.ok a))
    (hnext : Answers t (next a) result) : Answers t (act >>= next) result := by
  intro s hs
  rcases h s hs with ⟨s₁, hs₁, hconsulted₁, hrun₁⟩
  rcases hnext s₁ hs₁ with ⟨s₂, hs₂, hconsulted₂, hrun₂⟩
  refine ⟨s₂, hs₂, hconsulted₁.trans hconsulted₂, ?_⟩
  rw [Step.run_bind_of_ok hrun₁, hrun₂]

theorem Answers.bind_error {act : Reading α} {next : α → Reading β} {e : StorageError}
    (h : Answers t act (.error e)) : Answers t (act >>= next) (.error e) := by
  intro s hs
  rcases h s hs with ⟨s', hs', hconsulted, hrun⟩
  refine ⟨s', hs', hconsulted, ?_⟩
  rw [Step.run_bind_of_error hrun]
  rfl

theorem answers_anyM {test : α → Reading Bool} {items : List α}
    (h : ∀ a ∈ items, ∃ b, Answers t (test a) (.ok b)) :
    ∃ b, Answers t (items.anyM test) (.ok b) := by
  induction items with
  | nil => exact ⟨false, answers_pure false⟩
  | cons a items ih =>
    rcases h a List.mem_cons_self with ⟨b, hb⟩
    rcases ih fun a' ha' => h a' (List.mem_cons_of_mem _ ha') with ⟨rest, hrest⟩
    cases b with
    | true => exact ⟨true, by rw [List.anyM_cons]; exact hb.bind (answers_pure true)⟩
    | false => exact ⟨rest, by rw [List.anyM_cons]; exact hb.bind hrest⟩

/-- What the scope has is not looked up again. -/
theorem run_find_of_known {s : ReadState} {id : Timestamp} {record : Record}
    (h : s.scope.records.get? id = some record) : (find id).run s = .ok record s := by
  unfold find
  simp only [EStateM.run_bind, EStateM.run_get, h]
  rfl

/-- What the scope does not have is looked up in the registry, and joins the scope if it is
found. -/
theorem run_find_of_unknown {s : ReadState} (hcoherent : Coherent s.registry) {id : Timestamp}
    (h : s.scope.records.get? id = none) :
    ∃ r', Consulted s.registry r' ∧ (find id).run s =
      match s.registry.table.get? id with
      | some record => .ok record ⟨r', ⟨s.scope.records.insert id record⟩⟩
      | none => .error (.transaction (.notFound id)) { s with registry := r' } := by
  rcases Registry.run_find hcoherent id with ⟨r', hconsulted, hfind⟩
  refine ⟨r', hconsulted, ?_⟩
  have hrun : (onRegistry (Registry.find id)).run s =
      Step.ending (lookUp s.registry.table id) { s with registry := r' } :=
    Step.run_focus_of_ending hfind
  unfold find
  simp only [EStateM.run_bind, EStateM.run_get, h, hrun]
  cases hfound : s.registry.table.get? id with
  | none => simp [Registry.lookUp_of_get?_eq_none hfound]
  | some record => simp [Registry.lookUp_of_get? hfound]

/-- A look-up answers from the table. -/
theorem answers_find (id : Timestamp) : Answers t (find id) (lookUp t id) := by
  intro s hs
  cases hscope : s.scope.records.get? id with
  | some record =>
    have hfound : t.get? id = some record := by
      rw [← hs.known id, ReadState.known?, hscope, Option.some_or]
    rw [Registry.lookUp_of_get? hfound]
    exact ⟨s, hs, .refl hs.coherent, run_find_of_known hscope⟩
  | none =>
    have htable : s.registry.table.get? id = t.get? id := by
      rw [← hs.known id, ReadState.known?, hscope, Option.none_or]
    rcases run_find_of_unknown hs.coherent hscope with ⟨r', hconsulted, hrun⟩
    have hkept : ∀ id', ReadState.known? ⟨r', s.scope⟩ id' = t.get? id' := by
      intro id'
      rw [← hs.known id', ReadState.known?, ReadState.known?, hconsulted.table]
    rw [htable] at hrun
    cases hfound : t.get? id with
    | none =>
      rw [hfound] at hrun
      rw [Registry.lookUp_of_get?_eq_none hfound]
      exact ⟨_, ⟨hconsulted.coherent, hkept⟩, hconsulted, hrun⟩
    | some record =>
      rw [hfound] at hrun
      rw [Registry.lookUp_of_get? hfound]
      refine ⟨_, ⟨hconsulted.coherent, ?_⟩, hconsulted, hrun⟩
      intro id'
      by_cases hid : id' = id
      · subst hid
        rw [ReadState.known?, SortedMap.get?_insert_self, Option.some_or, hfound]
      · rw [← hkept id', ReadState.known?, SortedMap.get?_insert_of_ne _ _ hid]
        rfl

theorem answers_find_of_get? {id : Timestamp} {record : Record} (h : t.get? id = some record) :
    Answers t (find id) (.ok record) := by
  rw [← Registry.lookUp_of_get? h]
  exact answers_find id

/-- A relation between computations and what they give, closed under doing nothing and under doing
one thing after another. -/
structure Composes {m : Type → Type} [Monad m] (gives : ∀ {γ : Type}, m γ → γ → Prop) : Prop where
  pure {γ : Type} (c : γ) : gives (pure c) c
  bind {γ δ : Type} {act : m γ} {next : γ → m δ} {c : γ} {d : δ} : gives act c →
    gives (next c) d → gives (act >>= next) d

theorem mirrors_answers : Registry.Mirrors fun act result => Answers t act result := by
  constructor
  · exact answers_pure
  · intro _ _ _ _ result _ h hnext
    cases result with
    | error e => exact h.bind_error
    | ok a => exact h.bind (hnext a)

/-- The walk over the ancestors answers what the table says of the transaction. -/
theorem answers_statusIn (id : Timestamp) : Answers t (effectiveStatus id) (statusIn t id) :=
  mirrors_answers.status answers_find id

theorem composes_answers : Composes fun act a => Answers t act (.ok a) :=
  ⟨answers_pure, Answers.bind⟩

/-! ## Readings in general -/

/-- What the reading answers is a matter of the table alone. -/
def Determined (t : Table) (act : Reading α) : Prop :=
  ∃ result, Answers t act result

theorem determined_pure (a : α) : Determined t (pure a : Reading α) :=
  ⟨_, answers_pure a⟩

theorem determined_ofExcept (result : Except StorageError α) :
    Determined t (Step.ofExcept result) :=
  ⟨_, answers_ofExcept result⟩

theorem determined_find (id : Timestamp) : Determined t (find id) :=
  ⟨_, answers_find id⟩

theorem Determined.bind {act : Reading α} {next : α → Reading β} (h : Determined t act)
    (hnext : ∀ a, Determined t (next a)) : Determined t (act >>= next) := by
  rcases h with ⟨result, hact⟩
  cases result with
  | error e => exact ⟨_, hact.bind_error⟩
  | ok a =>
    rcases hnext a with ⟨result, hresult⟩
    exact ⟨result, hact.bind hresult⟩

theorem determined_anyM {test : α → Reading Bool} (h : ∀ a, Determined t (test a))
    (items : List α) : Determined t (items.anyM test) := by
  induction items with
  | nil => exact determined_pure false
  | cons a items ih =>
    rw [List.anyM_cons]
    apply (h a).bind
    rintro (_ | _)
    · exact ih
    · exact determined_pure true

end Reading

/-! ## Without a scope -/

namespace Registry

theorem answer_effectiveStatus {r : Registry} (hcoherent : Coherent r) (h : Sound r.table)
    {id : Timestamp} {record : Record} (hfound : r.table.get? id = some record) :
    Step.answer (effectiveStatus id) r = .ok (EffectiveStatus.ofRecords (lineage r.table id)) := by
  rw [answer_effectiveStatus_eq hcoherent, statusIn_of_lineage h (h.lineage hfound)]

theorem answer_effectiveStatus_of_none {r : Registry} (hcoherent : Coherent r) {id : Timestamp}
    (hfound : r.table.get? id = none) :
    Step.answer (effectiveStatus id) r = .error (.transaction (.notFound id)) := by
  rw [answer_effectiveStatus_eq hcoherent, statusIn_eq, lookUp_of_get?_eq_none hfound]

end Registry

end SnapshotIsolation
