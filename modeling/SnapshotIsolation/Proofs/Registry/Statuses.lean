import SnapshotIsolation.Proofs.Registry.Lineage

/-!
# Effective status by the table

Whoever walks up the ancestors of a transaction, by look-ups that tell what a table has, tells what
the table says of the transaction. What a chain is settled with, later tables say too, whatever
handles transactions began under.

Main results:

- Theorem {lit}`Registry.Mirrors.status`: walks by any look-ups.
- Theorem {lit}`Registry.run_effectiveStatus`: the walk of the registry itself.
- Theorem {lit}`Registry.statusIn_of_lineage`: what a sound table says.
- Theorem {lit}`Registry.Concurs.of_extends`: later tables keep what a chain was settled with.
-/

namespace SnapshotIsolation

namespace Registry

variable {α β : Type} {t t' : Table} {r : Registry} {id : Timestamp} {ids : List Timestamp}

/-! ## Effective status by the table -/

/-- What a transaction counts for according to a table. -/
def statusIn (t : Table) (id : Timestamp) : Except StorageError EffectiveStatus := do
  EffectiveStatus.resolve (← lookUp t id) (lookUp t)

/-- A relation between computations and how they end, closed under doing nothing and under doing one
thing after another. -/
structure Mirrors {m : Type → Type} [Monad m]
    (ends : ∀ {γ : Type}, m γ → Except StorageError γ → Prop) : Prop where
  pure {γ : Type} (c : γ) : ends (pure c) (pure c)
  bind {γ δ : Type} {act : m γ} {next : γ → m δ} {result : Except StorageError γ}
    {answer : γ → Except StorageError δ} : ends act result → (∀ c, ends (next c) (answer c)) →
    ends (act >>= next) (result >>= answer)

section Walking

variable {m : Type → Type} [Monad m] {ends : ∀ {γ : Type}, m γ → Except StorageError γ → Prop}
  {look : Timestamp → m Record}

theorem Mirrors.walk (h : Mirrors ends) (hlook : ∀ id, ends (look id) (lookUp t id)) (active : Bool)
    (outermost : Option Timestamp) (ids : List Timestamp) :
    ends (EffectiveStatus.walk look active outermost ids)
      (EffectiveStatus.walk (lookUp t) active outermost ids) := by
  induction ids generalizing active outermost with
  | nil => cases outermost <;> exact h.pure _
  | cons ancestor ids ih =>
    rw [EffectiveStatus.walk, EffectiveStatus.walk]
    apply h.bind (hlook ancestor)
    intro record
    by_cases hfailed : record.status.isFailed = true
    · rw [if_pos hfailed, if_pos hfailed]
      exact h.pure _
    · rw [if_neg hfailed, if_neg hfailed]
      by_cases hactive : record.status = .active
      · rw [if_pos hactive, if_pos hactive]
        exact ih _ _
      · rw [if_neg hactive, if_neg hactive]
        exact ih _ _

/-- By look-ups that tell what a table has, the walk over the ancestors tells what the table
says. -/
theorem Mirrors.status (h : Mirrors ends) (hlook : ∀ id, ends (look id) (lookUp t id))
    (id : Timestamp) :
    ends (do EffectiveStatus.resolve (← look id) look) (statusIn t id) := by
  apply h.bind (hlook id)
  intro record
  unfold EffectiveStatus.resolve
  by_cases hfailed : record.status.isFailed = true
  · rw [if_pos hfailed, if_pos hfailed]
    exact h.pure _
  · rw [if_neg hfailed, if_neg hfailed]
    exact h.walk hlook _ _ _

end Walking

/-- Over a table the operation ends with the result, and leaves nothing but look-ups behind. -/
def Gives (t : Table) (act : Action α) (result : Except StorageError α) : Prop :=
  ∀ r, Coherent r → r.table = t → ∃ r', Consulted r r' ∧ act.run r = Step.ending result r'

theorem gives_pure (a : α) : Gives t (pure a) (pure a) :=
  fun r hr _ => ⟨r, .refl hr, rfl⟩

theorem gives_find (id : Timestamp) : Gives t (find id) (lookUp t id) := by
  rintro r hr rfl
  exact run_find hr id

theorem Gives.bind {act : Action α} {next : α → Action β} {result : Except StorageError α}
    {answer : α → Except StorageError β} (h : Gives t act result)
    (hnext : ∀ a, Gives t (next a) (answer a)) : Gives t (act >>= next) (result >>= answer) := by
  intro r hr htable
  rcases h r hr htable with ⟨r₁, hconsulted₁, hrun₁⟩
  cases result with
  | error e => exact ⟨r₁, hconsulted₁, Step.run_bind_of_error hrun₁⟩
  | ok a =>
    rcases hnext a r₁ hconsulted₁.coherent (hconsulted₁.table.trans htable) with
      ⟨r₂, hconsulted₂, hrun₂⟩
    exact ⟨r₂, hconsulted₁.trans hconsulted₂, (Step.run_bind_of_ok hrun₁).trans hrun₂⟩

theorem mirrors_gives : Mirrors fun act result => Gives t act result :=
  ⟨gives_pure, Gives.bind⟩

theorem gives_effectiveStatus (id : Timestamp) : Gives t (effectiveStatus id) (statusIn t id) :=
  mirrors_gives.status gives_find id

/-- What the walk over the ancestors answers is a matter of the table alone. -/
theorem run_effectiveStatus (h : Coherent r) (id : Timestamp) :
    ∃ r', Consulted r r' ∧
      (effectiveStatus id).run r = Step.ending (statusIn r.table id) r' :=
  gives_effectiveStatus id r h rfl

theorem answer_find (h : Coherent r) (id : Timestamp) :
    Step.answer (find id) r = lookUp r.table id := by
  rcases run_find h id with ⟨r', _, hrun⟩
  exact Step.answer_of_run hrun

theorem answer_effectiveStatus_eq (h : Coherent r) (id : Timestamp) :
    Step.answer (effectiveStatus id) r = statusIn r.table id := by
  rcases run_effectiveStatus h id with ⟨r', _, hrun⟩
  exact Step.answer_of_run hrun

variable {active : Bool} {outermost : Option Timestamp}

/-- What a table says of the remaining ancestors of a transaction. -/
def chainStatus (t : Table) (active : Bool) (outermost : Option Timestamp)
    (ids : List Timestamp) : Except StorageError EffectiveStatus :=
  EffectiveStatus.walk (lookUp t) active outermost ids

theorem chainStatus_cons (ancestor : Timestamp) :
    chainStatus t active outermost (ancestor :: ids) =
      match lookUp t ancestor with
      | .error e => .error e
      | .ok record =>
        if record.status.isFailed then .ok (.failed record.status)
        else if record.status = .active then chainStatus t true outermost ids
        else chainStatus t active record.commitTs ids := by
  unfold chainStatus
  rw [EffectiveStatus.walk]
  cases lookUp t ancestor <;> rfl

theorem statusIn_eq (id : Timestamp) :
    statusIn t id =
      match lookUp t id with
      | .error e => .error e
      | .ok record =>
        if record.status.isFailed then .ok (.failed record.status)
        else chainStatus t (record.status = .active) record.commitTs record.ancestors := by
  unfold statusIn
  cases lookUp t id <;> rfl

/-- A transaction and the ancestors that its record lists. -/
def members (t : Table) (id : Timestamp) : List Timestamp :=
  id :: (t.get? id).elim [] (·.ancestors)

theorem chainStatus_congr (h : ∀ a ∈ ids, t'.get? a = t.get? a) :
    chainStatus t' active outermost ids = chainStatus t active outermost ids := by
  induction ids generalizing active outermost with
  | nil => rfl
  | cons ancestor ids ih =>
    have hrest : ∀ active outermost,
        chainStatus t' active outermost ids = chainStatus t active outermost ids :=
      fun _ _ => ih fun a ha => h a (List.mem_cons_of_mem _ ha)
    simp only [chainStatus_cons, lookUp, h ancestor List.mem_cons_self, hrest]

/-- What a table says of a transaction is a matter of the records of it and its ancestors. -/
theorem statusIn_congr (h : ∀ a ∈ members t id, t'.get? a = t.get? a) :
    statusIn t' id = statusIn t id := by
  have hown := h id List.mem_cons_self
  cases hfound : t.get? id with
  | none => simp only [statusIn_eq, lookUp, hown, hfound]
  | some record =>
    have habove : ∀ active outermost, chainStatus t' active outermost record.ancestors =
        chainStatus t active outermost record.ancestors := by
      intro active outermost
      apply chainStatus_congr
      intro a ha
      apply h a
      simp [members, hfound, ha]
    simp only [statusIn_eq, lookUp, hown, hfound, habove]

/-! ## Commit times -/

/-- Above an active member no chain is committed. -/
theorem chainStatus_active_ne_committed (outermost : Option Timestamp) (ids : List Timestamp)
    (ts : Timestamp) : chainStatus t true outermost ids ≠ .ok (.committed ts) := by
  induction ids generalizing outermost with
  | nil => cases outermost <;> exact nofun
  | cons ancestor ids ih =>
    intro h
    rw [chainStatus_cons] at h
    split at h
    · cases h
    · split at h
      · cases h
      · split at h
        · exact ih _ h
        · exact ih _ h

/-- A transaction that counts as committed was committed itself. -/
theorem committed_of_statusIn {ts : Timestamp} (h : statusIn t id = .ok (.committed ts)) :
    ∃ record, lookUp t id = .ok record ∧ record.status = .committed ∧
      chainStatus t false record.commitTs record.ancestors = .ok (.committed ts) := by
  rw [statusIn_eq] at h
  split at h
  · cases h
  · rename_i record hfound
    split at h
    · cases h
    · rename_i hfailed
      rcases Status.isFailed_eq_false_iff.1 (Bool.eq_false_iff.2 hfailed) with hactive | hcommitted
      · rw [hactive] at h
        exact absurd h (chainStatus_active_ne_committed _ _ _)
      · rw [hcommitted] at h
        exact ⟨record, hfound, hcommitted, h⟩

/-- A chain counts as committed at a time at which one of its members was committed. -/
theorem exists_of_chainStatus_committed {ts : Timestamp}
    (h : chainStatus t active outermost ids = .ok (.committed ts)) :
    outermost = some ts ∨ ∃ id record, t.get? id = some record ∧ record.status = .committed ∧
      record.commitTs = some ts := by
  induction ids generalizing active outermost with
  | nil =>
    cases outermost with
    | none => cases h
    | some outermost =>
      cases active with
      | true => cases h
      | false =>
        cases h
        exact .inl rfl
  | cons ancestor ids ih =>
    rw [chainStatus_cons] at h
    split at h
    · cases h
    · rename_i record hfound
      split at h
      · cases h
      · rename_i hfailed
        split at h
        · exact absurd h (chainStatus_active_ne_committed _ _ _)
        · rename_i hsettled
          have hcommitted := (Status.isFailed_eq_false_iff.1
            (Bool.eq_false_iff.2 hfailed)).resolve_left hsettled
          rcases ih h with hts | hmember
          · exact .inr ⟨ancestor, record, get?_of_lookUp hfound, hcommitted, hts⟩
          · exact .inr hmember

theorem exists_of_statusIn_committed {ts : Timestamp} (h : statusIn t id = .ok (.committed ts)) :
    ∃ id record, t.get? id = some record ∧ record.status = .committed ∧
      record.commitTs = some ts := by
  rcases committed_of_statusIn h with ⟨record, hfound, hcommitted, hchain⟩
  rcases exists_of_chainStatus_committed hchain with hts | hmember
  · exact ⟨id, record, get?_of_lookUp hfound, hcommitted, hts⟩
  · exact hmember

/-- No transaction was committed at the one time whose bytes stand for failure in a marker. -/
def Expressible (t : Table) : Prop :=
  ∀ id record, t.get? id = some record → record.status = .committed →
    record.commitTs ≠ some ⟨0xFFFFFFFFFFFFFFFF⟩

theorem Expressible.ne_of_statusIn (h : Expressible t) {ts : Timestamp}
    (hstatus : statusIn t id = .ok (.committed ts)) : ts.raw ≠ 0xFFFFFFFFFFFFFFFF := by
  rcases exists_of_statusIn_committed hstatus with ⟨id', record, hfound, hcommitted, hts⟩
  intro hmax
  exact h id' record hfound hcommitted (hts.trans (congrArg (some ∘ Timestamp.mk) hmax))

/-! ## Effective status in later tables -/

theorem lookUp_of_extends (h : Extends t t') {record : Record} (hfound : lookUp t id = .ok record)
    (hterminal : record.status.isTerminal = true) : lookUp t' id = .ok record :=
  lookUp_of_get? (h.terminal (get?_of_lookUp hfound) hterminal)

theorem isTerminal_of_isFailed {status : Status} (h : status.isFailed = true) :
    status.isTerminal = true := by
  rcases Status.isFailed_iff.1 h with rfl | rfl <;> rfl

/-- The ancestors of a committed chain are settled, so they stay as they are. -/
theorem chainStatus_committed_of_extends (hextends : Extends t t') {ts : Timestamp}
    (h : chainStatus t active outermost ids = .ok (.committed ts)) :
    chainStatus t' active outermost ids = .ok (.committed ts) := by
  induction ids generalizing active outermost with
  | nil => exact h
  | cons ancestor ids ih =>
    rw [chainStatus_cons] at h ⊢
    split at h
    · cases h
    · rename_i record hfound
      split at h
      · cases h
      · rename_i hfailed
        split at h
        · exact absurd h (chainStatus_active_ne_committed _ _ _)
        · rename_i hsettled
          rw [lookUp_of_extends hextends hfound (Status.isTerminal_iff.2 hsettled)]
          simp only [hfailed, hsettled, Bool.false_eq_true, if_false]
          exact ih h

/-- An ancestor that failed remains failed, whatever becomes of the members below it. -/
theorem chainStatus_failed_of_extends (hextends : Extends t t') {status : Status}
    (h : chainStatus t active outermost ids = .ok (.failed status)) (active' : Bool)
    (outermost' : Option Timestamp) :
    ∃ status', chainStatus t' active' outermost' ids = .ok (.failed status') ∧
      status'.isFailed = true := by
  induction ids generalizing active outermost active' outermost' with
  | nil => cases outermost <;> cases active <;> cases h
  | cons ancestor ids ih =>
    rw [chainStatus_cons] at h ⊢
    split at h
    · cases h
    · rename_i record hfound
      split at h
      · rename_i hfailed
        rw [lookUp_of_extends hextends hfound (isTerminal_of_isFailed hfailed)]
        exact ⟨record.status, if_pos hfailed, hfailed⟩
      · rename_i hfailed
        rcases hextends.kept (get?_of_lookUp hfound) with ⟨record', hfound', _⟩
        have hrest : ∀ active' outermost', ∃ status',
            chainStatus t' active' outermost' ids = .ok (.failed status') ∧
              status'.isFailed = true := by
          split at h
          · exact ih h
          · exact ih h
        rw [lookUp_of_get? hfound']
        dsimp only
        split
        · rename_i hfailed'
          exact ⟨record'.status, rfl, hfailed'⟩
        · split
          · exact hrest _ _
          · exact hrest _ _

/-- A later table has a committed transaction committed at the same time. -/
theorem statusIn_committed_of_extends (hextends : Extends t t') {ts : Timestamp}
    (h : statusIn t id = .ok (.committed ts)) : statusIn t' id = .ok (.committed ts) := by
  rcases committed_of_statusIn h with ⟨record, hfound, hcommitted, hchain⟩
  have hterminal : record.status.isTerminal = true := by
    rw [hcommitted]
    rfl
  rw [statusIn_eq, lookUp_of_extends hextends hfound hterminal]
  simp only [hcommitted, Status.isFailed, Bool.false_eq_true, if_false]
  exact chainStatus_committed_of_extends hextends hchain

/-- A later table has a failed transaction failed. -/
theorem statusIn_failed_of_extends (hextends : Extends t t') {status : Status}
    (h : statusIn t id = .ok (.failed status)) :
    ∃ status', statusIn t' id = .ok (.failed status') ∧ status'.isFailed = true := by
  rw [statusIn_eq] at h ⊢
  split at h
  · cases h
  · rename_i record hfound
    split at h
    · rename_i hfailed
      rw [lookUp_of_extends hextends hfound (isTerminal_of_isFailed hfailed)]
      exact ⟨record.status, if_pos hfailed, hfailed⟩
    · rcases hextends.kept (get?_of_lookUp hfound) with ⟨record', hfound', hhandle⟩
      rw [lookUp_of_get? hfound']
      dsimp only
      split
      · rename_i hfailed'
        exact ⟨record'.status, rfl, hfailed'⟩
      · rw [hhandle]
        exact chainStatus_failed_of_extends hextends h _ _

/-- The answers say the same of a transaction, except for how it failed. -/
inductive Concurs : Except StorageError EffectiveStatus → Except StorageError EffectiveStatus → Prop
  | same (answer : Except StorageError EffectiveStatus) : Concurs answer answer
  | failed (status status' : Status) : Concurs (.ok (.failed status)) (.ok (.failed status'))

theorem Concurs.of_eq {found answer : Except StorageError EffectiveStatus} (h : answer = found) :
    Concurs found answer :=
  h ▸ .same _

/-- Later tables concur in what is said of a transaction that its chain has settled. -/
theorem Concurs.of_extends (hextends : Extends t t') {status : EffectiveStatus}
    (h : Concurs (.ok status) (statusIn t id)) (hsettled : status ≠ .active) :
    Concurs (.ok status) (statusIn t' id) := by
  have hfailed : ∀ {status status'}, statusIn t id = .ok (.failed status') →
      Concurs (.ok (.failed status)) (statusIn t' id) := by
    intro status status' hstatus
    rcases statusIn_failed_of_extends hextends hstatus with ⟨status'', hstatus'', _⟩
    exact hstatus'' ▸ .failed status status''
  generalize hstatus : statusIn t id = answer at h
  cases h with
  | same =>
    cases status with
    | active => exact absurd rfl hsettled
    | committed ts => exact statusIn_committed_of_extends hextends hstatus ▸ .same _
    | failed status => exact hfailed hstatus
  | failed status status' => exact hfailed hstatus

/-! ## Effective status by the lineage -/

/-- What the walk over the records of the remaining ancestors tells. -/
def statusAbove (active : Bool) (outermost : Option Timestamp) (records : List Record) :
    EffectiveStatus :=
  match records.find? (·.status.isFailed) with
  | some member => .failed member.status
  | none =>
    if active || records.any (·.status = .active) then .active
    else
      match (records.getLast?.map (·.commitTs)).getD outermost with
      | some ts => .committed ts
      | none => .active

theorem statusAbove_cons_failed {active : Bool} {outermost : Option Timestamp} {r : Record}
    {records : List Record} (h : r.status.isFailed = true) :
    statusAbove active outermost (r :: records) = .failed r.status := by
  simp [statusAbove, h]

theorem statusAbove_cons_active {active : Bool} {outermost : Option Timestamp} {r : Record}
    {records : List Record} (h : r.status = .active) :
    statusAbove active outermost (r :: records) = statusAbove true outermost records := by
  simp [statusAbove, h, Status.isFailed]

theorem statusAbove_cons_committed {active : Bool} {outermost : Option Timestamp} {r : Record}
    {records : List Record} (h : r.status = .committed) :
    statusAbove active outermost (r :: records) = statusAbove active r.commitTs records := by
  cases hlast : records.getLast? with
  | none => simp [statusAbove, h, Status.isFailed, List.getLast?_cons, hlast]
  | some last => simp [statusAbove, h, Status.isFailed, List.getLast?_cons, hlast]

theorem ofRecords_cons_of_failed {r : Record} {records : List Record}
    (h : r.status.isFailed = true) :
    EffectiveStatus.ofRecords (r :: records) = .failed r.status := by
  simp [EffectiveStatus.ofRecords, h]

theorem ofRecords_cons {r : Record} {records : List Record} (h : r.status.isFailed = false) :
    EffectiveStatus.ofRecords (r :: records) =
      statusAbove (r.status = .active) r.commitTs records := by
  have hlast : (r :: records).getLast?.bind (·.commitTs) =
      (records.getLast?.map (·.commitTs)).getD r.commitTs := by
    cases hlast : records.getLast? with
    | none => simp [List.getLast?_cons, hlast]
    | some last => simp [List.getLast?_cons, hlast]
  have hfirst : (r :: records).find? (·.status.isFailed) = records.find? (·.status.isFailed) :=
    List.find?_cons_of_neg (by simp [h])
  unfold EffectiveStatus.ofRecords statusAbove
  cases hfailed : records.find? (·.status.isFailed) with
  | some member => simp [hfirst, hfailed]
  | none =>
    cases hts : (records.getLast?.map (·.commitTs)).getD r.commitTs with
    | none => simp [hfirst, hfailed, hlast, hts]
    | some ts => simp [hfirst, hfailed, hlast, hts]

theorem chainStatus_map_id {records : List Record} (h : ∀ r ∈ records, t.get? r.id = some r) :
    chainStatus t active outermost (records.map (·.id)) =
      .ok (statusAbove active outermost records) := by
  induction records generalizing active outermost with
  | nil => cases outermost <;> cases active <;> rfl
  | cons r records ih =>
    have hrest : ∀ a ∈ records, t.get? a.id = some a :=
      fun a ha => h a (List.mem_cons_of_mem _ ha)
    rw [List.map_cons, chainStatus_cons, lookUp_of_get? (h r List.mem_cons_self)]
    dsimp only
    by_cases hfailed : r.status.isFailed = true
    · rw [if_pos hfailed, statusAbove_cons_failed hfailed]
    · rw [if_neg hfailed]
      rcases Status.isFailed_eq_false_iff.1 (Bool.eq_false_iff.2 hfailed) with hactive | hcommitted
      · rw [if_pos hactive, statusAbove_cons_active hactive, ih hrest]
      · rw [if_neg (by simp [hcommitted]), statusAbove_cons_committed hcommitted, ih hrest]

/-- A sound table says of a transaction what the records of its lineage tell. -/
theorem statusIn_of_lineage (h : Sound t) {records : List Record}
    (hlineage : Lineage t id records) :
    statusIn t id = .ok (EffectiveStatus.ofRecords records) := by
  rcases List.exists_cons_of_ne_nil hlineage.ne_nil with ⟨record, rest, rfl⟩
  rw [statusIn_eq, lookUp_of_get? hlineage.get?]
  dsimp only
  by_cases hfailed : record.status.isFailed = true
  · rw [if_pos hfailed, ofRecords_cons_of_failed hfailed]
  · rw [if_neg hfailed, ofRecords_cons (Bool.eq_false_iff.2 hfailed), ← hlineage.map_id h]
    apply chainStatus_map_id
    intro r hr
    exact hlineage.get?_of_mem h (List.mem_cons_of_mem _ hr)

end Registry

end SnapshotIsolation
