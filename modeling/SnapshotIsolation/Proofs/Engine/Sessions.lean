import SnapshotIsolation.Proofs.Engine.Effects

/-!
# Sessions

A session is an engine together with the handles that it handed out. Calls may only name such
handles, but otherwise come in any order, and others may settle transactions while a call waits
for its timestamp.

Main results:

- Theorem {lit}`Session.Regular.of_run`: in every session that is reached over answers below the
  limit, the records are sound and every marker agrees with its writer's lineage.
-/

namespace SnapshotIsolation

open Registry (Table Coherent Extends Sound Bounded Begins Settling Interfered lineage Lineage)

/-- A commit is below the values that are never issued; other outcomes have no time. -/
def Outcome.BelowLimit : Outcome → Prop
  | .commit ts => ts < Timestamp.limit
  | .rollback | .error => True

instance : DecidablePred Outcome.BelowLimit
  | .commit ts => inferInstanceAs (Decidable (ts < Timestamp.limit))
  | .rollback | .error => .isTrue trivial

/-- The timestamp of an answer and the commit times of what others did before it are below the
values that are never issued. -/
def Answer.BelowLimit (a : Answer) : Prop :=
  (∀ ts ∈ a.result.toOption, ts < Timestamp.limit) ∧ ∀ x ∈ a.meanwhile, x.2.BelowLimit

instance : DecidablePred Answer.BelowLimit := fun a =>
  inferInstanceAs (Decidable ((∀ ts ∈ a.result.toOption, ts < Timestamp.limit) ∧
    ∀ x ∈ a.meanwhile, x.2.BelowLimit))

/-! ## What others may do to the records -/

namespace Registry

variable {t t' : Table} {id : Timestamp}

theorem Bounded.insert {record : Record} (h : Bounded t)
    (hrecord : record.status = .committed → ∀ ts, record.commitTs = some ts →
      ts < Timestamp.limit) : Bounded (t.insert id record) := by
  intro k r ts hfound hcommitted hts
  rcases SortedMap.eq_or_get?_of_insert hfound with ⟨rfl, rfl⟩ | hfound
  · exact hrecord hcommitted ts hts
  · exact h k r ts hfound hcommitted hts

theorem Bounded.insert_closed {old new : Record} {outcome : Outcome} (h : Bounded t)
    (hcloses : Record.Closes old outcome new) (hbelow : outcome.BelowLimit) :
    Bounded (t.insert id new) := by
  apply h.insert
  intro hcommitted ts hts
  rcases Outcome.eq_commit_of_status (hcloses.status.symm.trans hcommitted) with ⟨ts', rfl⟩
  have hclosing := hcloses.commitTs.symm.trans hts
  cases hclosing
  exact hbelow

theorem Settling.sound {outcome : Outcome} {result : Except StorageError Unit}
    (h : Settling t id outcome result t') (hsound : Sound t) : Sound t' := by
  cases h with
  | refused _ => exact hsound
  | repeated _ _ => exact hsound
  | closed hold hcloses => exact hsound.insert_closed hold hcloses

theorem Settling.bounded {outcome : Outcome} {result : Except StorageError Unit}
    (h : Settling t id outcome result t') (hbounded : Bounded t) (hbelow : outcome.BelowLimit) :
    Bounded t' := by
  cases h with
  | refused _ => exact hbounded
  | repeated _ _ => exact hbounded
  | closed hold hcloses => exact hbounded.insert_closed hcloses hbelow

theorem Interfered.sound {others : Meanwhile} (h : Interfered others t t') (hsound : Sound t) :
    Sound t' := by
  induction h with
  | nil => exact hsound
  | cons hsettling _ ih => exact ih (hsettling.sound hsound)

theorem Interfered.bounded {others : Meanwhile} (h : Interfered others t t') (hbounded : Bounded t)
    (hbelow : ∀ x ∈ others, x.2.BelowLimit) : Bounded t' := by
  induction h with
  | nil => exact hbounded
  | cons hsettling _ ih =>
    refine ih (hsettling.bounded hbounded ?_) ?_
    · exact hbelow _ List.mem_cons_self
    · intro x hx
      exact hbelow x (List.mem_cons_of_mem _ hx)

end Registry

/-! ## What the cells say of the records -/

/-- The writer of every cell is recorded, and every marker agrees with its writer's lineage. -/
structure CellStore.Attested (t : Table) (s : CellStore) : Prop where
  writers {c : Cell} : c ∈ s.toList → ∃ record, t.get? c.timestamp = some record
  markers {c : Cell} : c ∈ s.toList → c.kind = .commitMarker →
    ∃ m, Marker.decode c.value = .ok m ∧ m.Agrees (lineage t c.timestamp)

namespace CellStore

variable {t t' : Table} {s s' : CellStore}

theorem Attested.of_extends (h : Attested t s) (hsound : Sound t) (hsound' : Sound t')
    (hextends : Extends t t') : Attested t' s := by
  constructor
  · intro c hc
    rcases h.writers hc with ⟨record, hfound⟩
    rcases hextends.kept hfound with ⟨record', hfound', _⟩
    exact ⟨record', hfound'⟩
  · intro c hc hkind
    rcases h.writers hc with ⟨record, hfound⟩
    rcases hextends.kept hfound with ⟨record', hfound', _⟩
    rcases h.markers hc hkind with ⟨m, hdecode, hagrees⟩
    exact ⟨m, hdecode,
      hagrees.of_extends hextends (hsound.lineage hfound) (hsound'.lineage hfound')⟩

theorem Attested.of_writtenBy {id : Timestamp} {record : Record} (h : Attested t s)
    (hfound : t.get? id = some record) (hwritten : WrittenBy id s s') : Attested t s' := by
  have hold : ∀ {c : Cell}, c ∈ s'.toList → c.timestamp ≠ id → c ∈ s.toList :=
    fun hc hother => (hwritten.others hother).1 hc
  constructor
  · intro c hc
    by_cases hown : c.timestamp = id
    · exact ⟨record, hown ▸ hfound⟩
    · exact h.writers (hold hc hown)
  · intro c hc hkind
    rcases hwritten.markers hkind hc with hc | hempty
    · exact h.markers hc hkind
    · exact ⟨.unresolved, by rw [hempty]; rfl, trivial⟩

theorem Attested.of_resolved (h : Attested t s) (hresolved : Resolved t s s') : Attested t s' := by
  constructor
  · intro c hc
    by_cases hkind : c.kind = .commitMarker
    · rcases hresolved.markers hkind hc with hc | ⟨⟨c₀, hc₀, hkey, _⟩, _⟩
      · exact h.writers hc
      · have hwriter : c₀.timestamp = c.timestamp := congrArg Cell.Key.timestamp hkey
        rw [← hwriter]
        exact h.writers hc₀
    · exact h.writers ((hresolved.others hkind).1 hc)
  · intro c hc hkind
    rcases hresolved.markers hkind hc with hc | ⟨_, hagrees⟩
    · exact h.markers hc hkind
    · exact hagrees

end CellStore

/-! ## What a deed keeps -/

namespace Deed

variable {t₀ t t' : Table} {asked : List Answer} {s s' : CellStore} {call : Call}
  {result : Except StorageError (Option Handle)}

theorem extended (h : Deed t₀ asked t s call result t' s') : Extends t t' := by
  cases h with
  | looked _ => exact .refl t
  | began _ hbegins => exact Registry.extends_insert_of_unused hbegins.unused _
  | committed _ hold hcloses _ => exact Registry.extends_insert_of_closes hold hcloses
  | failed hold hcloses => exact Registry.extends_insert_of_closes hold hcloses
  | rolledBack hold hcloses => exact Registry.extends_insert_of_closes hold hcloses
  | wrote _ _ _ _ => exact .refl t
  | resolved _ => exact .refl t

theorem sound (h : Deed t₀ asked t s call result t' s') (hsound : Sound t)
    (hrecorded : ∀ p ∈ call.handles, ∃ above, t.get? p.id = some above ∧ above.toHandle = p) :
    Sound t' := by
  cases h with
  | looked _ => exact hsound
  | began _ hbegins =>
    apply hsound.insert_begun hbegins
    rintro p rfl
    exact hrecorded p (by simp [Call.handles])
  | committed _ hold hcloses _ => exact hsound.insert_closed hold hcloses
  | failed hold hcloses => exact hsound.insert_closed hold hcloses
  | rolledBack hold hcloses => exact hsound.insert_closed hold hcloses
  | wrote _ _ _ _ => exact hsound
  | resolved _ => exact hsound

theorem bounded (h : Deed t₀ asked t s call result t' s') (hbounded : Bounded t)
    (hbelow : ∀ a ∈ asked, a.BelowLimit) : Bounded t' := by
  cases h with
  | looked _ => exact hbounded
  | began _ hbegins =>
    apply hbounded.insert
    simp [hbegins.status]
  | committed hasked _ hcloses _ =>
    subst hasked
    exact hbounded.insert_closed hcloses ((hbelow _ List.mem_cons_self).1 _ rfl)
  | failed _ hcloses => exact hbounded.insert_closed hcloses trivial
  | rolledBack _ hcloses => exact hbounded.insert_closed hcloses trivial
  | wrote _ _ _ _ => exact hbounded
  | resolved _ => exact hbounded

theorem attested (h : Deed t₀ asked t s call result t' s') (hattested : s.Attested t)
    (hsound : Sound t) (hsound' : Sound t') : s'.Attested t' := by
  have hrecords := hattested.of_extends hsound hsound' h.extended
  cases h with
  | looked _ => exact hrecords
  | began _ _ => exact hrecords
  | committed _ _ _ _ => exact hrecords
  | failed _ _ => exact hrecords
  | rolledBack _ _ => exact hrecords
  | wrote _ hfound _ hwritten => exact hattested.of_writtenBy hfound hwritten
  | resolved hresolved => exact hattested.of_resolved hresolved

/-- A handle that is handed out is that of a record. -/
theorem recorded {handle : Handle} (h : Deed t₀ asked t s call (.ok (some handle)) t' s') :
    ∃ record, t'.get? handle.id = some record ∧ record.toHandle = handle := by
  generalize hresult : (.ok (some handle) : Except StorageError (Option Handle)) = result at h
  cases h with
  | looked hnone => exact absurd hresult.symm (hnone handle)
  | @began _ id _ _ fresh _ hbegins =>
    cases hresult
    refine ⟨fresh, ?_, rfl⟩
    rw [hbegins.named, SortedMap.get?_insert_self]
  | committed _ _ _ _ => cases hresult
  | failed _ _ => cases hresult
  | rolledBack _ _ => cases hresult
  | wrote _ _ _ _ => cases hresult
  | resolved _ => cases hresult

/-- The id of a handle that is handed out is what the source was asked for. -/
theorem asked_of_begun {handle : Handle} (h : Deed t₀ asked t s call (.ok (some handle)) t' s') :
    ∃ m, asked = [⟨m, .ok handle.id⟩] := by
  generalize hresult : (.ok (some handle) : Except StorageError (Option Handle)) = result at h
  cases h with
  | looked hnone => exact absurd hresult.symm (hnone handle)
  | @began m id _ _ fresh hasked hbegins =>
    cases hresult
    exact ⟨m, hbegins.named ▸ hasked⟩
  | committed _ _ _ _ => cases hresult
  | failed _ _ => cases hresult
  | rolledBack _ _ => cases hresult
  | wrote _ _ _ _ => cases hresult
  | resolved _ => cases hresult

end Deed

/-! ## Sessions -/

/-- An engine with a source that is recorded, and the handles handed out so far. -/
structure Session (σ : Type) where
  engine : Engine (RecordedSource σ)
  handles : List Handle

namespace Session

variable {σ : Type}

/-- The records of a session. -/
abbrev table (s : Session σ) : Table := s.engine.registry.table

/-- All answers that the source of a session has given. -/
abbrev answers (s : Session σ) : List Answer := s.engine.source.answers

/-- A session over an empty registry, with or without a journal, and without cells. -/
def opening (source : σ) (capacity : Nat) (journal : Option Journal) : Session σ where
  engine := ⟨⟨source, []⟩, { Registry.inMemory capacity with journal := journal }, .empty⟩
  handles := []

variable [TimestampSource σ]

/-- What a call answers in a session. -/
def answer (s : Session σ) (call : Call) : Except StorageError (Option Handle) :=
  Step.answer call.perform s.engine

/-- The session after a call. -/
def after (s : Session σ) (call : Call) : Session σ where
  engine := Step.after call.perform s.engine
  handles :=
    match s.answer call with
    | .ok (some h) => h :: s.handles
    | _ => s.handles

/-- The sessions that calls lead to, each naming handles handed out before and fit for the
session in which it is made. -/
inductive Run (fits : Session σ → Call → Prop) (s : Session σ) : Session σ → Prop
  | nil : Run fits s s
  | call {s' : Session σ} {call : Call} : Run fits s s' → (∀ h ∈ call.handles, h ∈ s'.handles) →
      fits s' call → Run fits s (s'.after call)

theorem Run.mono {fits fits' : Session σ → Call → Prop} {s s' : Session σ}
    (h : ∀ s call, fits s call → fits' s call) (hrun : Run fits s s') : Run fits' s s' := by
  induction hrun with
  | nil => exact .nil
  | call _ hhandles hfits ih => exact .call ih hhandles (h _ _ hfits)

theorem Run.trans {fits : Session σ → Call → Prop} {s₁ s₂ s₃ : Session σ}
    (h₁ : Run fits s₁ s₂) (h₂ : Run fits s₂ s₃) : Run fits s₁ s₃ := by
  induction h₂ with
  | nil => exact h₁
  | call _ hhandles hfits ih => exact .call ih hhandles hfits

/-- Whether calls made in order name handles handed out before and are fit each. -/
def Admits (fits : Session σ → Call → Prop) : Session σ → List Call → Prop
  | _, [] => True
  | s, call :: calls => (∀ h ∈ call.handles, h ∈ s.handles) ∧ fits s call ∧
      Admits fits (s.after call) calls

instance decidableAdmits (fits : Session σ → Call → Prop) [∀ s call, Decidable (fits s call)] :
    ∀ s calls, Decidable (Admits fits s calls)
  | _, [] => .isTrue trivial
  | s, call :: calls =>
    have := decidableAdmits fits (s.after call) calls
    inferInstanceAs (Decidable (_ ∧ _ ∧ _))

theorem Run.of_admits {fits : Session σ → Call → Prop} {calls : List Call} {s₀ s : Session σ}
    (hrun : Run fits s₀ s) (h : Admits fits s calls) : Run fits s₀ (calls.foldl after s) := by
  induction calls generalizing s with
  | nil => exact hrun
  | cons call calls ih =>
    rcases h with ⟨hhandles, hfits, hrest⟩
    exact ih (.call hrun hhandles hfits) hrest

end Session

namespace Session

variable {σ : Type}

/-- What holds in every session that calls can reach. -/
structure Regular (s : Session σ) : Prop where
  coherent : Coherent s.engine.registry
  sound : Sound s.table
  bounded : Bounded s.table
  recorded : ∀ h ∈ s.handles, ∃ record, s.table.get? h.id = some record ∧ record.toHandle = h
  attested : s.engine.cells.Attested s.table

theorem regular_opening (source : σ) (capacity : Nat) (journal : Option Journal) :
    Regular (opening source capacity journal) where
  coherent := Registry.coherent_inMemory capacity journal
  sound := Registry.sound_empty
  bounded := nofun
  recorded := nofun
  attested := ⟨nofun, nofun⟩

variable [TimestampSource σ]

/-- The effect of a call on a session. -/
theorem Regular.effect {s : Session σ} (h : Regular s) (call : Call) :
    Engine.Effect call (s.answer call) s.engine (s.after call).engine := by
  obtain ⟨result, e', hrun, heffect⟩ :=
    Engine.perform_effect h.coherent h.sound h.bounded call
  have hanswer : s.answer call = result := Step.answer_of_run hrun
  have hafter : (s.after call).engine = e' := Step.after_of_run hrun
  rw [hanswer, hafter]
  exact heffect

theorem mem_handles_after {s : Session σ} {call : Call} {handle : Handle}
    (h : handle ∈ (s.after call).handles) :
    handle ∈ s.handles ∨ s.answer call = .ok (some handle) := by
  unfold after at h
  cases hanswer : s.answer call with
  | error e => simp_all
  | ok given =>
    cases given with
    | none => simp_all
    | some handle' =>
      simp only [hanswer, List.mem_cons] at h
      rcases h with rfl | h
      · exact .inr rfl
      · exact .inl h

/-- A call keeps a session regular. -/
theorem Regular.after {s : Session σ} (h : Regular s) {call : Call}
    (hhandles : ∀ h ∈ call.handles, h ∈ s.handles)
    (hbelow : ∀ a ∈ (s.after call).answers, a.BelowLimit) : Regular (s.after call) := by
  rcases h.effect call with ⟨hcoherent, asked, t, hanswers, hinterfered, hdeed⟩
  have hasked : ∀ a ∈ asked, a.BelowLimit := by
    intro a ha
    apply hbelow
    rw [answers, hanswers]
    exact List.mem_append_right _ ha
  have hextends := hinterfered.extended
  have hrecorded : ∀ p ∈ s.handles, ∃ record, t.get? p.id = some record ∧ record.toHandle = p := by
    intro p hp
    rcases h.recorded p hp with ⟨record, hfound, rfl⟩
    exact hextends.kept hfound
  have hsound := hinterfered.sound h.sound
  have hbounded : Bounded t := by
    apply hinterfered.bounded h.bounded
    intro x hx
    rcases List.mem_flatMap.1 hx with ⟨a, ha, hx⟩
    exact (hasked a ha).2 x hx
  have hsound' := hdeed.sound hsound fun p hp => hrecorded p (hhandles p hp)
  refine ⟨hcoherent, hsound', ?_, ?_, ?_⟩
  · exact hdeed.bounded hbounded hasked
  · intro handle hhandle
    rcases mem_handles_after hhandle with hold | hnew
    · rcases hrecorded handle hold with ⟨record, hfound, rfl⟩
      exact hdeed.extended.kept hfound
    · rw [hnew] at hdeed
      exact hdeed.recorded
  · exact hdeed.attested (h.attested.of_extends h.sound hsound hextends) hsound hsound'

/-- What calls keep in regular sessions, a run over answers below the limit keeps, by induction on
its calls. -/
theorem Run.keeps {fits : Session σ → Call → Prop} {P : Session σ → Prop} {s s' : Session σ}
    (hrun : Run fits s s')
    (hbelow : ∀ s call, fits s call → ∀ a ∈ (s.after call).answers, a.BelowLimit)
    (hstep : ∀ s call, Regular s → P s → (∀ h ∈ call.handles, h ∈ s.handles) → fits s call →
      P (s.after call)) (h : Regular s) (hs : P s) : Regular s' ∧ P s' := by
  induction hrun with
  | nil => exact ⟨h, hs⟩
  | call _ hhandles hfits ih =>
    exact ⟨ih.1.after hhandles (hbelow _ _ hfits), hstep _ _ ih.1 ih.2 hhandles hfits⟩

/-- Every session that is reached over answers below the limit is regular. -/
theorem Regular.of_run {s s' : Session σ} (h : Regular s)
    (hrun : Run (fun s call => ∀ a ∈ (s.after call).answers, a.BelowLimit) s s') : Regular s' :=
  (hrun.keeps (P := fun _ => True) (fun _ _ hbelow => hbelow) (fun _ _ _ _ _ _ => trivial) h
    trivial).1

end Session

end SnapshotIsolation
