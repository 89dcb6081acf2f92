import SnapshotIsolation.Proofs.Engine.Upkeep
import SnapshotIsolation.Proofs.Registry.Mentions
import SnapshotIsolation.Proofs.Timestamp.Serving

/-!
# Timestamps that calls draw

An engine over a client consults it at most once in a call. The timestamp that it is given, if any,
is the only one that the call may put on record. So if all timestamps on record lie below the next
one of an authority, they go on doing so, and no transaction begins under an id that is on record.

Main results:

- Theorems {lit}`Engine.draws_start`, {lit}`Engine.draws_commit`, {lit}`Engine.draws_rollback` and
  {lit}`Engine.draws_rememberWatermark`: what each call draws and puts on record.
- Theorems {lit}`Engine.drawnByStart_of_answer` and {lit}`Engine.drawnByCommit_of_answer`: what a
  call tells its caller was drawn by it.
- Theorem {lit}`Engine.Fenced.of_draws`: what is on record stays below what is issued next.
- Theorem {lit}`Engine.Fenced.start_ne_alreadyExists`: no begin meets its own id on record.
-/

namespace SnapshotIsolation

open Registry (Coherent Proper Mentions Table)
open Step (after answer)

namespace Registry

/-- An attempt to settle a transaction puts at most its commit time on record. -/
theorem Settling.mentions {t t' : Table} {id ts : Timestamp} {outcome : Outcome}
    {result : Except StorageError Unit} (h : Settling t id outcome result t') (hproper : Proper t)
    (hts : Mentions t' ts) : Mentions t ts ∨ outcome = .commit ts := by
  cases h with
  | refused _ => exact .inl hts
  | repeated _ _ => exact .inl hts
  | closed hold hcloses => exact mentions_of_closes hproper hold hcloses hts

end Registry

namespace Engine

variable {τ : Type} [Transport τ] {e e' : Engine (Client τ)} {drawn : Option Timestamp}

/-! ## Asking a client -/

theorem nextAnswer_eq (e : Engine (Client τ)) :
    e.nextAnswer = ⟨[], answer Client.next e.source⟩ := by
  show (StateT.run (Answer.mk [] <$> Step.attempt Client.next) e.source).1 = _
  rw [StateT.run_map, Step.answer]
  cases hnext : (Client.next (τ := τ)).run e.source with
  | ok ts c => rw [Step.run_attempt_of_ok hnext]; rfl
  | error cause c => rw [Step.run_attempt_of_error hnext]; rfl

theorem nextSource_eq (e : Engine (Client τ)) : e.nextSource = after Client.next e.source := by
  show (StateT.run (Answer.mk [] <$> Step.attempt Client.next) e.source).2 = _
  rw [StateT.run_map, Step.after]
  cases hnext : (Client.next (τ := τ)).run e.source with
  | ok ts c => rw [Step.run_attempt_of_ok hnext]; rfl
  | error cause c => rw [Step.run_attempt_of_error hnext]; rfl

theorem registryMeanwhile_eq (e : Engine (Client τ)) : e.registryMeanwhile = e.registry := by
  rw [registryMeanwhile, nextAnswer_eq]
  rfl

/-- Nobody else acts while a client waits. -/
theorem run_nextTimestamp_client (e : Engine (Client τ)) :
    nextTimestamp.run e =
      .ok (answer Client.next e.source) { e with source := after Client.next e.source } := by
  rw [run_nextTimestamp, nextAnswer_eq, nextSource_eq, registryMeanwhile_eq]

/-! ## What calls draw -/

/-- The timestamp that a start draws, if it is given one. -/
def drawnByStart (e : Engine (Client τ)) : Option Timestamp :=
  (answer Client.next e.source).toOption

/-- The timestamp that a commit draws, if it asks for one and is given one. -/
def drawnByCommit (txn : Handle) (e : Engine (Client τ)) : Option Timestamp :=
  match answer (prepareCommit txn) e.registry with
  | .ok none => (answer Client.next e.source).toOption
  | _ => none

/-- What became of the source of an engine: it was left alone, or asked once for a timestamp or to
keep a floor. -/
inductive Consults (c : Client τ) : Option Timestamp → Client τ → Prop
  | nothing : Consults c none c
  | next : Consults c (answer Client.next c).toOption (after Client.next c)
  | remember (ts : Timestamp) : Consults c none (after (Client.remember ts) c)

/-- A call consults the source at most once, and puts no timestamp on record but the drawn one. -/
structure Draws (e : Engine (Client τ)) (drawn : Option Timestamp) (e' : Engine (Client τ)) :
    Prop where
  proper : Coherent e'.registry ∧ Proper e'.registry.table
  source : Consults e.source drawn e'.source
  mentions : ∀ ts, Mentions e'.registry.table ts → Mentions e.registry.table ts ∨ drawn = some ts

/-- A call that asks for nothing settles nothing at a new time. -/
theorem Draws.of_table_eq (hproper : Coherent e'.registry ∧ Proper e'.registry.table)
    (hsource : Consults e.source drawn e'.source) (htable : e'.registry.table = e.registry.table) :
    Draws e drawn e' :=
  ⟨hproper, hsource, fun _ h => .inl (htable ▸ h)⟩

/-- How a start ends: it is given no timestamp, or the registry refuses or begins the transaction
under the one that it is given. -/
inductive Starting (e : Engine (Client τ)) (isolation : Isolation) (parent : Option Handle) :
    Except StorageError Handle → Engine (Client τ) → Prop
  | unanswered {cause : TimestampError} : answer Client.next e.source = .error cause →
      Starting e isolation parent (.error (.timestamp cause))
        { e with source := after Client.next e.source }
  | refused {id : Timestamp} {cause : StorageError} {r : Registry} :
      answer Client.next e.source = .ok id →
      Registry.freshRecord e.registry.table id parent isolation = .error cause →
      Registry.Consulted e.registry r →
      Starting e isolation parent (.error cause)
        { e with source := after Client.next e.source, registry := r }
  | begun {id : Timestamp} {fresh : Record} {r : Registry} :
      answer Client.next e.source = .ok id →
      Registry.freshRecord e.registry.table id parent isolation = .ok fresh →
      Registry.Consulted e.registry r →
      Starting e isolation parent (.ok fresh.toHandle)
        { e with source := after Client.next e.source, registry := r.withBegun id fresh }

theorem run_start (h : Coherent e.registry) (isolation : Isolation) (parent : Option Handle) :
    ∃ result e', (start isolation parent).run e = Step.ending result e' ∧
      Starting e isolation parent result e' := by
  have hnext := run_nextTimestamp_client e
  cases hgiven : answer Client.next e.source with
  | error cause =>
    rw [hgiven] at hnext
    exact ⟨_, _, Step.run_bind_of_ok hnext, .unanswered hgiven⟩
  | ok id =>
    rw [hgiven] at hnext
    rcases Registry.run_start h id parent isolation with ⟨r, hconsulted, hstart⟩
    cases hfresh : Registry.freshRecord e.registry.table id parent isolation with
    | error cause =>
      rw [hfresh] at hstart
      exact ⟨.error cause, _, (Step.run_bind_of_ok hnext).trans (run_onRegistry hstart),
        .refused hgiven hfresh hconsulted⟩
    | ok fresh =>
      rw [hfresh] at hstart
      exact ⟨.ok fresh.toHandle, _, (Step.run_bind_of_ok hnext).trans (run_onRegistry hstart),
        .begun hgiven hfresh hconsulted⟩

theorem draws_start (h : Coherent e.registry ∧ Proper e.registry.table) (isolation : Isolation)
    (parent : Option Handle) : Draws e e.drawnByStart (after (start isolation parent) e) := by
  have hproper := (upholds_start Registry.invariant_proper isolation parent).after h
  rcases run_start h.1 isolation parent with ⟨result, e', hrun, hstarting⟩
  rw [Step.after_of_run hrun] at hproper ⊢
  cases hstarting with
  | unanswered _ => exact .of_table_eq hproper .next rfl
  | refused _ _ hconsulted => exact .of_table_eq hproper .next hconsulted.table
  | @begun id fresh r hgiven hfresh hconsulted =>
    refine ⟨hproper, .next, ?_⟩
    intro ts hts
    simp only [Registry.withBegun, hconsulted.table] at hts
    rcases Registry.mentions_of_begins (Registry.begins_of_freshRecord hfresh) hts with hold | rfl
    · exact .inl hold
    · exact .inr (by rw [drawnByStart, hgiven]; rfl)

theorem drawnByCommit_of_mayCommit (h : Coherent e.registry) {txn : Handle}
    (hmay : MayCommit e.registry.table txn.id) :
    e.drawnByCommit txn = (answer Client.next e.source).toOption := by
  rcases run_prepareCommit h txn with ⟨prepared, r', _, hprepare, hready, _⟩
  obtain rfl := hready.2 hmay
  rw [drawnByCommit, Step.answer_of_run hprepare]

theorem drawnByCommit_of_not_mayCommit (h : Coherent e.registry) {txn : Handle}
    (hsettled : ¬ MayCommit e.registry.table txn.id) : e.drawnByCommit txn = none := by
  rcases run_prepareCommit h txn with ⟨prepared, r', _, hprepare, hready, _⟩
  rw [drawnByCommit, Step.answer_of_run hprepare]
  rcases prepared with cause | _ | ts
  · rfl
  · exact absurd (hready.1 rfl) hsettled
  · rfl

theorem Finishing.mentions {t t' : Table} {id ts : Timestamp}
    {given : Except TimestampError Timestamp} {result : Except StorageError Timestamp}
    (h : Finishing t id given result t') (hproper : Proper t) (hts : Mentions t' ts) :
    Mentions t ts ∨ given.toOption = some ts := by
  cases h with
  | committed hold hcloses =>
    rcases Registry.mentions_of_closes hproper hold hcloses hts with h | ⟨⟨⟩⟩
    · exact .inl h
    · exact .inr rfl
  | abandoned hold hcloses =>
    rcases Registry.mentions_of_closes hproper hold hcloses hts with h | ⟨⟨⟩⟩
    exact .inl h
  | unavailable _ => exact .inl hts
  | adopted _ => exact .inl hts
  | refused _ _ => exact .inl hts

theorem Finishing.given_or_committedAt {t t' : Table} {id ts : Timestamp}
    {given : Except TimestampError Timestamp} (h : Finishing t id given (.ok ts) t') :
    given.toOption = some ts ∨ CommittedAt t id ts := by
  cases h with
  | committed _ _ => exact .inl rfl
  | adopted hcommitted => exact .inr hcommitted

theorem draws_commit (h : Coherent e.registry ∧ Proper e.registry.table) (txn : Handle) :
    Draws e (e.drawnByCommit txn) (after (commit txn) e) := by
  have hproper := (upholds_commit Registry.invariant_proper txn).after h
  by_cases hmay : MayCommit e.registry.table txn.id
  · rcases run_commit_of_mayCommit h.1 hmay with ⟨result, r', _, hfinishing, hrun⟩
    rw [nextAnswer_eq, registryMeanwhile_eq] at hfinishing
    rw [nextSource_eq] at hrun
    rw [Step.after_of_run hrun] at hproper ⊢
    rw [drawnByCommit_of_mayCommit h.1 hmay]
    exact ⟨hproper, .next, fun ts hts => hfinishing.mentions h.2 hts⟩
  · rcases run_commit_of_not_mayCommit h.1 hmay with ⟨result, r', hconsulted, hrun, _⟩
    rw [Step.after_of_run hrun] at hproper ⊢
    rw [drawnByCommit_of_not_mayCommit h.1 hmay]
    exact .of_table_eq hproper .nothing hconsulted.table

theorem draws_rollback (h : Coherent e.registry ∧ Proper e.registry.table) (txn : Handle) :
    Draws e none (after (rollback txn) e) := by
  rcases Registry.run_settling h.1 txn.id .rollback with ⟨result, r', _, hsettling, hsettle⟩
  have hproper := (Registry.invariant_proper.settle txn.id .rollback).after h
  have hafter : after (rollback txn) e = { e with registry := r' } :=
    Step.after_of_run (run_onRegistry hsettle)
  rw [Step.after_of_run hsettle] at hproper
  rw [hafter]
  refine ⟨hproper, .nothing, ?_⟩
  intro ts hts
  rcases hsettling.mentions h.2 hts with h | ⟨⟨⟩⟩
  exact .inl h

theorem draws_rememberWatermark (h : Coherent e.registry ∧ Proper e.registry.table) :
    Draws e none (after rememberWatermark e) := by
  have hafter : ∃ c, Consults e.source none c ∧
      after rememberWatermark e = { e with source := c } := by
    have hremember : ∀ ts, (Step.mapError StorageError.timestamp (Step.focus Engine.source
        (fun s e => { e with source := s }) (TimestampSource.remember ts))).run e =
          Step.ending ((answer (Client.remember ts) e.source).mapError .timestamp)
            { e with source := after (Client.remember ts) e.source } := fun ts =>
      Step.run_mapError_of_ending (Step.run_focus ..)
    unfold rememberWatermark
    cases hmark : e.registry.lowWatermark <|> e.registry.maxTimestamp with
    | none =>
      refine ⟨e.source, .nothing, ?_⟩
      simp only [Step.after, EStateM.run_bind, EStateM.run_get, hmark]
      rfl
    | some ts =>
      refine ⟨_, .remember ts, ?_⟩
      simp only [Step.after, EStateM.run_bind, EStateM.run_get, hmark, hremember]
      cases answer (Client.remember ts) e.source <;> rfl
  rcases hafter with ⟨c, hconsults, hafter⟩
  rw [hafter]
  exact .of_table_eq h hconsults rfl

/-- The id that a start tells was drawn by it. -/
theorem drawnByStart_of_answer (h : Coherent e.registry) {isolation : Isolation}
    {parent : Option Handle} {handle : Handle}
    (hanswer : answer (start isolation parent) e = .ok handle) :
    e.drawnByStart = some handle.id := by
  rcases run_start h isolation parent with ⟨result, e', hrun, hstarting⟩
  rw [Step.answer_of_run hrun] at hanswer
  subst hanswer
  cases hstarting with
  | @begun id fresh r hgiven hfresh _ =>
    rw [drawnByStart, hgiven, (Registry.begins_of_freshRecord hfresh).named]
    rfl

/-- The time that a commit tells was drawn by it, unless it was on record before. -/
theorem drawnByCommit_of_answer (h : Coherent e.registry) {txn : Handle} {ts : Timestamp}
    (hanswer : answer (commit txn) e = .ok ts) :
    e.drawnByCommit txn = some ts ∨ CommittedAt e.registry.table txn.id ts := by
  by_cases hmay : MayCommit e.registry.table txn.id
  · rcases run_commit_of_mayCommit h hmay with ⟨result, r', _, hfinishing, hrun⟩
    rw [Step.answer_of_run hrun] at hanswer
    subst hanswer
    rw [nextAnswer_eq, registryMeanwhile_eq] at hfinishing
    rw [drawnByCommit_of_mayCommit h hmay]
    exact hfinishing.given_or_committedAt
  · rcases run_commit_of_not_mayCommit h hmay with ⟨result, r', _, hrun, htold⟩
    rw [Step.answer_of_run hrun] at hanswer
    exact .inr (htold ts hanswer)

/-- Whatever a source keeps when it is asked, it keeps when it is consulted. -/
theorem Consults.of_preserves {P : Client τ → Prop} {c c' : Client τ} (h : Consults c drawn c')
    (hnext : Step.Preserves P Client.next) (hremember : ∀ ts, Step.Preserves P (Client.remember ts))
    (hc : P c) : P c' := by
  cases h with
  | nothing => exact hc
  | next => exact hnext.after hc
  | remember ts => exact (hremember ts).after hc

end Engine

/-! ## Engines over an authority -/

theorem Record.start_ne_alreadyExists (id : Timestamp) (ancestors : List Timestamp)
    (isolation : Isolation) (id' : Timestamp) :
    Record.start id ancestors isolation ≠ .error (.alreadyExists id') := by
  unfold Record.start Handle.ofChain
  cases chainFault? id ancestors <;> simp [bind, Except.bind, pure, Except.pure]

namespace Registry

theorem ancestryUnder_ne_alreadyExists (t : Table) (parent : Option Handle) (id : Timestamp) :
    ancestryUnder t parent ≠ .error (.transaction (.alreadyExists id)) := by
  cases parent with
  | none => simp [ancestryUnder]
  | some parent =>
    cases hfound : t.get? parent.id with
    | none => simp [ancestryUnder, lookUp, hfound]
    | some record =>
      by_cases hactive : record.status = .active <;> simp [ancestryUnder, lookUp, hfound, hactive]

/-- A begin is refused as a repetition only if its id is on record. -/
theorem mentions_of_alreadyExists {t : Table} {id id' : Timestamp} {parent : Option Handle}
    {isolation : Isolation}
    (h : freshRecord t id parent isolation = .error (.transaction (.alreadyExists id'))) :
    Mentions t id := by
  unfold freshRecord at h
  split at h
  · rename_i hancestry
    cases h
    exact absurd hancestry (ancestryUnder_ne_alreadyExists t parent id')
  · rename_i ancestors _
    split at h
    · rename_i hstart
      cases h
      exact absurd hstart (Record.start_ne_alreadyExists id ancestors isolation id')
    · split at h
      · rename_i hknown
        rcases Option.isSome_iff_exists.1 hknown with ⟨record, hfound⟩
        exact ⟨id, record, hfound, .inl rfl⟩
      · cases h

end Registry

namespace Engine

open Authority (Advances Steady)

variable {ω : Type} [WatermarkStore ω] [LawfulWatermarkStore ω] {c c' : Client (Authority ω)}
  {e e' : Engine (Client (Authority ω))} {drawn : Option Timestamp}

/-- A source that is consulted issues what is drawn from it. -/
theorem Consults.advances (h : Consults c drawn c') (hsteady : Steady c.transport) :
    ∃ events, Advances c.transport events c'.transport ∧
      ∀ ts, drawn = some ts → .issued ts ∈ events := by
  cases h with
  | nothing => exact ⟨[], hsteady.advances_unmoved (.refl _), nofun⟩
  | next =>
    refine ⟨_, Client.advances_next hsteady, ?_⟩
    intro ts hts
    rw [hts]
    exact List.mem_singleton_self _
  | remember ts => exact ⟨_, Client.advances_remember hsteady ts, nofun⟩

/-- All timestamps on record lie below the next one to be issued. -/
structure Fenced (e : Engine (Client (Authority ω))) : Prop where
  proper : Coherent e.registry ∧ Proper e.registry.table
  steady : Steady e.source.transport
  below : ∀ ts, Mentions e.registry.table ts → ts.toNat < e.source.transport.counter.toNat

theorem Fenced.of_draws (h : Fenced e) (hdraws : Draws e drawn e') : Fenced e' := by
  rcases hdraws.source.advances h.steady with ⟨events, hadvances, hissued⟩
  refine ⟨hdraws.proper, hadvances.steady, ?_⟩
  intro ts hts
  rcases hdraws.mentions ts hts with hold | hdrawn
  · exact Nat.lt_of_lt_of_le (h.below ts hold) hadvances.counter_le
  · exact hadvances.below _ (hissued ts hdrawn)

/-- No begin meets its own id on record. -/
theorem Fenced.start_ne_alreadyExists (h : Fenced e) (isolation : Isolation)
    (parent : Option Handle) (id : Timestamp) :
    answer (start isolation parent) e ≠ .error (.transaction (.alreadyExists id)) := by
  rcases run_start h.proper.1 isolation parent with ⟨result, e', hrun, hstarting⟩
  rw [Step.answer_of_run hrun]
  cases hstarting with
  | unanswered _ => simp
  | begun _ _ _ => simp
  | @refused fresh cause r hgiven hrefused _ =>
    intro heq
    cases heq
    -- the id would be on record, but it is given by an authority that is past all that is
    have hbelow := h.below fresh (Registry.mentions_of_alreadyExists hrefused)
    have hadvances := Client.advances_next h.steady
    rw [hgiven] at hadvances
    have habove := (hadvances.fresh fresh List.mem_cons_self).1
    omega

end Engine

end SnapshotIsolation
