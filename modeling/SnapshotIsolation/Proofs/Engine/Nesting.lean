import SnapshotIsolation.Proofs.Engine.Stability
import SnapshotIsolation.Proofs.Engine.Upkeep

/-!
# Commits of nested transactions

A child is to be committed only while its parent is active. The parent is looked up before the
timestamp is asked for and not again, so the rule is kept as long as nobody settles the parent in
between; in a sequential run nobody does, and then children are committed before their parents
and no snapshot that was handed out earlier can see what they are committed with.

Main results:

- Theorem {lit}`Engine.parent_active_of_commits`: under which parents a child is committed.
- Theorem {lit}`Session.LaterCommits.of_run`: commits come after all timestamps issued before.
- Theorem {lit}`Session.children_commit_first`: in a sequential run both the rule and its
  consequences hold.
-/

namespace SnapshotIsolation

open Registry (Table Coherent Sound Reached lineage Lineage)

namespace Engine

variable {σ : Type} [TimestampSource σ] {e : Engine σ} {txn : Handle}

/-- A commit moves its transaction from active, as others left it, to committed. -/
structure Commits (e : Engine σ) (txn : Handle) (old : Record) : Prop where
  wasLeft : e.registryMeanwhile.table.get? txn.id = some old
  wasActive : old.status = .active
  committed : ∃ ts, CommittedAt (Step.after (commit txn) e).registry.table txn.id ts

/-- Records that nobody else wanted to settle stay as they are. -/
theorem get?_after_interfere {r : Registry} (h : Coherent r) {others : Meanwhile} {id : Timestamp}
    (hid : ∀ x ∈ others, x.1 ≠ id) :
    (Step.after (interfere others) r).table.get? id = r.table.get? id := by
  induction others generalizing r with
  | nil => rfl
  | cons other others ih =>
    rcases Registry.run_settling h other.1 other.2 with ⟨result, r', hcoherent, hsettling, hrun⟩
    rw [after_interfere_cons, Step.after_of_run hrun,
      ih hcoherent fun x hx => hid x (List.mem_cons_of_mem _ hx)]
    generalize r'.table = t' at hsettling
    cases hsettling with
    | refused _ => rfl
    | repeated _ _ => rfl
    | closed _ _ => exact SortedMap.get?_insert_of_ne _ _ (hid other List.mem_cons_self).symm

/-- A commit that moves its transaction to committed found it and its parent active. -/
theorem Commits.mayCommit {old : Record} (h : Commits e txn old) (hcoherent : Coherent e.registry) :
    MayCommit e.registry.table txn.id := by
  by_contra hmay
  rcases run_commit_of_not_mayCommit hcoherent hmay with ⟨result, r', hconsulted, hrun, _⟩
  rcases h.committed with ⟨ts, hcommitted⟩
  rw [Step.after_of_run hrun] at hcommitted
  have hbefore : CommittedAt e.registry.table txn.id ts := hconsulted.table ▸ hcommitted
  have hextends := extends_registryMeanwhile hcoherent (List.nil_append _).symm
  rcases hbefore.of_extends hextends with ⟨record, hfound, hstatus, _⟩
  rw [h.wasLeft, Option.some.injEq] at hfound
  rw [← hfound, h.wasActive] at hstatus
  cases hstatus

/-- A commit that moves its transaction to committed found the parent active, and the parent is
active at that moment unless somebody else wanted to settle it while the commit waited. -/
theorem parent_active_of_commits {old : Record} {parent : Timestamp} (h : Coherent e.registry)
    (hcommits : Commits e txn old) (hparent : old.parent? = some parent)
    (hquiet : ∀ x ∈ e.nextAnswer.meanwhile, x.1 ≠ parent) :
    ∃ above, e.registryMeanwhile.table.get? parent = some above ∧ above.status = .active := by
  rcases hcommits.mayCommit h with ⟨record, hfound, _, hactive⟩
  have hextends := extends_registryMeanwhile h (List.nil_append _).symm
  rcases hextends.kept hfound with ⟨old', hfound', hhandle⟩
  rw [hcommits.wasLeft, Option.some.injEq] at hfound'
  subst hfound'
  rw [registryMeanwhile, get?_after_interfere h hquiet]
  exact hactive parent (hhandle ▸ hparent)

end Engine

open Engine (CommittedAt)

theorem Engine.committedAt_insert {t : Table} {k id ts : Timestamp} {new : Record}
    (h : CommittedAt (t.insert k new) id ts) :
    CommittedAt t id ts ∨ new.status = .committed ∧ new.commitTs = some ts := by
  rcases h with ⟨record, hfound, hstatus, hts⟩
  rcases SortedMap.eq_or_get?_of_insert hfound with ⟨_, rfl⟩ | hfound
  · exact .inr ⟨hstatus, hts⟩
  · exact .inl ⟨record, hfound, hstatus, hts⟩

namespace Session

variable {σ : Type} {s s₁ s₂ : Session σ}

/-- Whatever was committed since an earlier session was so after all that was issued by then. -/
structure LaterCommits (s₁ s : Session σ) : Prop where
  issued : ∀ ts ∈ s₁.issued, ts ∈ s.issued
  committed {id ts : Timestamp} : CommittedAt s.table id ts →
    CommittedAt s₁.table id ts ∨ ∀ x ∈ s₁.issued, x < ts

theorem LaterCommits.refl (s : Session σ) : LaterCommits s s :=
  ⟨fun _ h => h, .inl⟩

theorem LaterCommits.trans {s₃ : Session σ} (h₁ : LaterCommits s₁ s₂) (h₂ : LaterCommits s₂ s₃) :
    LaterCommits s₁ s₃ := by
  refine ⟨fun ts hts => h₂.issued ts (h₁.issued ts hts), ?_⟩
  intro id ts hcommitted
  rcases h₂.committed hcommitted with hbefore | hlater
  · exact h₁.committed hbefore
  · exact .inr fun x hx => hlater x (h₁.issued x hx)

/-- What a transaction that was not committed yet comes to be committed with, as others see it,
lies above every snapshot that had been handed out. -/
theorem lt_effective (hregular₁ : Regular s₁) (hordered₁ : Ordered s₁.table s₁.issued)
    (hregular₂ : Regular s₂) (hordered₂ : Ordered s₂.table s₂.issued)
    (hlater : LaterCommits s₁ s₂) {id ts : Timestamp}
    (hopen : ∀ ts, ¬ CommittedAt s₁.table id ts)
    (heffective : Step.answer (Registry.effectiveStatus id) s₂.engine.registry =
      .ok (.committed ts)) : ∀ reader ∈ s₁.handles, reader.snapshot < ts := by
  intro reader hreader
  have hissued : reader.id ∈ s₁.issued := by
    rcases hregular₁.recorded reader hreader with ⟨record, hfound, rfl⟩
    rw [← hregular₁.sound.named hfound]
    exact hordered₁.ids hfound
  cases hfound : s₂.table.get? id with
  | none =>
    rw [Registry.answer_effectiveStatus_of_none hregular₂.coherent hfound] at heffective
    cases heffective
  | some record =>
    rw [Registry.answer_effectiveStatus hregular₂.coherent hregular₂.sound hfound,
      Except.ok.injEq] at heffective
    rcases hregular₂.sound.exists_lineage hfound with ⟨records, hlineage⟩
    rw [← hlineage.eq_lineage] at heffective
    have hstatus := (EffectiveStatus.eq_committed_iff.1 heffective).1 record List.mem_cons_self
    rcases hregular₂.sound.committed hfound hstatus with ⟨own, hown, _⟩
    have hle := hordered₂.le_outermost hlineage hown heffective hregular₂.sound
    rcases hlater.committed ⟨record, hfound, hstatus, hown⟩ with hbefore | hafter
    · exact absurd hbefore (hopen own)
    · exact lt_of_lt_of_le (hafter _ hissued) hle

variable [TimestampSource σ]

/-- In a sequential run a call commits at a time after all that were issued before. -/
theorem LaterCommits.after (h : Regular s) {call : Call} (hsequential : Sequential (s.after call)) :
    LaterCommits s (s.after call) := by
  rcases h.effect_alone hsequential.1 with ⟨asked, hissued, hdeed⟩
  have hascending := hsequential.2.1
  rw [hissued] at hascending
  constructor
  · intro ts hts
    rw [hissued]
    exact List.mem_append_left _ hts
  · intro id ts hcommitted
    generalize (s.after call).table = t', (s.after call).engine.cells = cells',
      s.answer call = result at hdeed hcommitted
    cases hdeed with
    | looked _ => exact .inl hcommitted
    | began _ hbegins =>
      refine (Engine.committedAt_insert hcommitted).imp_right ?_
      simp [hbegins.status]
    | committed hasked _ hcloses _ =>
      refine (Engine.committedAt_insert hcommitted).imp_right ?_
      rintro ⟨_, hts⟩ x hx
      obtain rfl := Option.some.inj (hcloses.commitTs.symm.trans hts)
      exact (List.pairwise_append.1 hascending).2.2 x hx _ (mem_timestamps_of_eq hasked)
    | failed _ hcloses =>
      refine (Engine.committedAt_insert hcommitted).imp_right ?_
      simp [hcloses.status, Outcome.status]
    | rolledBack _ hcloses =>
      refine (Engine.committedAt_insert hcommitted).imp_right ?_
      simp [hcloses.status, Outcome.status]
    | wrote _ _ _ _ => exact .inl hcommitted
    | resolved _ => exact .inl hcommitted

theorem LaterCommits.of_run (h : Regular s₁)
    (hrun : Run (fun s call => Sequential (s.after call)) s₁ s₂) :
    Regular s₂ ∧ LaterCommits s₁ s₂ :=
  hrun.keeps (fun _ _ hsequential => hsequential.belowLimit)
    (fun _ _ hregular hlater _ hsequential => hlater.trans (.after hregular hsequential)) h
    (.refl s₁)

/-- A child that is moved to committed has an active parent, unless somebody else wanted to settle
the parent while the commit waited. In a sequential run nobody does: children are committed before
their parents, and as others see it at no time below a snapshot handed out before. -/
theorem children_commit_first {τ : Type} [TimestampSource τ] (source : σ) (capacity : Nat)
    (journal : Option Journal) :
    (∀ (e : Engine τ) txn old parent, e.registry.Reached → Engine.Commits e txn old →
        old.parent? = some parent → (∀ x ∈ e.nextAnswer.meanwhile, x.1 ≠ parent) →
          ∃ above, e.registryMeanwhile.table.get? parent = some above ∧ above.status = .active) ∧
      ∀ s₁ s₂ : Session σ,
        Run (fun s call => Sequential (s.after call)) (opening source capacity journal) s₁ →
        Run (fun s call => Sequential (s.after call)) s₁ s₂ →
          (∀ id record parent ts tsParent, s₂.table.get? id = some record →
            record.parent? = some parent → CommittedAt s₂.table id ts →
              CommittedAt s₂.table parent tsParent → ts < tsParent) ∧
          ∀ id ts, (∀ ts', ¬ CommittedAt s₁.table id ts') →
            Step.answer (Registry.effectiveStatus id) s₂.engine.registry = .ok (.committed ts) →
              ∀ reader ∈ s₁.handles, reader.snapshot < ts := by
  refine ⟨?_, ?_⟩
  · intro e txn old parent hreached hcommits hparent hquiet
    exact Engine.parent_active_of_commits hreached.coherent hcommits hparent hquiet
  intro s₁ s₂ hbefore hbetween
  have hopening : Ordered (opening source capacity journal).table
      (opening source capacity journal).issued := ⟨nofun, nofun, nofun⟩
  have hregular := regular_opening source capacity journal
  rcases hopening.of_run hregular hbefore with ⟨hregular₁, hordered₁⟩
  rcases hopening.of_run hregular (hbefore.trans hbetween) with ⟨hregular₂, hordered₂⟩
  have hlater := (LaterCommits.of_run hregular₁ hbetween).2
  refine ⟨?_, ?_⟩
  · rintro id record parent ts tsParent hfound hparent ⟨child, hchild, hstatus, hts⟩
      ⟨above, habove, hstatusAbove, htsAbove⟩
    obtain rfl := Option.some.inj (hfound.symm.trans hchild)
    have hancestors : ∃ rest, record.ancestors = parent :: rest := by
      cases hlist : record.ancestors with
      | nil => simp [Handle.parent?, hlist] at hparent
      | cons first rest =>
        refine ⟨rest, ?_⟩
        rw [Handle.parent?, hlist, List.head?_cons, Option.some.injEq] at hparent
        rw [hparent]
    rcases hancestors with ⟨rest, hancestors⟩
    exact hordered₂.inward hfound hancestors habove hstatus hstatusAbove hts htsAbove
  · intro id ts hopen heffective
    exact lt_effective hregular₁ hordered₁ hregular₂ hordered₂ hlater hopen heffective

/-- A transaction begins first, then a child of it, then a reader. -/
def familyAndReader : List Call :=
  [.start .snapshot none, .start .snapshot (some ⟨⟨1⟩, [], .snapshot⟩), .start .snapshot none]

/-- The child is committed, then its parent. -/
def childThenParent : List Call :=
  [.commit ⟨⟨2⟩, [⟨1⟩], .snapshot⟩, .commit ⟨⟨1⟩, [], .snapshot⟩]

/-- The child is committed at four under a parent that is active, and its parent at five, which is
what others see the child committed with. -/
theorem children_commit_first_sequential :
    let s₁ := familyAndReader.foldl after (opening (countingTo 6) 4 none)
    let s₂ := childThenParent.foldl after s₁
    (∃ above, s₁.engine.registryMeanwhile.table.get? ⟨1⟩ = some above ∧ above.status = .active) ∧
      CommittedAt s₂.table ⟨2⟩ ⟨4⟩ ∧ CommittedAt s₂.table ⟨1⟩ ⟨5⟩ ∧ (⟨4⟩ : Timestamp) < ⟨5⟩ ∧
        (⟨3⟩ : Timestamp) < ⟨5⟩ := by
  have hrun₁ : Run (fun s call => Sequential (s.after call)) (opening (countingTo 6) 4 none)
      (familyAndReader.foldl after (opening (countingTo 6) 4 none)) := .of_admits .nil (by decide)
  have hrun₂ : Run (fun s call => Sequential (s.after call))
      (familyAndReader.foldl after (opening (countingTo 6) 4 none))
      (childThenParent.foldl after (familyAndReader.foldl after (opening (countingTo 6) 4 none))) :=
    .of_admits .nil (by decide)
  have hfirst := children_commit_first (τ := RecordedSource PreparedSource) (countingTo 6) 4 none
  have hordered := hfirst.2 _ _ hrun₁ hrun₂
  refine ⟨?_, ⟨_, rfl, rfl, rfl⟩, ⟨_, rfl, rfl, rfl⟩, ?_, ?_⟩
  · apply hfirst.1 _ ⟨⟨2⟩, [⟨1⟩], .snapshot⟩ ⟨⟨⟨2⟩, [⟨1⟩], .snapshot⟩, .active, none, none⟩
    · exact hrun₁.upholds Registry.invariant_reached (.inMemory .here)
    · exact ⟨rfl, rfl, ⟨4⟩, _, rfl, rfl, rfl⟩
    · rfl
    · decide
  · exact hordered.1 ⟨2⟩ _ ⟨1⟩ _ _ rfl rfl ⟨_, rfl, rfl, rfl⟩ ⟨_, rfl, rfl, rfl⟩
  · refine hordered.2 ⟨2⟩ ⟨5⟩ ?_ rfl ⟨⟨3⟩, [], .snapshot⟩ (by decide)
    rintro ts ⟨record, hfound, hstatus, _⟩
    cases hfound
    cases hstatus

/-- While the commit of the child waits for its timestamp, somebody else commits the parent at
five; a reader began at seven, and the child is committed at ten. -/
def parentCommittedMeanwhile : PreparedSource where
  answers := [⟨[], .ok ⟨1⟩⟩, ⟨[], .ok ⟨2⟩⟩, ⟨[], .ok ⟨7⟩⟩, ⟨[(⟨1⟩, .commit ⟨5⟩)], .ok ⟨10⟩⟩]
  remembered := .zero

/-- The child is moved to committed under a committed parent, after the parent and with an
effective time below a snapshot that was handed out while the child was active. -/
theorem child_commits_after_parent :
    let s := familyAndReader.foldl after (opening parentCommittedMeanwhile 4 none)
    let child : Handle := ⟨⟨2⟩, [⟨1⟩], .snapshot⟩
    let s' := s.after (.commit child)
    Engine.Commits s.engine child ⟨child, .active, none, none⟩ ∧
      CommittedAt s.engine.registryMeanwhile.table ⟨1⟩ ⟨5⟩ ∧
        CommittedAt s'.table ⟨2⟩ ⟨10⟩ ∧ CommittedAt s'.table ⟨1⟩ ⟨5⟩ ∧
          (⟨⟨7⟩, [], .snapshot⟩ : Handle) ∈ s.handles ∧
            Step.answer (Registry.effectiveStatus ⟨2⟩) s'.engine.registry =
              .ok (.committed ⟨5⟩) := by
  refine ⟨⟨rfl, rfl, ⟨10⟩, ?_⟩, ?_, ?_, ?_, by decide, rfl⟩
  · exact ⟨_, rfl, rfl, rfl⟩
  · exact ⟨_, rfl, rfl, rfl⟩
  · exact ⟨_, rfl, rfl, rfl⟩
  · exact ⟨_, rfl, rfl, rfl⟩

end Session

end SnapshotIsolation
