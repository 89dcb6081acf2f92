import SnapshotIsolation.Proofs.Timestamp.Order
import SnapshotIsolation.Transaction.Record

/-!
# Beginning and settling records

What a record says when its transaction begins, and what settling changes of it.

Main results:

- Theorem {lit}`Handle.ofChain_eq_ok_iff`: the handles there can be have ancestors that descend
  strictly below the id.
- Theorem {lit}`Record.settle_cases`: settling repeats an outcome or closes an active record.
- Theorem {lit}`Record.eq_of_start`: a transaction begins active, over ancestors that descend
  strictly below its id.
-/

namespace SnapshotIsolation

namespace Outcome

/-- The status of a record that was settled this way. -/
def status : Outcome → Status
  | .commit _ => .committed
  | .rollback => .rolledBack
  | .error => .error

/-- The time noted on a record that was settled this way. -/
def closing (id : Timestamp) : Outcome → Timestamp
  | .commit ts => ts
  | .rollback | .error => id

theorem status_ne_active (o : Outcome) : o.status ≠ .active := by
  cases o <;> simp [status]

theorem eq_commit_of_status {o : Outcome} (h : o.status = .committed) : ∃ ts, o = .commit ts := by
  cases o with
  | commit ts => exact ⟨ts, rfl⟩
  | rollback => cases h
  | error => cases h

end Outcome

namespace Status

theorem isTerminal_iff {s : Status} : s.isTerminal = true ↔ s ≠ .active := by
  cases s <;> simp [isTerminal]

theorem isFailed_iff {s : Status} : s.isFailed = true ↔ s = .rolledBack ∨ s = .error := by
  cases s <;> simp [isFailed]

theorem isFailed_eq_false_iff {s : Status} :
    s.isFailed = false ↔ s = .active ∨ s = .committed := by
  cases s <;> simp [isFailed]

end Status

/-! ## Chains -/

theorem Timestamp.descend_cons_cons {below ancestor : Timestamp} {rest : List Timestamp} :
    (below :: ancestor :: rest).Pairwise (· > ·) ↔
      ancestor < below ∧ (ancestor :: rest).Pairwise (· > ·) := by
  rw [List.pairwise_cons, List.forall_mem_cons]
  constructor
  · rintro ⟨⟨hbelow, _⟩, hrest⟩
    exact ⟨hbelow, hrest⟩
  · rintro ⟨hbelow, hrest⟩
    exact ⟨⟨hbelow, fun a ha => lt_trans (List.rel_of_pairwise_cons hrest ha) hbelow⟩, hrest⟩

/-- What descends has at most as many members as there are positions below its first. -/
theorem Timestamp.length_le_of_descends {below : Timestamp} {ancestors : List Timestamp}
    (h : (below :: ancestors).Pairwise (· > ·)) : ancestors.length ≤ below.toNat := by
  induction ancestors generalizing below with
  | nil => exact Nat.zero_le _
  | cons ancestor ancestors ih =>
    rcases descend_cons_cons.1 h with ⟨hbelow, hrest⟩
    exact Nat.lt_of_le_of_lt (ih hrest) (lt_iff_toNat_lt.1 hbelow)

theorem ancestorFault?_eq_none_iff {below : Timestamp} {ancestors : List Timestamp} :
    ancestorFault? below ancestors = none ↔
      (below :: ancestors).Pairwise (· > ·) ∧ ∀ a ∈ ancestors, a ≠ .zero := by
  induction ancestors generalizing below with
  | nil => simp [ancestorFault?]
  | cons ancestor rest ih =>
    rw [ancestorFault?, Timestamp.descend_cons_cons, List.forall_mem_cons]
    split
    · rename_i hfault
      simp only [reduceCtorEq, false_iff]
      rintro ⟨⟨hbelow, _⟩, hnonzero, _⟩
      exact hfault.elim (not_le_of_gt hbelow) hnonzero
    · rename_i hordered
      rw [not_or, not_le] at hordered
      rw [ih]
      simp [hordered]

namespace Handle

/-- Neither the id nor an ancestor is zero, and they descend strictly, the nearest ancestor
first. -/
structure Chained (h : Handle) : Prop where
  nonzero : h.id ≠ .zero
  ancestors_nonzero : ∀ a ∈ h.ancestors, a ≠ .zero
  descends : (h.id :: h.ancestors).Pairwise (· > ·)

/-- The ancestors can be counted in a word. -/
theorem Chained.length_lt {h : Handle} (hchained : h.Chained) :
    h.ancestors.length < UInt64.size :=
  Nat.lt_of_le_of_lt (Timestamp.length_le_of_descends hchained.descends) h.id.raw.toNat_lt

theorem chainFault?_eq_none_iff {h : Handle} : chainFault? h.id h.ancestors = none ↔ h.Chained := by
  unfold chainFault?
  split
  · rename_i hzero
    simp only [reduceCtorEq, false_iff]
    exact fun hchained => hchained.nonzero hzero
  · rename_i hnonzero
    rw [ancestorFault?_eq_none_iff]
    constructor
    · rintro ⟨hdescends, hancestors⟩
      exact ⟨hnonzero, hancestors, hdescends⟩
    · intro hchained
      exact ⟨hchained.descends, hchained.ancestors_nonzero⟩

/-- The handles there can be have ancestors that descend strictly below the id. -/
theorem ofChain_eq_ok_iff {id : Timestamp} {ancestors : List Timestamp} {isolation : Isolation}
    {h : Handle} : ofChain id ancestors isolation = .ok h ↔
      h = ⟨id, ancestors, isolation⟩ ∧ h.Chained := by
  unfold ofChain
  constructor
  · intro hok
    split at hok
    · cases hok
    · rename_i hchain
      cases hok
      exact ⟨rfl, chainFault?_eq_none_iff.1 hchain⟩
  · rintro ⟨rfl, hchained⟩
    rw [chainFault?_eq_none_iff.2 hchained]

end Handle

namespace Record

/-- Between an active record and what it becomes when it is settled. -/
structure Closes (old : Record) (outcome : Outcome) (new : Record) : Prop where
  wasActive : old.status = .active
  handle : new.toHandle = old.toHandle
  status : new.status = outcome.status
  commitTs : new.commitTs = some (outcome.closing old.id)
  follows : ∀ ts, outcome = .commit ts → old.id < ts

theorem abandon_cases {old new : Record} {target : Status} (h : old.abandon target = .ok new) :
    old.status = target ∧ new = old ∨
      old.status = .active ∧ new = { old with status := target, commitTs := some old.id } := by
  unfold abandon at h
  split at h
  · rename_i hactive
    cases h
    exact .inr ⟨hactive, rfl⟩
  · split at h
    · rename_i hrepeated
      cases h
      exact .inl ⟨hrepeated, rfl⟩
    · cases h

theorem commit_cases {old new : Record} {ts : Timestamp} (h : old.commit ts = .ok new) :
    old.status = .committed ∧ new = old ∨
      old.status = .active ∧ old.id < ts ∧ new = { old with
        status := .committed
        commitTs := some ts
        globalCommitTs := if old.isTopLevel then some ts else old.globalCommitTs } := by
  unfold commit at h
  split at h
  · rename_i hactive _
    split at h
    · cases h
    · rename_i hlater
      cases h
      exact .inr ⟨hactive, lt_of_not_ge hlater, rfl⟩
  · rename_i hcommitted _
    split at h
    · cases h
      exact .inl ⟨hcommitted, rfl⟩
    · cases h
  · cases h
  · cases h

/-- Settling repeats an outcome or closes an active record. -/
theorem settle_cases {old new : Record} {outcome : Outcome} (h : old.settle outcome = .ok new) :
    old.status = outcome.status ∧ new = old ∨ Closes old outcome new := by
  cases outcome with
  | commit ts =>
    rcases commit_cases h with hsame | ⟨hactive, hlater, rfl⟩
    · exact .inl hsame
    · refine .inr ⟨hactive, rfl, rfl, rfl, ?_⟩
      rintro _ ⟨⟩
      exact hlater
  | rollback =>
    rcases abandon_cases h with hsame | ⟨hactive, rfl⟩
    · exact .inl hsame
    · exact .inr ⟨hactive, rfl, rfl, rfl, nofun⟩
  | error =>
    rcases abandon_cases h with hsame | ⟨hactive, rfl⟩
    · exact .inl hsame
    · exact .inr ⟨hactive, rfl, rfl, rfl, nofun⟩

theorem Closes.ne {old new : Record} {outcome : Outcome} (h : Closes old outcome new) :
    new ≠ old := by
  rintro rfl
  exact outcome.status_ne_active (h.status.symm.trans h.wasActive)

/-- A transaction begins active, over ancestors that form a chain below it. -/
theorem eq_of_start {id : Timestamp} {ancestors : List Timestamp} {isolation : Isolation}
    {fresh : Record} (h : start id ancestors isolation = .ok fresh) :
    chainFault? id ancestors = none ∧
      fresh = ⟨⟨id, ancestors, isolation⟩, .active, none, none⟩ := by
  unfold start Handle.ofChain at h
  cases hchain : chainFault? id ancestors with
  | none =>
    simp only [hchain] at h
    cases h
    exact ⟨rfl, rfl⟩
  | some fault =>
    simp only [hchain] at h
    cases h

/-- The nearest ancestor lies below the transaction. -/
theorem lt_of_chainFault?_eq_none {id parent : Timestamp} {rest : List Timestamp}
    (h : chainFault? id (parent :: rest) = none) : parent < id := by
  have hchained : Handle.Chained ⟨id, parent :: rest, .snapshot⟩ :=
    Handle.chainFault?_eq_none_iff.1 h
  exact (Timestamp.descend_cons_cons.1 hchained.descends).1

/-- The ancestors of a transaction can be counted in a word. -/
theorem length_lt_of_chainFault?_eq_none {id : Timestamp} {ancestors : List Timestamp}
    (h : chainFault? id ancestors = none) : ancestors.length < UInt64.size := by
  have hchained : Handle.Chained ⟨id, ancestors, .snapshot⟩ := Handle.chainFault?_eq_none_iff.1 h
  exact hchained.length_lt

end Record

end SnapshotIsolation
