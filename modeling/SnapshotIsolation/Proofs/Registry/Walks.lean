import SnapshotIsolation.Proofs.Outcome
import SnapshotIsolation.Proofs.Transaction.Settling
import SnapshotIsolation.Registry.Effective

/-!
# Walking up a chain

The members of a chain are a transaction and its ancestors, the nearest first. The walk looks the
ancestors up one after the other, by whatever means, until a member failed or cannot be looked up.
This one tells the status; without such a member the walk has met them all, and an active one keeps
the chain open.

Main results:

- Theorem {lit}`EffectiveStatus.Walked.run_walk`: what the rest of a walk tells, and how far it
  goes.
- Theorem {lit}`EffectiveStatus.resolve_meets_definition`: what the whole walk tells, and which ids
  it looks up.
-/

namespace SnapshotIsolation

namespace EffectiveStatus

variable {ε σ : Type} {seen : List Record} {active : Bool} {outermost : Option Timestamp}
  {record : Record}

/-! ## Looking up one after the other -/

/-- What look-ups of some ids answer when they are made one after the other. -/
def answers (look : Timestamp → Step ε σ Record) : List Timestamp → σ → List (Except ε Record)
  | [], _ => []
  | id :: ids, s => Step.answer (look id) s :: answers look ids (Step.after (look id) s)

/-- The state that these look-ups leave behind. -/
def stateAfter (look : Timestamp → Step ε σ Record) (ids : List Timestamp) (s : σ) : σ :=
  ids.foldl (fun s id => Step.after (look id) s) s

/-- A look-up that also writes down which id it was asked for. -/
def noting (look : Timestamp → Step ε σ Record) (id : Timestamp) :
    Step ε (σ × List Timestamp) Record := do
  modify fun s => (s.1, s.2 ++ [id])
  Step.focus Prod.fst (fun t s => (t, s.2)) (look id)

variable {look : Timestamp → Step ε σ Record}

theorem run_noting (id : Timestamp) (s : σ) (asked : List Timestamp) :
    (noting look id).run (s, asked) =
      Step.ending (Step.answer (look id) s) (Step.after (look id) s, asked ++ [id]) := by
  have hnoted : (noting look id).run (s, asked) =
      (Step.focus Prod.fst (fun t s => (t, s.2)) (look id)).run (s, asked ++ [id]) := rfl
  rw [hnoted, Step.run_focus]

/-- Writing the ids down changes no answer. -/
theorem answers_noting (ids : List Timestamp) (s : σ) (asked : List Timestamp) :
    answers (noting look) ids (s, asked) = answers look ids s := by
  induction ids generalizing s asked with
  | nil => rfl
  | cons id ids ih =>
    simp only [answers, Step.answer_of_run (run_noting id s asked),
      Step.after_of_run (run_noting id s asked), ih]

/-- What was written down are the ids that were looked up, in order. -/
theorem stateAfter_noting (ids : List Timestamp) (s : σ) (asked : List Timestamp) :
    stateAfter (noting look) ids (s, asked) = (stateAfter look ids s, asked ++ ids) := by
  induction ids generalizing s asked with
  | nil => simp [stateAfter]
  | cons id ids ih =>
    have hrest := ih (Step.after (look id) s) (asked ++ [id])
    rw [List.append_assoc, List.singleton_append] at hrest
    rw [stateAfter, List.foldl_cons, Step.after_of_run (run_noting id s asked)]
    exact hrest

/-! ## What the members of a chain tell -/

/-- Whether a walk goes no further than to this member: it failed, or could not be looked up. -/
def halts : Except ε Record → Bool
  | .ok record => record.status.isFailed
  | .error _ => true

/-- The result is what the members of a chain tell, each of them a record or the failure to look it
up: the status or the failure of the first that halts the walk. If there is none, the chain is active
with any of its members, and else it was committed when the outermost one was. A record that is
settled has the time; without it, the chain is not known to be settled. -/
structure Tells (members : List (Except ε Record)) (result : Except ε EffectiveStatus) : Prop where
  failed {record : Record} : members.find? halts = some (.ok record) →
    result = .ok (.failed record.status)
  missing {e : ε} : members.find? halts = some (.error e) → result = .error e
  active {record : Record} : members.find? halts = none → .ok record ∈ members →
    record.status = .active → result = .ok .active
  committed {record : Record} : members.find? halts = none →
    (∀ member, .ok member ∈ members → member.status ≠ .active) →
    members.getLast? = some (.ok record) → (record.commitTs.isSome ↔ record.status.isTerminal) →
      ∃ ts, record.commitTs = some ts ∧ result = .ok (.committed ts)
  undated {record : Record} : members.find? halts = none →
    (∀ member, .ok member ∈ members → member.status ≠ .active) →
    members.getLast? = some (.ok record) → record.commitTs = none → result = .ok .active

section Tells

variable {members : List (Except ε Record)} {result result' : Except ε EffectiveStatus}

theorem tells_of_failed (h : members.find? halts = some (.ok record)) :
    Tells members (.ok (.failed record.status)) := by
  constructor <;> simp [h]

theorem tells_of_missing {e : ε} (h : members.find? halts = some (.error e)) :
    Tells members (.error e) := by
  constructor <;> simp [h]

theorem isTerminal_of_settled (hsettled : ∀ member, .ok member ∈ members → member.status ≠ .active)
    (hlast : members.getLast? = some (.ok record)) : record.status.isTerminal = true :=
  Status.isTerminal_iff.2 (hsettled record (List.mem_of_getLast? hlast))

/-- What the members of a chain tell is one thing only. -/
theorem Tells.unique (h : Tells (.ok record :: members) result)
    (h' : Tells (.ok record :: members) result') : result = result' := by
  generalize hchain : .ok record :: members = chain at h h'
  have hnonempty : chain ≠ [] := hchain ▸ List.cons_ne_nil _ _
  cases hfind : chain.find? halts with
  | some member =>
    cases member with
    | ok failed => rw [h.failed hfind, h'.failed hfind]
    | error e => rw [h.missing hfind, h'.missing hfind]
  | none =>
    by_cases hactive : ∃ member, .ok member ∈ chain ∧ member.status = .active
    · rcases hactive with ⟨member, hmember, hactive⟩
      rw [h.active hfind hmember hactive, h'.active hfind hmember hactive]
    · have hsettled : ∀ member, .ok member ∈ chain → member.status ≠ .active :=
        fun member hmember hstatus => hactive ⟨member, hmember, hstatus⟩
      have hlast : chain.getLast? = some (chain.getLast hnonempty) :=
        List.getLast?_eq_some_getLast hnonempty
      cases houter : chain.getLast hnonempty with
      | error e =>
        have hhalts := List.find?_eq_none.1 hfind _ (List.getLast_mem hnonempty)
        rw [houter] at hhalts
        exact absurd rfl hhalts
      | ok outer =>
        rw [houter] at hlast
        cases hts : outer.commitTs with
        | none => rw [h.undated hfind hsettled hlast hts, h'.undated hfind hsettled hlast hts]
        | some ts =>
          have hdated : outer.commitTs.isSome ↔ outer.status.isTerminal := by
            simp [hts, isTerminal_of_settled hsettled hlast]
          rcases h.committed hfind hsettled hlast hdated with ⟨t, ht, hresult⟩
          rcases h'.committed hfind hsettled hlast hdated with ⟨t', ht', hresult'⟩
          rw [hresult, hresult', Option.some.inj (ht.symm.trans ht')]

end Tells

/-! ## The walk -/

/-- What a walk keeps of the members that it has met: whether one of them was active, and if not,
when the last one was committed. -/
structure Walked (seen : List Record) (active : Bool) (outermost : Option Timestamp) : Prop where
  unfailed {record : Record} : record ∈ seen → record.status.isFailed = false
  active_iff : active = true ↔ ∃ record ∈ seen, record.status = .active
  outermost {record : Record} : active = false → seen.getLast? = some record →
    outermost = record.commitTs

/-- A walk sets out from a record that did not fail. -/
theorem walked_singleton (h : record.status.isFailed = false) :
    Walked [record] (record.status = .active) record.commitTs := by
  constructor
  · intro r hr
    rwa [List.mem_singleton.1 hr]
  · simp
  · intro r _ hlast
    cases hlast
    rfl

theorem Walked.concat_active (h : Walked seen active outermost) (hactive : record.status = .active) :
    Walked (seen ++ [record]) true outermost := by
  constructor
  · intro r hr
    rcases List.mem_append.1 hr with hr | hr
    · exact h.unfailed hr
    · rw [List.mem_singleton.1 hr, hactive]
      rfl
  · simp [hactive]
  · nofun

theorem Walked.concat_committed (h : Walked seen active outermost)
    (hcommitted : record.status = .committed) :
    Walked (seen ++ [record]) active record.commitTs := by
  constructor
  · intro r hr
    rcases List.mem_append.1 hr with hr | hr
    · exact h.unfailed hr
    · rw [List.mem_singleton.1 hr, hcommitted]
      rfl
  · rw [h.active_iff]
    simp [or_and_right, exists_or, hcommitted]
  · intro r _ hlast
    rw [List.getLast?_concat, Option.some.injEq] at hlast
    rw [hlast]

theorem Walked.find?_eq_none (h : Walked seen active outermost) :
    (seen.map Except.ok).find? (halts (ε := ε)) = none := by
  rw [List.find?_eq_none]
  intro member hmember
  rcases List.mem_map.1 hmember with ⟨r, hr, rfl⟩
  simpa [halts] using h.unfailed hr

theorem Walked.find?_append_cons (h : Walked seen active outermost) {member : Except ε Record}
    (hhalts : halts member = true) (rest : List (Except ε Record)) :
    (seen.map Except.ok ++ member :: rest).find? halts = some member := by
  rw [List.find?_append, h.find?_eq_none, Option.none_or, List.find?_cons_of_pos hhalts]

/-- At its end a walk tells what it kept. -/
theorem Walked.tells (h : Walked seen active outermost) :
    Tells (ε := ε) (seen.map .ok)
      (.ok (outermost.elim .active fun ts => if active then .active else .committed ts)) := by
  have hnone := h.find?_eq_none (ε := ε)
  have hsettled : (∀ member, Except.ok (ε := ε) member ∈ seen.map .ok → member.status ≠ .active) →
      active = false := by
    intro hsettled
    rw [Bool.eq_false_iff, ne_eq, h.active_iff]
    rintro ⟨member, hmember, hactive⟩
    exact hsettled member (List.mem_map_of_mem hmember) hactive
  have hlast : ∀ {r}, (seen.map (Except.ok (ε := ε))).getLast? = some (.ok r) →
      seen.getLast? = some r := by simp [List.getLast?_map]
  constructor
  · simp [hnone]
  · simp [hnone]
  · intro r _ hr hactive
    have htrue : active = true := h.active_iff.2 ⟨r, by simpa using hr, hactive⟩
    cases outermost <;> simp [htrue]
  · intro r _ hall houter hdated
    have hts := hdated.2 (isTerminal_of_settled hall houter)
    rcases Option.isSome_iff_exists.1 hts with ⟨ts, hts⟩
    refine ⟨ts, hts, ?_⟩
    have hkept : outermost = some ts := (h.outermost (hsettled hall) (hlast houter)).trans hts
    simp [hkept, hsettled hall]
  · intro r _ hall houter hts
    have hkept : outermost = none := (h.outermost (hsettled hall) (hlast houter)).trans hts
    simp [hkept]

/-- The rest of a walk tells what the members tell that it has met and those that it looks up. The
last that it looks up is the first that halts it. -/
theorem Walked.run_walk (h : Walked seen active outermost) (look : Timestamp → Step ε σ Record)
    (ids : List Timestamp) (s : σ) :
    ∃ result, Tells (seen.map .ok ++ answers look ids s) result ∧
      (walk look active outermost ids).run s =
        Step.ending result (stateAfter look (ids.take ((answers look ids s).findIdx halts + 1)) s) := by
  induction ids generalizing seen active outermost s with
  | nil =>
    refine ⟨_, by simpa [answers] using h.tells, ?_⟩
    cases outermost <;> rfl
  | cons ancestor ids ih =>
    have hrun := Step.run_eq_ending (look ancestor) s
    rw [answers, walk]
    cases hanswer : Step.answer (look ancestor) s with
    | error e =>
      rw [hanswer] at hrun
      refine ⟨.error e, tells_of_missing (h.find?_append_cons rfl _), ?_⟩
      rw [Step.run_bind_of_error hrun, List.findIdx_cons]
      rfl
    | ok record =>
      rw [hanswer] at hrun
      rw [Step.run_bind_of_ok hrun]
      by_cases hfailed : record.status.isFailed = true
      · have hhalts : halts (Except.ok (ε := ε) record) = true := hfailed
        refine ⟨.ok (.failed record.status), tells_of_failed (h.find?_append_cons hhalts _), ?_⟩
        rw [if_pos hfailed, List.findIdx_cons, hhalts]
        rfl
      · have hpasses : halts (Except.ok (ε := ε) record) = false := Bool.eq_false_iff.2 hfailed
        have hmembers : seen.map .ok ++ .ok record :: answers look ids (Step.after (look ancestor) s) =
            (seen ++ [record]).map .ok ++ answers look ids (Step.after (look ancestor) s) := by simp
        rw [if_neg hfailed, hmembers, List.findIdx_cons, hpasses, cond_false, List.take_succ_cons,
          stateAfter, List.foldl_cons]
        rcases Status.isFailed_eq_false_iff.1 hpasses with hactive | hcommitted
        · rw [if_pos hactive]
          exact ih (h.concat_active hactive) _
        · rw [if_neg (by simp [hcommitted])]
          exact ih (h.concat_committed hcommitted) _

/-- The whole walk, from the record on. -/
theorem run_resolve (record : Record) (look : Timestamp → Step ε σ Record) (s : σ) :
    ∃ result, Tells (.ok record :: answers look record.ancestors s) result ∧
      (resolve record look).run s =
        Step.ending result (stateAfter look (record.ancestors.take
          ((.ok record :: answers look record.ancestors s).findIdx halts)) s) := by
  rw [resolve, List.findIdx_cons]
  by_cases hfailed : record.status.isFailed = true
  · have hhalts : halts (Except.ok (ε := ε) record) = true := hfailed
    rw [if_pos hfailed, hhalts]
    exact ⟨.ok (.failed record.status), tells_of_failed (List.find?_cons_of_pos hhalts), rfl⟩
  · have hpasses : halts (Except.ok (ε := ε) record) = false := Bool.eq_false_iff.2 hfailed
    rw [if_neg hfailed, hpasses]
    exact (walked_singleton hpasses).run_walk look record.ancestors s

/-- The effective status of a record is what the members of its chain tell, by any look-ups. These
are made in order, of the ancestors up to the first member that halts the walk and of no others. -/
theorem resolve_meets_definition (record : Record) (look : Timestamp → Step ε σ Record) (s : σ) :
    let members := .ok record :: answers look record.ancestors s
    let asked := record.ancestors.take (members.findIdx halts)
    ∃ result, Tells members result ∧
      (resolve record look).run s = Step.ending result (stateAfter look asked s) ∧
      (resolve record (noting look)).run (s, []) =
        Step.ending result (stateAfter look asked s, asked) := by
  intro members asked
  rcases run_resolve record look s with ⟨result, htells, hrun⟩
  rcases run_resolve record (noting look) (s, []) with ⟨noted, htells', hrun'⟩
  rw [answers_noting] at htells' hrun'
  rw [stateAfter_noting, List.nil_append, htells'.unique htells] at hrun'
  exact ⟨result, htells, hrun, hrun'⟩

end EffectiveStatus

end SnapshotIsolation
