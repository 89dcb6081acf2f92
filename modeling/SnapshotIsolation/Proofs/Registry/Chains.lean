import SnapshotIsolation.Proofs.Registry.Reached
import SnapshotIsolation.Proofs.Transaction.Context

/-!
# Recorded chains and presented handles

A start looks the parent's record up to see that it is active, but takes the ancestors of the child
from the handle that the client presents. The handle is a chain by itself, yet nothing ties it to
the record, so recorded chains hang together exactly as long as clients present handles with the
ancestors on record. Those that the registry gave out stay so for good.

Main results:

- Theorem {lit}`Registry.linked_insert_iff`: what one operation does to the chains of a table.
- Theorem {lit}`Registry.linked_enactFrom_iff`: what any operations do.
- Theorem {lit}`Registry.chains_follow_presented_handles`: which operations on an empty registry
  leave the chains linked.
-/

namespace SnapshotIsolation

namespace Registry

variable {r : Registry} {t t' : Table} {id : Timestamp} {ancestors rest : List Timestamp}
  {op : Operation} {new : Record}

/-! ## Chains in a table -/

/-- The transaction is on record with the given ancestors. -/
def Lists (t : Table) (id : Timestamp) (ancestors : List Timestamp) : Prop :=
  ∃ record, t.get? id = some record ∧ record.ancestors = ancestors

/-- The ancestors of every nested transaction are its parent and those of the parent's record. -/
def Linked (t : Table) : Prop :=
  ∀ id parent rest, Lists t id (parent :: rest) → Lists t parent rest

/-- The parent of every nested transaction is on record. -/
def ParentsRecorded (t : Table) : Prop :=
  ∀ id parent rest, Lists t id (parent :: rest) → ∃ ancestors, Lists t parent ancestors

theorem not_lists_empty : ¬ Lists .empty id ancestors :=
  nofun

theorem Lists.unique (h : Lists t id ancestors) (h' : Lists t id rest) : ancestors = rest := by
  rcases h with ⟨record, hfound, rfl⟩
  rcases h' with ⟨record', hfound', rfl⟩
  rw [Option.some.inj (hfound.symm.trans hfound')]

theorem Lists.of_extends (h : Lists t id ancestors) (hextends : Extends t t') :
    Lists t' id ancestors := by
  rcases h with ⟨record, hfound, rfl⟩
  rcases hextends.kept hfound with ⟨record', hfound', hhandle⟩
  exact ⟨record', hfound', congrArg Handle.ancestors hhandle⟩

/-! ## One operation -/

/-- The operation presents a parent with the ancestors on record, if it presents one. -/
def Operation.Candid (t : Table) : Operation → Prop
  | .start _ (some parent) _ => Lists t parent.id parent.ancestors
  | .start _ none _ | .settle .. => True

/-- Who is on record after an operation was so before, or has just begun. -/
theorem Operation.lists_insert (hput : op.put? t = some new)
    (h : Lists (t.insert op.txn new) id ancestors) :
    Lists t id ancestors ∨ ∃ parent isolation, op = .start id parent isolation ∧
      Begins t id parent isolation new ∧ new.ancestors = ancestors := by
  rcases h with ⟨record, hfound, rfl⟩
  rcases SortedMap.eq_or_get?_of_insert hfound with ⟨rfl, rfl⟩ | hfound
  · cases op with
    | start id parent isolation =>
      have hbegins := begins_of_freshRecord (freshRecord_of_put? hput)
      exact .inr ⟨parent, isolation, rfl, hbegins, rfl⟩
    | settle id outcome =>
      rcases settledRecord_of_put? hput with ⟨hsettled, hchanged⟩
      rcases settledRecord_cases hsettled with ⟨old, hold, ⟨_, rfl⟩ | hcloses⟩
      · exact absurd hold hchanged
      · exact .inl ⟨old, hold, congrArg Handle.ancestors hcloses.handle.symm⟩
  · exact .inl ⟨record, hfound, rfl⟩

theorem ParentsRecorded.insert (h : ParentsRecorded t) (hput : op.put? t = some new) :
    ParentsRecorded (t.insert op.txn new) := by
  have hextends := Operation.extends_insert_of_put? hput
  intro id parent rest hlists
  rcases Operation.lists_insert hput hlists with hbefore | ⟨p?, _, _, hbegins, hancestors⟩
  · rcases h id parent rest hbefore with ⟨ancestors, hparent⟩
    exact ⟨ancestors, hparent.of_extends hextends⟩
  · cases p? with
    | none => simp [hbegins.topLevel rfl] at hancestors
    | some p =>
      rcases hbegins.nested p rfl with ⟨hchain, found, hfound, _⟩
      rw [hchain, List.cons.injEq] at hancestors
      rcases hancestors with ⟨rfl, _⟩
      exact ⟨found.ancestors, Lists.of_extends ⟨found, hfound, rfl⟩ hextends⟩

/-- An operation that changes the table keeps its chains linked exactly if it presents no other
ancestors than those on record. -/
theorem linked_insert_iff (hrecorded : ParentsRecorded t) (hput : op.put? t = some new) :
    Linked (t.insert op.txn new) ↔ Linked t ∧ op.Candid t := by
  have hextends := Operation.extends_insert_of_put? hput
  constructor
  · intro hlinked
    constructor
    · -- the parent was on record before, and its ancestors do not change
      intro id parent rest hlists
      rcases hrecorded id parent rest hlists with ⟨ancestors, hparent⟩
      have hlinks := hlinked id parent rest (hlists.of_extends hextends)
      rwa [(hparent.of_extends hextends).unique hlinks] at hparent
    · cases op with
      | settle id outcome => trivial
      | start id p? isolation =>
        cases p? with
        | none => trivial
        | some p =>
          have hbegins := begins_of_freshRecord (Operation.freshRecord_of_put? hput)
          rcases hbegins.nested p rfl with ⟨hchain, found, hfound, _⟩
          have hparent : Lists t p.id found.ancestors := ⟨found, hfound, rfl⟩
          have hnew : Lists (t.insert id new) id (p.id :: p.ancestors) :=
            ⟨new, SortedMap.get?_insert_self .., hchain⟩
          have hlinks := hlinked id p.id p.ancestors hnew
          rwa [(hparent.of_extends hextends).unique hlinks] at hparent
  · rintro ⟨hlinked, hcandid⟩ id parent rest hlists
    rcases Operation.lists_insert hput hlists with hbefore | ⟨p?, _, rfl, hbegins, hancestors⟩
    · exact (hlinked id parent rest hbefore).of_extends hextends
    · cases p? with
      | none => simp [hbegins.topLevel rfl] at hancestors
      | some p =>
        rw [(hbegins.nested p rfl).1, List.cons.injEq] at hancestors
        rcases hancestors with ⟨rfl, rfl⟩
        exact Lists.of_extends hcandid hextends

/-- A start that changes nothing was refused. -/
theorem Operation.candid_of_put?_eq_none (h : Coherent r) (hput : op.put? r.table = none)
    (haccepted : Step.answer op.perform r = .ok ()) : op.Candid r.table := by
  cases op with
  | settle id outcome => trivial
  | start id parent isolation =>
    rw [answer_perform_start h] at haccepted
    cases hfresh : freshRecord r.table id parent isolation with
    | error e => simp [hfresh, Except.map] at haccepted
    | ok fresh => simp [put?, hfresh, Except.toOption] at hput

/-- An operation keeps the chains of the table linked exactly if it presents no other ancestors than
those on record, or is refused. -/
theorem linked_perform_iff (h : Coherent r) (hrecorded : ParentsRecorded r.table)
    (op : Operation) :
    Linked (Step.after op.perform r).table ↔
      Linked r.table ∧ (Step.answer op.perform r = .ok () → op.Candid r.table) := by
  cases hput : op.put? r.table with
  | none =>
    rw [(Operation.after_perform_of_none h hput).2.1]
    exact (and_iff_left (Operation.candid_of_put?_eq_none h hput)).symm
  | some new =>
    rw [(Operation.after_perform_of_some h hput).2.1, linked_insert_iff hrecorded hput,
      Operation.answer_perform_of_put? h hput]
    simp

/-- The parents of nested transactions are on record whatever is done. -/
theorem invariant_parentsRecorded : Invariant fun r => Coherent r ∧ ParentsRecorded r.table :=
  invariant_table fun hrecorded hput => hrecorded.insert hput

/-! ## Operations one after another -/

/-- The registry that operations lead to from a given one. -/
def enactFrom (r : Registry) (ops : List Operation) : Registry :=
  ops.foldl (fun r op => Step.after op.perform r) r

/-- Whoever begins a nested transaction and is not refused presents the ancestors on record. -/
def AllCandid (r : Registry) : List Operation → Prop
  | [] => True
  | op :: ops =>
    (Step.answer op.perform r = .ok () → op.Candid r.table) ∧
      AllCandid (Step.after op.perform r) ops

theorem enactFrom_append (r : Registry) (ops later : List Operation) :
    enactFrom r (ops ++ later) = enactFrom (enactFrom r ops) later :=
  List.foldl_append

theorem Invariant.enactFrom {I : Registry → Prop} (hI : Invariant I) (h : I r)
    (ops : List Operation) : I (enactFrom r ops) := by
  induction ops generalizing r with
  | nil => exact h
  | cons op ops ih => exact ih ((hI.perform op).after h)

/-- Operations keep the chains of the table linked exactly if they present no other ancestors than
those on record at the time. -/
theorem linked_enactFrom_iff (h : Coherent r ∧ ParentsRecorded r.table) (ops : List Operation) :
    Linked (enactFrom r ops).table ↔ Linked r.table ∧ AllCandid r ops := by
  induction ops generalizing r with
  | nil => exact (and_iff_left trivial).symm
  | cons op ops ih =>
    have hlater := ih ((invariant_parentsRecorded.perform op).after h)
    rw [AllCandid, ← and_assoc, ← linked_perform_iff h.1 h.2 op]
    exact hlater

/-- The handle of a start that goes ahead is what the record lists. -/
theorem lists_of_answer_start (h : Coherent r) {parent : Option Handle} {isolation : Isolation}
    {handle : Handle} (hstart : Step.answer (start id parent isolation) r = .ok handle) :
    Lists (Step.after (Operation.start id parent isolation).perform r).table handle.id
      handle.ancestors := by
  rcases run_start h id parent isolation with ⟨r', _, hrun⟩
  rw [Operation.perform, Step.after_map]
  unfold Step.answer at hstart
  unfold Step.after
  rw [hrun] at hstart ⊢
  cases hfresh : freshRecord r.table id parent isolation with
  | error e =>
    rw [hfresh] at hstart
    cases hstart
  | ok fresh =>
    rw [hfresh] at hstart
    cases hstart
    have hnamed : fresh.toHandle.id = id := (begins_of_freshRecord hfresh).named
    exact ⟨fresh, hnamed ▸ SortedMap.get?_insert_self .., rfl⟩

/-- Whatever is done to an empty registry, the parent of every nested transaction is on record. The
chains are linked exactly if no start that went ahead was presented other ancestors of the parent
than those on record. The handle that a start answered lists those on record from then on. -/
theorem chains_follow_presented_handles (capacity : Nat) (journal : Option Journal)
    (ops : List Operation) :
    let empty := { inMemory capacity with journal := journal }
    ParentsRecorded (enactFrom empty ops).table ∧
    (Linked (enactFrom empty ops).table ↔ AllCandid empty ops) ∧
    ∀ before id parent isolation later handle, ops = before ++ .start id parent isolation :: later →
      Step.answer (start id parent isolation) (enactFrom empty before) = .ok handle →
      Lists (enactFrom empty ops).table handle.id handle.ancestors := by
  intro empty
  have hempty : ∀ {id ancestors}, ¬ Lists empty.table id ancestors := not_lists_empty
  have hstart : Coherent empty ∧ ParentsRecorded empty.table :=
    ⟨coherent_inMemory capacity journal, fun _ _ _ h => absurd h hempty⟩
  have hlinked : Linked empty.table := fun _ _ _ h => absurd h hempty
  refine ⟨(invariant_parentsRecorded.enactFrom hstart ops).2, ?_, ?_⟩
  · rw [linked_enactFrom_iff hstart, and_iff_right hlinked]
  · rintro before id parent isolation later handle rfl hanswer
    have hbefore := (invariant_parentsRecorded.enactFrom hstart before).1
    let begun := Step.after (Operation.start id parent isolation).perform (enactFrom empty before)
    have hbegun : Coherent begun ∧ Extends begun.table begun.table :=
      ⟨(((invariant_extends _).perform _).after ⟨hbefore, .refl _⟩).1, .refl _⟩
    rw [enactFrom_append]
    exact (lists_of_answer_start hbefore hanswer).of_extends
      ((invariant_extends begun.table).enactFrom hbegun later).2

/-- A handle without ancestors is presented for a nested transaction. The grandchild's chain ends
there, so it counts as committed although the outermost transaction was rolled back, and its parent
does not. -/
theorem presented_handle_cuts_chain :
    let begun := enactFrom (inMemory 4) [.start ⟨1⟩ none .snapshot,
      .start ⟨2⟩ (some ⟨⟨1⟩, [], .snapshot⟩) .snapshot,
      .start ⟨3⟩ (some ⟨⟨2⟩, [], .snapshot⟩) .snapshot]
    let settled := enactFrom begun [.settle ⟨3⟩ (.commit ⟨4⟩), .settle ⟨2⟩ (.commit ⟨5⟩),
      .settle ⟨1⟩ .rollback]
    Handle.ofChain ⟨2⟩ [] .snapshot = .ok ⟨⟨2⟩, [], .snapshot⟩ ∧
      Context.decode [1, 2, 0, 0] = .ok ⟨⟨2⟩, [], .snapshot⟩ ∧
      Lists begun.table ⟨3⟩ [⟨2⟩] ∧ Lists begun.table ⟨2⟩ [⟨1⟩] ∧ ¬ Linked begun.table ∧
      Step.answer (effectiveStatus ⟨3⟩) settled = .ok (.committed ⟨5⟩) ∧
      Step.answer (effectiveStatus ⟨2⟩) settled = .ok (.failed .rolledBack) := by
  intro begun settled
  have hchild : Lists begun.table ⟨2⟩ [⟨1⟩] := ⟨_, rfl, rfl⟩
  have hgrandchild : Lists begun.table ⟨3⟩ [⟨2⟩] := ⟨_, rfl, rfl⟩
  refine ⟨rfl, rfl, hgrandchild, hchild, ?_, rfl, rfl⟩
  intro hlinked
  cases (hlinked _ _ _ hgrandchild).unique hchild

end Registry

end SnapshotIsolation
