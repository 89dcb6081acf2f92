import SnapshotIsolation.Proofs.Registry.Reached
import SnapshotIsolation.Proofs.Visibility.Reading
import SnapshotIsolation.Visibility.Writer

/-!
# Walks up a chain end

The walk up a writer's chain goes from a record to its parent's, and each of them was made and is
looked up on its own. Whatever ancestors were presented when the transactions began, a parent lies
below its child. So no record is met twice, and the walk ends when it has met those on record that
lie below the writer, or at a parent that is not on record.

Main results:

- Theorem {lit}`Registry.enduring_parentBelow`: parents lie below their children.
- Theorem {lit}`Reading.run_walkWithin`: a walk that may look up as many records as there are.
- Theorem {lit}`Reading.walks_end`: how many look-ups are enough, over any registry and scope.
-/

namespace SnapshotIsolation

namespace Registry

variable {t : Table} {id parent : Timestamp} {record : Record}

/-- The record's parent, if it has one, lies below its id. -/
def ParentBelow (id : Timestamp) (record : Record) : Prop :=
  ∀ parent, record.parent? = some parent → parent < id

theorem enduring_parentBelow : Enduring ParentBelow := by
  constructor
  · intro id ancestors isolation fresh hstart parent hparent
    rcases Record.eq_of_start hstart with ⟨hchain, rfl⟩
    cases ancestors with
    | nil => cases hparent
    | cons ancestor ancestors =>
      cases hparent
      exact Record.lt_of_chainFault?_eq_none hchain
  · intro id outcome old new h hsettle
    rcases Record.settle_cases hsettle with ⟨_, rfl⟩ | hcloses
    · exact h
    · rw [ParentBelow, hcloses.handle]
      exact h

/-- How many ids on record are not above the given one. -/
def countUpTo (t : Table) (id : Timestamp) : Nat := t.keys.countP (· ≤ id)

/-- Below an id on record there are fewer. -/
theorem countUpTo_lt (hfound : t.get? id = some record) (hbelow : parent < id) :
    countUpTo t parent < countUpTo t id := by
  have hmem : id ∈ t.keys := List.mem_map_of_mem (f := (·.1)) (SortedMap.get?_eq_some_iff.1 hfound)
  rcases List.append_of_mem hmem with ⟨before, after, hkeys⟩
  have hmono : ∀ ids : List Timestamp, ids.countP (· ≤ parent) ≤ ids.countP (· ≤ id) := by
    intro ids
    apply List.countP_mono_left
    intro k _ hk
    simp only [decide_eq_true_eq] at hk ⊢
    exact le_trans hk (le_of_lt hbelow)
  have hbefore := hmono before
  have hafter := hmono after
  simp only [countUpTo, hkeys, List.countP_append, List.countP_cons, le_refl, decide_true, if_true,
    not_le_of_gt hbelow, decide_false, Bool.false_eq_true, if_false]
  omega

end Registry

open Registry (Table Coherent Consulted Extends Each ParentBelow Operation lookUp countUpTo)

/-! ## Registries under reading -/

namespace ReadState

/-- What there can be of a registry and a scope: the scope begins empty over a registry that can be
reached, and takes up what is looked up through it, while the registry is looked up and operated on
by others in between. -/
inductive Reached : ReadState → Prop
  | entered {r : Registry} : r.Reached → Reached ⟨r, .empty⟩
  | found {s : ReadState} (id : Timestamp) : Reached s → Reached (Step.after (Reading.find id) s)
  | consulted {s : ReadState} (id : Timestamp) : Reached s →
      Reached { s with registry := Step.after (Registry.find id) s.registry }
  | performed {s : ReadState} (op : Operation) : Reached s →
      Reached { s with registry := Step.after op.perform s.registry }

/-- Whatever is looked up, in the scope or in the registry, is on record and has its parent
below. -/
structure Descends (s : ReadState) : Prop where
  coherent : Coherent s.registry
  table : Each ParentBelow s.registry.table
  scope : Each ParentBelow s.scope.records
  recorded {id : Timestamp} {known : Record} : s.scope.records.get? id = some known →
    ∃ record, s.registry.table.get? id = some record

variable {s : ReadState}

theorem Descends.of_extends (h : s.Descends) {r : Registry} (hcoherent : Coherent r)
    (htable : Each ParentBelow r.table) (hextends : Extends s.registry.table r.table) :
    Descends { s with registry := r } := by
  refine ⟨hcoherent, htable, h.scope, ?_⟩
  intro id known hknown
  rcases h.recorded hknown with ⟨record, hrecord⟩
  rcases hextends.kept hrecord with ⟨record', hrecord', _⟩
  exact ⟨record', hrecord'⟩

theorem Descends.of_consulted (h : s.Descends) {r : Registry} (hconsulted : Consulted s.registry r) :
    Descends { s with registry := r } :=
  h.of_extends hconsulted.coherent (hconsulted.table ▸ h.table) (hconsulted.table ▸ .refl _)

/-- A look-up answers what is on record with its parent below, or fails where there is nothing on
record; it changes no record. -/
theorem Descends.run_find (h : s.Descends) (id : Timestamp) :
    (∃ known record s', s.registry.table.get? id = some record ∧ ParentBelow id known ∧
        s'.Descends ∧ s'.registry.table = s.registry.table ∧
        (Reading.find id).run s = .ok known s') ∨
      ∃ e s', s'.Descends ∧ (Reading.find id).run s = .error e s' := by
  cases hscope : s.scope.records.get? id with
  | some known =>
    rcases h.recorded hscope with ⟨record, hrecord⟩
    exact .inl ⟨known, record, s, hrecord, h.scope id known hscope, h, rfl,
      Reading.run_find_of_known hscope⟩
  | none =>
    rcases Reading.run_find_of_unknown h.coherent hscope with ⟨r, hconsulted, hrun⟩
    have hdescends := h.of_consulted hconsulted
    cases hfound : s.registry.table.get? id with
    | none =>
      rw [hfound] at hrun
      exact .inr ⟨_, _, hdescends, hrun⟩
    | some record =>
      rw [hfound] at hrun
      have hbelow : ParentBelow id record := h.table id record hfound
      refine .inl ⟨record, record, _, rfl, hbelow, ?_, hconsulted.table, hrun⟩
      refine ⟨hdescends.coherent, hdescends.table, hdescends.scope.insert hbelow, ?_⟩
      intro k known hknown
      rcases SortedMap.eq_or_get?_of_insert hknown with ⟨rfl, _⟩ | hknown
      · exact ⟨record, hconsulted.table.symm ▸ hfound⟩
      · exact hdescends.recorded hknown

theorem Reached.descends (h : s.Reached) : s.Descends := by
  induction h with
  | entered hreached =>
    rcases Registry.enduring_parentBelow.reached hreached with ⟨hcoherent, htable⟩
    exact ⟨hcoherent, htable, nofun, nofun⟩
  | found id _ ih =>
    rcases ih.run_find id with ⟨_, _, s', _, _, hs', _, hrun⟩ | ⟨_, s', hs', hrun⟩
    · rwa [Step.after, hrun]
    · rwa [Step.after, hrun]
  | consulted id _ ih =>
    rcases Registry.run_find ih.coherent id with ⟨r, hconsulted, hrun⟩
    rw [Step.after_of_run hrun]
    exact ih.of_consulted hconsulted
  | @performed s op _ ih =>
    have htable := (Registry.enduring_parentBelow.invariant.perform op).after ⟨ih.coherent, ih.table⟩
    have hextends := ((Registry.invariant_extends s.registry.table).perform op).after
      ⟨ih.coherent, .refl _⟩
    exact ih.of_extends htable.1 htable.2 hextends.2

end ReadState

/-! ## Walks -/

/-- What the record of a member of a chain leads to: the verdict, or the parent whose record is
looked up next. -/
def Handle.onward (reader : Handle) (snapshot : Timestamp) (record : Record) : Bool ⊕ Timestamp :=
  match record.status, record.commitTs with
  | .rolledBack, _ | .error, _ => .inl false
  | .active, _ | .committed, none => .inl (reader.isolation == .readUncommitted)
  | .committed, some commitTs =>
    match record.parent? with
    | none => .inl (reader.seesCommit snapshot commitTs)
    | some parent =>
      if parent = reader.id then .inl true
      else if reader.isAncestor parent then .inl (reader.seesCommit snapshot commitTs)
      else .inr parent

namespace Reading

variable {reader : Handle} {snapshot member : Timestamp} {s : ReadState}

/-- Walks a writer's chain upward, wherever its parents lie, with at most so many look-ups. If they
are not enough, there is no verdict. -/
def walkWithin (reader : Handle) (snapshot : Timestamp) : Nat → Timestamp → Reading (Option Bool)
  | 0, _ => return none
  | lookUps + 1, member => do
    match reader.onward snapshot (← find member) with
    | .inl verdict => return some verdict
    | .inr parent => walkWithin reader snapshot lookUps parent

theorem walkChain_eq (reader : Handle) (snapshot member : Timestamp) :
    walkChain reader snapshot member = do
      match reader.onward snapshot (← find member) with
      | .inl verdict => return verdict
      | .inr parent => if parent < member then walkChain reader snapshot parent else return false := by
  rw [walkChain]
  congr 1
  funext record
  unfold Handle.onward
  cases record.status with
  | active => rfl
  | rolledBack => rfl
  | error => rfl
  | committed =>
    cases record.commitTs with
    | none => rfl
    | some ts =>
      cases record.parent? with
      | none => rfl
      | some parent =>
        by_cases hreader : parent = reader.id
        · simp [hreader]
        · by_cases hinside : reader.isAncestor parent = true
          · simp [hreader, hinside]
          · simp [hreader, hinside]

/-- The parent that a walk goes on with is that of the record. -/
theorem parent?_of_onward {record : Record} {parent : Timestamp}
    (h : reader.onward snapshot record = .inr parent) : record.parent? = some parent := by
  unfold Handle.onward at h
  split at h
  · cases h
  · cases h
  · cases h
  · cases h
  · split at h
    · cases h
    · rename_i hparent
      split at h
      · cases h
      · split at h
        · cases h
        · cases h
          exact hparent

/-- A walk over a chain of which no member is on record comes to no verdict. -/
theorem countUpTo_pos_of_answer (h : s.Descends) {verdict : Bool}
    (hverdict : Step.answer (walkChain reader snapshot member) s = .ok verdict) :
    0 < countUpTo s.registry.table member := by
  rcases h.run_find member with ⟨_, record, _, hfound, _⟩ | ⟨e, s', _, hrun⟩
  · exact List.countP_pos_iff.2 ⟨member,
      List.mem_map_of_mem (f := (·.1)) (SortedMap.get?_eq_some_iff.1 hfound), by simp⟩
  · rw [walkChain_eq, Step.answer, Step.run_bind_of_error hrun] at hverdict
    cases hverdict

/-- As many look-ups as there are ids on record up to the writer are enough for a walk that comes to
a verdict. Any walk ends with one more, of which the last finds nothing. It ends as the walk does
that stops at parents which do not lie below. -/
theorem run_walkWithin {lookUps : Nat} (h : s.Descends)
    (henough : countUpTo s.registry.table member < lookUps ∨
      countUpTo s.registry.table member ≤ lookUps ∧
        ∃ verdict, Step.answer (walkChain reader snapshot member) s = .ok verdict) :
    (walkWithin reader snapshot lookUps member).run s =
      (some <$> walkChain reader snapshot member).run s := by
  -- each look-up that finds a record leaves fewer ids on record up to the next member
  induction lookUps generalizing member s with
  | zero =>
    rcases henough with hnone | ⟨hnone, verdict, hverdict⟩
    · exact absurd hnone (Nat.not_lt_zero _)
    · exact absurd (countUpTo_pos_of_answer h hverdict) (Nat.not_lt_of_le hnone)
  | succ lookUps ih =>
    rw [walkWithin, walkChain_eq, Step.run_map]
    rcases h.run_find member with
      ⟨known, record, s', hfound, hbelow, hs', htable, hrun⟩ | ⟨e, s', _, hrun⟩
    · rw [Step.run_bind_of_ok hrun, Step.run_bind_of_ok hrun]
      cases honward : reader.onward snapshot known with
      | inl verdict => rfl
      | inr parent =>
        have hparent : parent < member := hbelow parent (parent?_of_onward honward)
        have hfewer := Registry.countUpTo_lt hfound hparent
        rw [← htable] at hfewer
        simp only [if_pos hparent]
        rw [ih hs', Step.run_map]
        rw [← htable] at henough
        rcases henough with hmore | ⟨hmost, verdict, hverdict⟩
        · exact .inl (by omega)
        · rw [walkChain_eq, Step.answer_bind_of_ok hrun, honward] at hverdict
          simp only [if_pos hparent] at hverdict
          exact .inr ⟨by omega, verdict, hverdict⟩
    · rw [Step.run_bind_of_error hrun, Step.run_bind_of_error hrun]

/-- Whatever was done to a registry and looked up through a scope, and however the lists of
ancestors contradict one another, the walk up a writer's chain ends after one look-up more at most
than there are ids on record up to the writer, and if it comes to a verdict then without the one
more. It is the walk by which a reader outside the writer's chain decides as long as no marker tells
what became of the writer. -/
theorem walks_end (h : s.Reached) (writer : Timestamp) (marker : Option Marker)
    (snapshot : Timestamp) (reader : Handle) :
    let recorded := countUpTo s.registry.table writer
    (walkWithin reader snapshot (recorded + 1) writer).run s =
        (some <$> walkChain reader snapshot writer).run s ∧
      (∀ verdict, Step.answer (walkChain reader snapshot writer) s = .ok verdict →
        (walkWithin reader snapshot recorded writer).run s =
          (some <$> walkChain reader snapshot writer).run s) ∧
      (reader.isInFamily writer = false → (∀ m, marker = some m → m.isResolved = false) →
        isWriterVisible writer marker snapshot reader = walkChain reader snapshot writer) := by
  intro recorded
  refine ⟨run_walkWithin h.descends (.inl (Nat.lt_succ_self _)), ?_, ?_⟩
  · intro verdict hverdict
    exact run_walkWithin h.descends (.inr ⟨Nat.le_refl _, verdict, hverdict⟩)
  · intro houtside hmarker
    rw [Handle.isInFamily, Bool.or_eq_false_iff, beq_eq_false_iff_ne] at houtside
    unfold isWriterVisible
    simp only [if_neg (Ne.symm houtside.1), houtside.2, Bool.false_eq_true, if_false]
    cases marker with
    | none => rfl
    | some m =>
      have hunresolved : m = .unresolved := by simpa [Marker.isResolved] using hmarker m rfl
      rw [hunresolved]

/-- A journal tells of two transactions that began and committed. The inner one lists the outer one
as its parent and one as its grandparent, the outer one lists two as its parent, and neither of
these is on record. -/
def contradictingEntries : List Journal.Entry :=
  [⟨0, ⟨5⟩, .began [⟨3⟩, ⟨1⟩] .snapshot⟩, ⟨1, ⟨5⟩, .settled (.commit ⟨6⟩)⟩,
    ⟨2, ⟨3⟩, .began [⟨2⟩] .snapshot⟩, ⟨3, ⟨3⟩, .settled (.commit ⟨4⟩)⟩]

/-- The registry that is opened over this journal. -/
def contradictory : Registry where
  table := ((SortedMap.empty.insert ⟨5⟩
      ⟨⟨⟨5⟩, [⟨3⟩, ⟨1⟩], .snapshot⟩, .committed, some ⟨6⟩, none⟩).insert ⟨3⟩
      ⟨⟨⟨3⟩, [⟨2⟩], .snapshot⟩, .committed, some ⟨4⟩, none⟩)
  active := .empty
  cache := .ofCapacity 4
  journal := some (.holding contradictingEntries)
  lookups := 0

theorem run_openAt_contradictingEntries :
    (Registry.openAt 4).run ⟨false, .file (Journal.image contradictingEntries)⟩ =
      .ok contradictory ⟨false, .file (Journal.image contradictingEntries)⟩ := by
  have hfits : ∀ e ∈ contradictingEntries, e.Fits := by
    simp only [contradictingEntries, List.forall_mem_cons]
    exact ⟨Journal.Entry.fits_began _ _ (by decide) _, Journal.Entry.fits_settled ..,
      Journal.Entry.fits_began _ _ (by decide) _, Journal.Entry.fits_settled .., nofun⟩
  have hlegible : Journal.Legible contradictingEntries := ⟨hfits _, by decide, by decide⟩
  have hjournal : Journal.openAt.run ⟨false, .file (Journal.image contradictingEntries)⟩ =
      .ok (.holding contradictingEntries) ⟨false, .file (Journal.image contradictingEntries)⟩ :=
    Journal.run_openAt rfl (by simp) hfits (congrArg Journal.Scan.frames (Journal.scan_image hfits))
  have hreplay : Registry.replay contradictingEntries = .ok contradictory.table := rfl
  have hsettled : Registry.abandonInFlight.run { Registry.inMemory 4 with
      table := contradictory.table, journal := some (.holding contradictingEntries) } =
        .ok () contradictory := rfl
  have hnode : contradictory.journalNode = some (.file (Journal.image contradictingEntries)) := rfl
  unfold Registry.openAt
  rw [Step.run_bind_of_ok (Step.run_mapError_of_ok hjournal)]
  simp [Journal.readAll_holding hlegible, hreplay, hsettled, hnode, Except.mapError]

/-- Of the three members of the inner transaction's chain two are on record. A reader that has the
third for an ancestor needs their two look-ups, any other one a third look-up that fails. -/
theorem walks_end_contradictory :
    let s := Step.after (find ⟨3⟩) ⟨contradictory, .empty⟩
    let kin : Handle := ⟨⟨7⟩, [⟨2⟩], .snapshot⟩
    let stranger : Handle := ⟨⟨7⟩, [], .snapshot⟩
    s.Reached ∧ countUpTo s.registry.table ⟨5⟩ = 2 ∧
      Step.answer (walkWithin stranger ⟨7⟩ 2 ⟨5⟩) s = .ok none ∧
      Step.answer (isWriterVisible ⟨5⟩ (some .unresolved) ⟨7⟩ stranger) s =
        .error (.transaction (.notFound ⟨2⟩)) ∧
      Step.answer (isWriterVisible ⟨5⟩ none ⟨7⟩ kin) s = .ok true := by
  intro s kin stranger
  have hreached : s.Reached :=
    .found ⟨3⟩ (.entered (.opened run_openAt_contradictingEntries .here))
  have hanswer : ∀ {reader : Handle} {result : Except StorageError Bool},
      (walkWithin reader ⟨7⟩ 3 ⟨5⟩).run s = (some <$> walkChain reader ⟨7⟩ ⟨5⟩).run s →
        Step.answer (walkWithin reader ⟨7⟩ 3 ⟨5⟩) s = result.map some →
          Step.answer (walkChain reader ⟨7⟩ ⟨5⟩) s = result := by
    intro reader result hrun hwithin
    rw [Step.answer, hrun, ← Step.answer, Step.answer_map] at hwithin
    cases hwalk : Step.answer (walkChain reader ⟨7⟩ ⟨5⟩) s <;> cases result <;>
      simp_all [Except.map]
  rcases walks_end hreached ⟨5⟩ (some .unresolved) ⟨7⟩ stranger with ⟨hstranger, _, hwalks⟩
  rcases walks_end hreached ⟨5⟩ none ⟨7⟩ kin with ⟨hkin, _, hwalks'⟩
  refine ⟨hreached, by decide, rfl, ?_, ?_⟩
  · rw [hwalks rfl (by simp [Marker.isResolved])]
    exact hanswer hstranger rfl
  · rw [hwalks' rfl nofun]
    exact hanswer hkin rfl

end Reading

end SnapshotIsolation
