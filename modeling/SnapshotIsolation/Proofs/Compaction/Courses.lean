import SnapshotIsolation.Proofs.Engine.Upkeep
import SnapshotIsolation.Proofs.Registry.Reached

/-!
# Passes that outlive changes of the registry

A pass remembers what it looked up, and the registry may change before the next batch of cells. What
the pass then goes by is a table of its own that the registry's table goes on from. What a chain was
settled with in the one it is settled with in the other, so every marker that the pass resolves is
right at that moment. The converse fails for chains that were settled after the pass looked them up.

Main results:

- Theorem {lit}`CompactionPass.Course.trails`: what a pass goes by the registry goes on from.
- Theorem {lit}`CompactionPass.passes_outlive_transitions`: what becomes of each batch.
- Theorem {lit}`CompactionPass.later_pass_resolves_more`: a pass may leave what a new one resolves.
-/

namespace SnapshotIsolation

open Registry (Table Coherent Extends Onward Reached Expressible Concurs statusIn members)

/-- What a scope holds of a transaction or of an ancestor is no longer what the table has. -/
def Scope.Outdated (t : Table) (s : Scope) (id : Timestamp) : Prop :=
  ∃ a ∈ members t id, ∃ old, s.records.get? a = some old ∧ t.get? a ≠ some old

/-- Nothing is outdated of what is yet to be looked up. -/
theorem Scope.not_outdated_of_unseen {t : Table} {s : Scope} {id : Timestamp}
    (h : ∀ a ∈ members t id, s.records.get? a = none) : ¬ s.Outdated t id := by
  rintro ⟨a, ha, old, hknown, _⟩
  rw [h a ha] at hknown
  cases hknown

namespace CompactionPass

variable {t t' view : Table} {r r' : Registry} {p : CompactionPass} {fed : List Cell}

/-! ## Tables behind others -/

/-- Records that were known earlier lie over two tables alike. -/
theorem extends_overlaid (h : Extends t t') (known : Table) :
    Extends (known.overlaid t) (known.overlaid t') := by
  constructor
  · intro id record hfound
    cases hknown : known.get? id with
    | some old =>
      rw [SortedMap.get?_overlaid_of_some hknown] at hfound ⊢
      exact ⟨old, rfl, congrArg Record.toHandle (Option.some.inj hfound)⟩
    | none =>
      rw [SortedMap.get?_overlaid_of_none hknown] at hfound ⊢
      exact h.kept hfound
  · intro id record hfound hterminal
    cases hknown : known.get? id with
    | some old =>
      rw [SortedMap.get?_overlaid_of_some hknown] at hfound ⊢
      exact hfound
    | none =>
      rw [SortedMap.get?_overlaid_of_none hknown] at hfound ⊢
      exact h.terminal hfound hterminal

/-- A table that goes on from what was known goes on doing so. -/
theorem overlaid_extends {known : Table} (h : Extends (known.overlaid t) t)
    (hextends : Extends t t') : Extends (known.overlaid t') t' := by
  have hold : ∀ {id record old}, known.get? id = some old →
      (known.overlaid t').get? id = some record → (known.overlaid t).get? id = some record := by
    intro id record old hknown hfound
    rw [SortedMap.get?_overlaid_of_some hknown] at hfound ⊢
    exact hfound
  constructor
  · intro id record hfound
    cases hknown : known.get? id with
    | some old => exact (h.trans hextends).kept (hold hknown hfound)
    | none =>
      rw [SortedMap.get?_overlaid_of_none hknown] at hfound
      exact ⟨record, hfound, rfl⟩
  · intro id record hfound hterminal
    cases hknown : known.get? id with
    | some old => exact (h.trans hextends).terminal (hold hknown hfound) hterminal
    | none =>
      rw [SortedMap.get?_overlaid_of_none hknown] at hfound
      exact hfound

/-! ## What a pass goes by -/

/-- What a pass goes by: what it looked up, and else what the registry has. -/
def seen (s : Registry × CompactionPass) : Table := s.2.scope.records.overlaid s.1.table

theorem Faithful.eq_seen {s : Registry × CompactionPass} (h : Faithful view s) : view = seen s := by
  apply SortedMap.ext_get?
  intro id
  rw [seen, SortedMap.get?_overlaid]
  exact (h.reading.known id).symm

/-- The registry's table goes on from what the pass goes by. -/
structure Trails (s : Registry × CompactionPass) : Prop where
  faithful : Faithful (seen s) s
  behind : Extends (seen s) s.1.table

theorem trails_start (h : Coherent r) : Trails (r, start) :=
  have hstart := faithful_start h
  ⟨hstart.eq_seen ▸ hstart, hstart.eq_seen ▸ .refl _⟩

/-- The registry may go on. -/
theorem Trails.of_extends (h : Trails (r, p)) (hcoherent : Coherent r')
    (hextends : Extends r.table r'.table) : Trails (r', p) := by
  refine ⟨⟨⟨hcoherent, fun id => (SortedMap.get?_overlaid ..).symm⟩, ?_⟩,
    overlaid_extends h.behind hextends⟩
  intro id status hkept
  rcases h.faithful.statuses hkept with ⟨hsettled, hconcurs⟩
  exact ⟨hsettled, hconcurs.of_extends (extends_overlaid hextends _) hsettled⟩

/-- What becomes of a batch is told by what the pass goes by. -/
theorem Trails.resolveCells {s : Registry × CompactionPass} (h : Trails s) (batch : List Cell) :
    ((resolveCells batch).run s).1 = batch.map (Cell.resolvedIn (seen s)) ∧
      ((resolveCells batch).run s).2.2.stats = countCells (seen s) batch s.2.stats ∧
      ((resolveCells batch).run s).2.1.table = s.1.table ∧
      Trails ((resolveCells batch).run s).2 := by
  rcases run_resolveCells h.faithful batch with ⟨s', hs', hconsulted, hstats, hrun⟩
  rw [hrun]
  refine ⟨rfl, hstats, hconsulted.table, ?_⟩
  have hseen := hs'.eq_seen
  refine ⟨hseen ▸ hs', ?_⟩
  rw [← hseen, hconsulted.table]
  exact h.behind

/-! ## What a pass counts -/

/-- The counts of a pass account for the unresolved markers that were fed to it. -/
structure Accounts (stats : CompactionStats) (fed : List Cell) : Prop where
  markers : stats.resolvedCommitted + stats.resolvedFailed + stats.leftUnresolved =
    fed.countP (·.Unresolved)
  failures : stats.lookupFailures ≤ stats.leftUnresolved

theorem Accounts.countMarker {stats : CompactionStats} {c : Cell} (h : Accounts stats fed)
    (hmarker : c.Unresolved) (found : Except StorageError EffectiveStatus) :
    Accounts (countMarker found stats) (fed ++ [c]) := by
  have hmarkers := h.markers
  have hfailures := h.failures
  have hone : [c].countP (·.Unresolved) = 1 := by simp [hmarker]
  rcases found with _ | _ | _ | _
  all_goals
    constructor
    · rw [List.countP_append, hone]
      simp only [CompactionPass.countMarker, countLookupFailure, countLeft, countResolved]
      omega
    · simp only [CompactionPass.countMarker, countLookupFailure, countLeft, countResolved]
      omega

theorem Accounts.countCell {stats : CompactionStats} (h : Accounts stats fed) (t : Table)
    (c : Cell) : Accounts (countCells t [c] stats) (fed ++ [c]) := by
  by_cases hmarker : c.Unresolved
  · rw [countCells, List.filter_cons_of_pos (by simpa)]
    exact h.countMarker hmarker _
  · rw [countCells, List.filter_cons_of_neg (by simpa)]
    have hnone : [c].countP (·.Unresolved) = 0 := by simp [hmarker]
    refine ⟨?_, h.failures⟩
    rw [List.countP_append, hnone]
    exact h.markers

theorem Accounts.countCells {stats : CompactionStats} (h : Accounts stats fed) (t : Table)
    (batch : List Cell) : Accounts (countCells t batch stats) (fed ++ batch) := by
  induction batch generalizing fed stats with
  | nil => simpa [CompactionPass.countCells] using h
  | cons c batch ih =>
    have hcounted := countCells_append (t := t) [c] batch stats
    rw [List.singleton_append] at hcounted
    rw [List.append_cons, hcounted]
    exact ih (h.countCell t c)

/-! ## Courses -/

/-- The course of a pass over a registry. Batches of cells are fed to it, and in between the
registry is looked up in and operated on. -/
inductive Course : Registry → CompactionPass → List Cell → Prop
  | begun {r : Registry} : Reached r → Course r start []
  | interrupted {r r' : Registry} {p : CompactionPass} {fed : List Cell} : Course r p fed →
      Onward r r' → Course r' p fed
  | batch {r : Registry} {p : CompactionPass} {fed : List Cell} (cells : List Cell) :
      Course r p fed → Course ((resolveCells cells).run (r, p)).2.1
        ((resolveCells cells).run (r, p)).2.2 (fed ++ cells)

theorem Course.reached (h : Course r p fed) : Reached r := by
  induction h with
  | begun hreached => exact hreached
  | interrupted _ honward ih => exact Registry.invariant_reached.onward honward ih
  | batch cells _ ih => exact upholds_resolveCells Registry.invariant_reached cells _ ih

/-- At any time the registry's table goes on from what the pass goes by. -/
theorem Course.trails (h : Course r p fed) : Trails (r, p) := by
  induction h with
  | begun hreached => exact trails_start hreached.coherent
  | @interrupted r r' p fed hcourse honward ih =>
    have hextends := (Registry.invariant_extends r.table).onward honward
      ⟨hcourse.reached.coherent, .refl _⟩
    exact ih.of_extends hextends.1 hextends.2
  | batch cells _ ih => exact (ih.resolveCells cells).2.2.2

theorem Course.accounts (h : Course r p fed) : Accounts p.stats fed := by
  induction h with
  | begun _ => exact ⟨rfl, Nat.le_refl _⟩
  | interrupted _ _ ih => exact ih
  | batch cells hcourse ih =>
    rw [(hcourse.trails.resolveCells cells).2.1]
    exact ih.countCells _ cells

/-! ## Batches -/

/-- What is settled in the table that a pass goes by is settled in the registry's, with the same
marker. -/
theorem Trails.settled {s : Registry × CompactionPass} (h : Trails s)
    (hexpressible : Expressible s.1.table) {id : Timestamp} {status : EffectiveStatus}
    (hstatus : statusIn (seen s) id = .ok status) (hsettled : status ≠ .active) :
    ∃ now, statusIn s.1.table id = .ok now ∧ now ≠ .active ∧
      Marker.decode status.marker.encode = .ok now.marker := by
  have hconcurs := (Concurs.of_eq hstatus).of_extends h.behind hsettled
  generalize hnow : statusIn s.1.table id = answer at hconcurs
  cases hconcurs with
  | failed status status' => exact ⟨_, rfl, nofun, rfl⟩
  | same => exact ⟨status, rfl, hsettled, EffectiveStatus.decode_marker hexpressible hnow⟩

/-- As long as nothing is outdated, the pass goes by what the registry has. -/
theorem statusIn_seen {s : Registry × CompactionPass} {id : Timestamp}
    (h : ¬ s.2.scope.Outdated s.1.table id) :
    statusIn (seen s) id = statusIn s.1.table id := by
  apply Registry.statusIn_congr
  intro a ha
  cases hknown : s.2.scope.records.get? a with
  | none => exact SortedMap.get?_overlaid_of_none hknown _
  | some old =>
    refine (SortedMap.get?_overlaid_of_some hknown _).trans ?_
    by_contra hother
    exact h ⟨a, ha, old, hknown, fun hsame => hother hsame.symm⟩

/-- What a pass left unresolved and the registry's table has settled is outdated in the pass. -/
theorem outdated_of_changed {s : Registry × CompactionPass} {c₀ c : Cell}
    (hearlier : Cell.Marks (seen s) c₀ c) (hchanged : c.resolvedIn s.1.table ≠ c) :
    c.Unresolved ∧ s.2.scope.Outdated s.1.table c.timestamp := by
  have hmarks := Cell.marks_resolvedIn s.1.table c
  generalize c.resolvedIn s.1.table = c' at hmarks hchanged
  cases hmarks with
  | left _ => exact absurd rfl hchanged
  | written hmarker hstatus hsettled =>
    refine ⟨hmarker, ?_⟩
    by_contra hcurrent
    cases hearlier with
    | written _ _ hsettled₀ => exact Cell.not_unresolved_withValue hsettled₀ hmarker
    | left hleft =>
      rw [statusIn_seen hcurrent, hstatus] at hleft
      rcases hleft hmarker with hactive | ⟨e, herror⟩
      · exact hsettled (Except.ok.inj hactive)
      · cases herror

/-- Whatever a pass over a registry has been fed and whatever became of the registry meanwhile, as
long as no commit time is the one that a marker cannot hold: the next batch yields one cell for
each, in order and in its place. A cell is changed only if it is an unresolved marker, and then it
says what its writer counts for at that moment. It is left unresolved only if its writer counts as
active, or cannot be judged, or is outdated in the pass; a writer is not if the pass first looks it
and its ancestors up in this batch. A settled status can always be written down, and the counts
account for all unresolved markers fed so far. A new pass fed with what this one yields changes no
cell but unresolved markers whose writers are outdated in this one. -/
theorem passes_outlive_transitions (h : Course r p fed) (hexpressible : Expressible r.table)
    (batch : List Cell) :
    let s' := (resolveCells batch).run (r, p)
    List.Forall₂ (fun c c' =>
        c'.key = c.key ∧
          (c' ≠ c → c.Unresolved ∧
            ∃ status, Step.answer (Registry.effectiveStatus c.timestamp) r = .ok status ∧
              status ≠ .active ∧ Marker.decode c'.value = .ok status.marker) ∧
          (c' = c → c.Unresolved → ¬ p.scope.Outdated r.table c.timestamp →
            Step.answer (Registry.effectiveStatus c.timestamp) r = .ok .active ∨
              ∃ e, Step.answer (Registry.effectiveStatus c.timestamp) r = .error e))
        batch s'.1 ∧
      (∀ before c after, batch = before ++ c :: after → ∀ status q,
        (effectiveStatus c.timestamp).run ((resolveCells before).run (r, p)).2 = (.ok status, q) →
          status ≠ .active →
          ((reading (resolvedValue c.timestamp status)).run q).1 = .ok status.marker.encode) ∧
      Accounts s'.2.2.stats (fed ++ batch) ∧
      List.Forall₂ (fun c c' => c' ≠ c → c.Unresolved ∧ p.scope.Outdated r.table c.timestamp)
        s'.1 ((resolveCells s'.1).run (s'.2.1, start)).1 := by
  intro s'
  have htrails := h.trails
  have hcoherent := h.reached.coherent
  have hcells : s'.1 = batch.map (Cell.resolvedIn (seen (r, p))) := (htrails.resolveCells batch).1
  simp only [Registry.answer_effectiveStatus_eq hcoherent]
  refine ⟨?_, ?_, (h.batch batch).accounts, ?_⟩
  · rw [hcells, List.forall₂_map_right_iff, List.forall₂_same]
    intro c _
    have hmarks := Cell.marks_resolvedIn (seen (r, p)) c
    generalize c.resolvedIn (seen (r, p)) = c' at hmarks
    cases hmarks with
    | written hmarker hstatus hsettled =>
      refine ⟨rfl, fun _ => ⟨hmarker, htrails.settled hexpressible hstatus hsettled⟩, ?_⟩
      intro hsame
      exact absurd (hsame.symm ▸ hmarker) (Cell.not_unresolved_withValue hsettled)
    | left hleft =>
      refine ⟨rfl, fun hchanged => absurd rfl hchanged, ?_⟩
      intro _ hmarker hcurrent
      rw [← statusIn_seen (s := (r, p)) hcurrent]
      exact hleft hmarker
  · intro before c after _ status q hrun hsettled
    have hfaithful := (htrails.resolveCells before).2.2.2.faithful
    rcases run_effectiveStatus hfaithful c.timestamp with ⟨found, q', hconcurs, hq', _, _, hfound⟩
    rw [hrun] at hfound
    cases hfound
    rcases run_reading (answers_resolvedValue hconcurs hsettled) hq' with ⟨_, _, _, _, hvalue⟩
    rw [hvalue]
  · have hreached := (h.batch batch).reached
    have hnew := (trails_start hreached.coherent).resolveCells s'.1
    rw [hnew.1, ← (faithful_start hreached.coherent).eq_seen, (htrails.resolveCells batch).2.2.1,
      List.forall₂_map_right_iff, List.forall₂_same]
    intro c hc hchanged
    rw [hcells] at hc
    rcases List.mem_map.1 hc with ⟨c₀, _, rfl⟩
    exact outdated_of_changed (s := (r, p)) (Cell.marks_resolvedIn _ c₀) hchanged

/-- A pass that was fed with the marker of the first of two active transactions. -/
def halfway : Registry × CompactionPass :=
  ((resolveCells [Cell.unresolvedMarker [7] ⟨1⟩]).run
    (Registry.enact [.start ⟨1⟩ none .snapshot, .start ⟨2⟩ none .snapshot], start)).2

/-- Then the first is committed at three and the second at four. -/
def settledMeanwhile : Registry :=
  Step.after (Registry.Operation.perform (.settle ⟨2⟩ (.commit ⟨4⟩)))
    (Step.after (Registry.Operation.perform (.settle ⟨1⟩ (.commit ⟨3⟩))) halfway.1)

theorem course_halfway :
    Course settledMeanwhile halfway.2 [Cell.unresolvedMarker [7] ⟨1⟩] :=
  .interrupted (.batch _ (.begun (Registry.reached_enact _))) (.performed _ (.performed _ .here))

theorem expressible_settledMeanwhile : Expressible settledMeanwhile.table := by
  have hentries : ∀ e ∈ settledMeanwhile.table.entries,
      e.2.commitTs ≠ some ⟨0xFFFFFFFFFFFFFFFF⟩ := by
    decide +kernel
  intro id record hfound _
  exact hentries _ (SortedMap.get?_eq_some_iff.1 hfound)

/-- In the next batch the pass resolves the marker of the second, which it looks up for the first
time, and leaves that of the first and that of a stranger. -/
theorem passes_outlive_transitions_settledMeanwhile :
    let first := Cell.unresolvedMarker [7] ⟨1⟩
    let second := Cell.unresolvedMarker [7] ⟨2⟩
    let stranger := Cell.unresolvedMarker [7] ⟨9⟩
    let s' := (resolveCells [first, second, stranger]).run (settledMeanwhile, halfway.2)
    s'.1 = [first, second.withValue (Marker.committed ⟨4⟩).encode, stranger] ∧
      halfway.2.scope.Outdated settledMeanwhile.table ⟨1⟩ ∧
      ¬ halfway.2.scope.Outdated settledMeanwhile.table ⟨2⟩ ∧
      Accounts s'.2.2.stats [first, first, second, stranger] := by
  intro first second stranger s'
  obtain ⟨_, _, haccounts, hnew⟩ := passes_outlive_transitions course_halfway
    expressible_settledMeanwhile [first, second, stranger]
  have hcells : s'.1 = [first, second.withValue (Marker.committed ⟨4⟩).encode, stranger] := by
    decide +kernel
  have hresolved : ((resolveCells s'.1).run (s'.2.1, start)).1 =
      [first.withValue (Marker.committed ⟨3⟩).encode,
        second.withValue (Marker.committed ⟨4⟩).encode, stranger] := by
    decide +kernel
  rw [hresolved, hcells] at hnew
  cases hnew with
  | cons hfirst _ =>
    refine ⟨hcells, (hfirst (by decide)).2, Scope.not_outdated_of_unseen ?_, haccounts⟩
    decide +kernel

/-- Fed with what the pass yields, a new pass resolves the marker that the pass left, although
nothing happened in between. -/
theorem later_pass_resolves_more :
    let first := Cell.unresolvedMarker [7] ⟨1⟩
    let s' := (resolveCells [first]).run (settledMeanwhile, halfway.2)
    Course settledMeanwhile halfway.2 [first] ∧ Expressible settledMeanwhile.table ∧
      s'.1 = [first] ∧
      ((resolveCells s'.1).run (s'.2.1, start)).1 =
        [first.withValue (Marker.committed ⟨3⟩).encode] ∧
      ((resolveCells s'.1).run (s'.2.1, start)).1 ≠ s'.1 :=
  ⟨course_halfway, expressible_settledMeanwhile, by decide +kernel, by decide +kernel,
    by decide +kernel⟩

end CompactionPass

end SnapshotIsolation
