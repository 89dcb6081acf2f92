import Mathlib.Data.List.Forall2
import SnapshotIsolation.Compaction
import SnapshotIsolation.Proofs.Cell.Rows
import SnapshotIsolation.Proofs.Visibility.Verdict

/-!
# What a compaction pass leaves

A pass goes by its own look-ups and else by the registry. What the table that these make up says of
the writers tells what the pass answers and counts: it writes resolved markers in place of
unresolved ones and nothing else.

Main results:

- Theorems {lit}`CellStore.run_compactRow_of_ok` and {lit}`CellStore.run_compactRow_of_refuses`: one
  row of a compaction, by any hook.
- Theorem {lit}`CompactionPass.always_forall₂_remarks`: what a pass can change at all.
- Theorem {lit}`CompactionPass.run_resolveCells`: what becomes of a batch of cells.
- Theorem {lit}`CompactionPass.run_compact`: what a whole pass over a sound table leaves of the
  store and the registry.
-/

namespace SnapshotIsolation

open Registry (Table Coherent Consulted lineage Sound Bounded statusIn Concurs)

/-- A cell after a pass: itself, or an unresolved marker with another value. -/
inductive Cell.Remarks (c : Cell) : Cell → Prop
  | kept : Remarks c c
  | changed (value : Bytes) : c.kind = .commitMarker → c.value = [] → Remarks c (c.withValue value)

theorem Cell.Remarks.key {c c' : Cell} (h : c.Remarks c') : c'.key = c.key := by
  cases h <;> rfl

/-- Between two stores only unresolved markers got other values. -/
structure CellStore.Remarked (s s' : CellStore) : Prop where
  others {c : Cell} : c.kind ≠ .commitMarker → (c ∈ s'.toList ↔ c ∈ s.toList)
  markers {c : Cell} : c.kind = .commitMarker → c ∈ s'.toList → c ∈ s.toList ∨
    ∃ c₀ ∈ s.toList, c₀.key = c.key ∧ c₀.value = []

/-- A cell after a pass: itself, or an unresolved marker that was resolved as the table says. -/
inductive Cell.Resolves (t : Table) (c : Cell) : Cell → Prop
  | kept : Resolves t c c
  | resolved {marker : Marker} {value : Bytes} : c.kind = .commitMarker → c.value = [] →
      Marker.decode value = .ok marker → marker.Agrees (lineage t c.timestamp) →
      Resolves t c (c.withValue value)

/-- Between two stores only markers were resolved, and as the table says. -/
structure CellStore.Resolved (t : Table) (s s' : CellStore) : Prop where
  others {c : Cell} : c.kind ≠ .commitMarker → (c ∈ s'.toList ↔ c ∈ s.toList)
  markers {c : Cell} : c.kind = .commitMarker → c ∈ s'.toList → c ∈ s.toList ∨
    (∃ c₀ ∈ s.toList, c₀.key = c.key ∧ c₀.value = []) ∧
      ∃ m, Marker.decode c.value = .ok m ∧ m.Agrees (lineage t c.timestamp)

namespace CellStore

variable {t : Table}

theorem Remarked.refl (s : CellStore) : Remarked s s :=
  ⟨fun _ => Iff.rfl, fun _ hc => .inl hc⟩

theorem Remarked.trans {s₁ s₂ s₃ : CellStore} (h₁ : Remarked s₁ s₂) (h₂ : Remarked s₂ s₃) :
    Remarked s₁ s₃ := by
  constructor
  · intro c hkind
    exact (h₂.others hkind).trans (h₁.others hkind)
  · intro c hkind hc
    rcases h₂.markers hkind hc with hc | ⟨c₀, hc₀, hkey, hempty⟩
    · exact h₁.markers hkind hc
    · rcases h₁.markers ((Cell.isMarker_congr hkey).2 hkind) hc₀ with hc₀ | ⟨c₁, hc₁, hsame, h⟩
      · exact .inr ⟨c₀, hc₀, hkey, hempty⟩
      · exact .inr ⟨c₁, hc₁, hsame.trans hkey, h⟩

theorem Resolved.remarked {s s' : CellStore} (h : Resolved t s s') : Remarked s s' :=
  ⟨h.others, fun hkind hc => (h.markers hkind hc).imp_right And.left⟩

/-- Putting another value in place of that of an unresolved marker. -/
theorem Remarked.put {s₀ s : CellStore} {c : Cell} (hs : Remarked s₀ s) (hc : c ∈ s₀.toList)
    (hkind : c.kind = .commitMarker) (hempty : c.value = []) (value : Bytes) :
    Remarked s₀ (s.put (c.withValue value)) := by
  have hsame : c.key = (c.withValue value).key := rfl
  constructor
  · intro x hx
    have hkey : x.key ≠ (c.withValue value).key :=
      fun hkey => hx ((Cell.isMarker_congr (hkey.trans hsame.symm)).2 hkind)
    have hne : x ≠ c.withValue value := fun heq => hkey (heq ▸ rfl)
    rw [mem_put, ← hs.others hx]
    simp [hne, hkey]
  · intro x hx hmem
    rcases mem_put.1 hmem with rfl | ⟨_, hmem⟩
    · exact .inr ⟨c, hc, rfl, hempty⟩
    · exact hs.markers hx hmem

/-- What holds of a store goes on holding when cells of a row are replaced, if it does when each of
those that change is put. -/
theorem replaceRow_keeps {K : CellStore → Prop} {R : Cell → Cell → Prop} {before after : List Cell}
    (h : List.Forall₂ R before after)
    (hput : ∀ s, ∀ c ∈ before, ∀ c', R c c' → c.value ≠ c'.value → K s → K (s.put c'))
    {s : CellStore} (hs : K s) : K (s.replaceRow before after) := by
  induction h generalizing s with
  | nil => exact hs
  | @cons c c' before after hchange _ ih =>
    apply ih fun s x hx => hput s x (List.mem_cons_of_mem _ hx)
    show K (if c.value = c'.value then s else s.put c')
    split
    · exact hs
    · rename_i hne
      exact hput s c List.mem_cons_self c' hchange hne hs

theorem remarked_replaceRow {s : CellStore} {row : Bytes} {after : List Cell}
    (h : List.Forall₂ Cell.Remarks (s.row row) after) :
    Remarked s (s.replaceRow (s.row row) after) := by
  apply replaceRow_keeps h _ (.refl s)
  intro s' c hc c' hremarks hne hs'
  cases hremarks with
  | kept => exact absurd rfl hne
  | changed value hkind hempty => exact hs'.put (mem_row.1 hc).2 hkind hempty value

theorem Resolved.refl (s : CellStore) : Resolved t s s :=
  ⟨fun _ => Iff.rfl, fun _ hc => .inl hc⟩

theorem Resolved.trans {s₁ s₂ s₃ : CellStore} (h₁ : Resolved t s₁ s₂) (h₂ : Resolved t s₂ s₃) :
    Resolved t s₁ s₃ := by
  constructor
  · intro c hkind
    exact (h₂.others hkind).trans (h₁.others hkind)
  · intro c hkind hc
    rcases h₂.markers hkind hc with hc | ⟨⟨c₀, hc₀, hkey, hempty⟩, hagrees⟩
    · exact h₁.markers hkind hc
    · rcases h₁.markers ((Cell.isMarker_congr hkey).2 hkind) hc₀ with hc₀ | ⟨⟨c₁, hc₁, hsame, h⟩, _⟩
      · exact .inr ⟨⟨c₀, hc₀, hkey, hempty⟩, hagrees⟩
      · exact .inr ⟨⟨c₁, hc₁, hsame.trans hkey, h⟩, hagrees⟩

/-- Putting resolved cells in place of those of the store. -/
theorem resolved_replaceRow {s : CellStore} {row : Bytes} {after : List Cell}
    (h : List.Forall₂ (Cell.Resolves t) (s.row row) after) :
    Resolved t s (s.replaceRow (s.row row) after) := by
  apply replaceRow_keeps h _ (.refl s)
  intro s' c hc c' hresolves hne hs'
  cases hresolves with
  | kept => exact absurd rfl hne
  | @resolved marker value hkind hempty hdecode hagrees =>
    have hput := hs'.remarked.put (mem_row.1 hc).2 hkind hempty value
    refine ⟨hput.others, fun {x} hx hmem => ?_⟩
    rcases mem_put.1 hmem with rfl | ⟨_, hmem⟩
    · exact .inr ⟨⟨c, (mem_row.1 hc).2, rfl, hempty⟩, marker, hdecode, hagrees⟩
    · exact hs'.markers hx hmem

/-! ## One row after the other -/

section Running

variable {σ : Type} {hook : Hook σ} {s : CellStore} {q q' : σ} {row : Bytes}

/-- A hook fails at a row or answers it with another number of cells. -/
inductive Hook.Refuses (hook : Hook σ) (q : σ) (cells : List Cell) : StorageError → σ → Prop
  | failed {e : StorageError} {q' : σ} : (hook cells).run q = .error e q' → Refuses hook q cells e q'
  | misfit {after : List Cell} {q' : σ} : (hook cells).run q = .ok after q' →
      after.length ≠ cells.length →
      Refuses hook q cells (.encoding (.batchSizeMismatch cells.length after.length)) q'

/-- A row that the hook answers with as many cells is replaced. -/
theorem run_compactRow_of_ok {after : List Cell} (hrun : (hook (s.row row)).run q = .ok after q')
    (hlength : after.length = (s.row row).length) (total : CompactionOutcome) :
    (compactRow hook total row).run (s, q) =
      .ok ⟨total.rows + 1, total.cells + (s.row row).length,
        total.changed + countChanged (s.row row) after⟩ (s.replaceRow (s.row row) after, q') := by
  have hfocus : (Step.focus Prod.snd (fun q (s : CellStore × σ) => (s.1, q))
      (hook (s.row row))).run (s, q) = .ok after (s, q') := Step.run_focus_of_ok hrun
  simp only [compactRow, EStateM.run_bind, EStateM.run_get, hfocus, hlength, ne_eq,
    not_true_eq_false, if_false]
  rfl

/-- A row that the hook refuses ends the compaction and is left as it is. -/
theorem run_compactRow_of_refuses {e : StorageError} (h : hook.Refuses q (s.row row) e q')
    (total : CompactionOutcome) :
    (compactRow hook total row).run (s, q) = .error e (s, q') := by
  cases h with
  | failed hrun =>
    have hfocus : (Step.focus Prod.snd (fun q (s : CellStore × σ) => (s.1, q))
        (hook (s.row row))).run (s, q) = .error e (s, q') := Step.run_focus_of_error hrun
    simp only [compactRow, EStateM.run_bind, EStateM.run_get, hfocus]
  | @misfit after _ hrun hlength =>
    have hfocus : (Step.focus Prod.snd (fun q (s : CellStore × σ) => (s.1, q))
        (hook (s.row row))).run (s, q) = .ok after (s, q') := Step.run_focus_of_ok hrun
    simp only [compactRow, EStateM.run_bind, EStateM.run_get, hfocus, ne_eq, hlength,
      not_false_eq_true, if_true]
    rfl

theorem run_compact_eq (hook : Hook σ) (s : CellStore) (q : σ) :
    (compact hook).run (s, q) = (s.rows.foldlM (compactRow hook) ⟨0, 0, 0⟩).run (s, q) := by
  rw [compact, EStateM.run_bind, EStateM.run_get]

end Running

end CellStore

/-- What the marker of a writer with an effective status says. -/
def EffectiveStatus.marker : EffectiveStatus → Marker
  | .active => .unresolved
  | .committed ts => .committed ts
  | .failed _ => .failed

/-- The record of a writer bears out what the table says of it. -/
theorem Marker.resolved_of_statusIn {t : Table} {id : Timestamp} {status : EffectiveStatus}
    (h : Concurs (.ok status) (statusIn t id)) (hsettled : status ≠ .active) :
    ∃ record, t.get? id = some record ∧ Marker.resolved record status = .ok status.marker := by
  generalize hstatus : statusIn t id = answer at h
  cases status with
  | active => exact absurd rfl hsettled
  | committed ts =>
    cases h
    rcases Registry.committed_of_statusIn hstatus with ⟨record, hfound, hcommitted, _⟩
    refine ⟨record, Registry.get?_of_lookUp hfound, ?_⟩
    simp [Marker.resolved, EffectiveStatus.marker, hcommitted, Status.isFailed]
  | failed status =>
    rw [Registry.statusIn_eq] at hstatus
    split at hstatus
    · cases hstatus
      cases h
    · rename_i record hfound
      refine ⟨record, Registry.get?_of_lookUp hfound, ?_⟩
      simp [Marker.resolved, EffectiveStatus.marker]

/-- A commit marker that does not say yet what became of its writer. -/
def Cell.Unresolved (c : Cell) : Prop := c.kind = .commitMarker ∧ Marker.isUnresolvedValue c.value

instance : DecidablePred Cell.Unresolved := fun c =>
  inferInstanceAs (Decidable (c.kind = .commitMarker ∧ Marker.isUnresolvedValue c.value))

/-- An unresolved marker once the status of its writer was looked up. -/
def Cell.settledBy (c : Cell) : Except StorageError EffectiveStatus → Cell
  | .ok (.committed ts) => c.withValue (Marker.committed ts).encode
  | .ok (.failed _) => c.withValue Marker.failed.encode
  | .ok .active | .error _ => c

theorem Cell.settledBy_congr {found found' : Except StorageError EffectiveStatus}
    (h : Concurs found found') (c : Cell) : c.settledBy found = c.settledBy found' := by
  cases h <;> rfl

/-- What a pass makes of a cell that goes by a table. -/
def Cell.resolvedIn (t : Table) (c : Cell) : Cell :=
  if c.Unresolved then c.settledBy (statusIn t c.timestamp) else c

theorem Cell.not_unresolved_withValue {c : Cell} {status : EffectiveStatus} (h : status ≠ .active) :
    ¬ (c.withValue status.marker.encode).Unresolved := by
  rintro ⟨_, hempty⟩
  have hvalue : status.marker.encode = [] := List.isEmpty_iff.1 hempty
  cases status with
  | active => exact h rfl
  | committed ts =>
    have hlength := congrArg List.length hvalue
    simp [EffectiveStatus.marker, Marker.encode] at hlength
  | failed status => cases hvalue

/-- A pass writes the status of the writer into an unresolved marker, if the table that it goes by
has one that is settled. -/
inductive Cell.Marks (t : Table) (c : Cell) : Cell → Prop
  | written {status : EffectiveStatus} : c.Unresolved → statusIn t c.timestamp = .ok status →
      status ≠ .active → Marks t c (c.withValue status.marker.encode)
  | left : (c.Unresolved → statusIn t c.timestamp = .ok .active ∨
      ∃ e, statusIn t c.timestamp = .error e) → Marks t c c

theorem Cell.marks_resolvedIn (t : Table) (c : Cell) : c.Marks t (c.resolvedIn t) := by
  unfold Cell.resolvedIn
  split
  · rename_i hmarker
    cases hstatus : statusIn t c.timestamp with
    | error e => exact .left fun _ => .inr ⟨e, hstatus⟩
    | ok status =>
      cases status with
      | active => exact .left fun _ => .inl hstatus
      | committed ts => exact .written hmarker hstatus nofun
      | failed status => exact .written hmarker hstatus nofun
  · rename_i hother
    exact .left fun hmarker => absurd hmarker hother

/-- A status that can be told by a marker reads back from it. -/
theorem EffectiveStatus.decode_marker {t : Table} {id : Timestamp} {status : EffectiveStatus}
    (h : Registry.Expressible t) (hstatus : statusIn t id = .ok status) :
    Marker.decode status.marker.encode = .ok status.marker := by
  apply Marker.decode_encode
  intro ts hts
  cases status with
  | active => cases hts
  | failed status => cases hts
  | committed ts' =>
    cases hts
    exact h.ne_of_statusIn hstatus

theorem Registry.Bounded.expressible {t : Table} (h : Bounded t) : Registry.Expressible t := by
  intro id record hfound hcommitted hts
  exact absurd (h id record _ hfound hcommitted hts) (by decide)

namespace CompactionPass

variable {α β : Type} {t : Table} {r : Registry} {p : CompactionPass}

/-! ## What a pass can change -/

/-- Whatever the state, the computation gives something with the property. -/
def Always (P : α → Prop) (act : Action α) : Prop := ∀ s, P (act.run s).1

theorem always_pure {P : α → Prop} {a : α} (h : P a) : Always P (pure a) :=
  fun _ => h

theorem Always.bind {Q : β → Prop} {P : α → Prop} {act : Action α} {next : α → Action β}
    (h : Always P act) (hnext : ∀ a, P a → Always Q (next a)) : Always Q (act >>= next) :=
  fun s => hnext _ (h s) _

theorem always_trivial (act : Action α) : Always (fun _ => True) act :=
  fun _ => trivial

theorem always_remarks (c : Cell) : Always c.Remarks (resolveCell c) := by
  unfold resolveCell
  split
  · rename_i hmarker
    have hempty := List.isEmpty_iff.1 hmarker.2
    have hkept : ∀ change, Always c.Remarks (do
        count change
        return c) :=
      fun change => (always_trivial (count change)).bind fun _ _ => always_pure .kept
    unfold resolveMarker
    refine (always_trivial _).bind fun found _ => ?_
    split
    · exact hkept _
    · exact hkept _
    · refine (always_trivial _).bind fun value _ => ?_
      split
      · exact (always_trivial _).bind fun _ _ => always_pure (.changed _ hmarker.1 hempty)
      · exact hkept _
  · exact always_pure .kept

/-- A pass gives one cell for each, in order, and changes none but unresolved markers. -/
theorem always_forall₂_remarks (cells : List Cell) :
    Always (List.Forall₂ Cell.Remarks cells) (resolveCells cells) := by
  unfold resolveCells
  induction cells with
  | nil => exact always_pure .nil
  | cons c cells ih =>
    rw [List.mapM_cons]
    refine (always_remarks c).bind fun c' hc => ?_
    exact ih.bind fun cells' hcells => always_pure (.cons hc hcells)

/-! ## What a pass answers -/

theorem run_bind_of_run {act : Action α} {next : α → Action β} {a : α}
    {s s' : Registry × CompactionPass} (h : act.run s = (a, s')) :
    (act >>= next).run s = (next a).run s' := by
  rw [StateT.run_bind, h]
  rfl

/-- What a pass goes by, its own look-ups and else the registry, is what the table has, and the
statuses that it kept are what the table says. -/
structure Faithful (t : Table) (s : Registry × CompactionPass) : Prop where
  reading : ReadState.Faithful t ⟨s.1, s.2.scope⟩
  statuses {id : Timestamp} {status : EffectiveStatus} : s.2.statuses.get? id = some status →
    status ≠ .active ∧ Concurs (.ok status) (statusIn t id)

theorem faithful_start (h : Coherent r) : Faithful r.table (r, start) :=
  ⟨ReadState.faithful_empty h, nofun⟩

/-- A reading within a pass gives what it answers. -/
theorem run_reading {act : Reading α} {result : Except StorageError α}
    {s : Registry × CompactionPass} (h : Reading.Answers t act result) (hs : Faithful t s) :
    ∃ s', Faithful t s' ∧ Consulted s.1 s'.1 ∧ s'.2.stats = s.2.stats ∧
      (reading act).run s = (result, s') := by
  rcases h ⟨s.1, s.2.scope⟩ hs.reading with ⟨s', hs', hconsulted, hrun⟩
  refine ⟨(s'.registry, { s.2 with scope := s'.scope }), ⟨hs', hs.statuses⟩, hconsulted, rfl, ?_⟩
  have hattempt : (Step.attempt act).run ⟨s.1, s.2.scope⟩ = (result, s') := by
    cases result with
    | ok a => exact Step.run_attempt_of_ok hrun
    | error e => exact Step.run_attempt_of_error hrun
  rcases s with ⟨r, p⟩
  rw [StateT.run, CompactionPass.reading, hattempt]

theorem Faithful.keepStatus {id : Timestamp} (hs : Faithful t (r, p)) :
    Faithful t (r, p.keepStatus id (statusIn t id)) := by
  unfold CompactionPass.keepStatus
  split
  · rename_i status hstatus
    split
    · rename_i hsettled
      refine ⟨hs.reading, ?_⟩
      intro id' status' hkept
      rcases SortedMap.eq_or_get?_of_insert hkept with ⟨rfl, rfl⟩ | hkept
      · exact ⟨by simpa [EffectiveStatus.isTerminal] using hsettled, hstatus ▸ .same _⟩
      · exact hs.statuses hkept
    · exact hs
  · exact hs

theorem stats_keepStatus (id : Timestamp) (found : Except StorageError EffectiveStatus) :
    (p.keepStatus id found).stats = p.stats := by
  unfold CompactionPass.keepStatus
  split
  · split <;> rfl
  · rfl

/-- A pass finds the status that the table says. -/
theorem run_effectiveStatus {s : Registry × CompactionPass} (hs : Faithful t s) (id : Timestamp) :
    ∃ found s', Concurs found (statusIn t id) ∧ Faithful t s' ∧ Consulted s.1 s'.1 ∧
      s'.2.stats = s.2.stats ∧ (effectiveStatus id).run s = (found, s') := by
  have hget : (get : Action (Registry × CompactionPass)).run s = (s, s) := rfl
  rw [effectiveStatus, run_bind_of_run hget]
  cases hkept : s.2.statuses.get? id with
  | some status => exact ⟨_, s, (hs.statuses hkept).2, hs, .refl hs.reading.coherent, rfl, rfl⟩
  | none =>
    rcases run_reading (Reading.answers_statusIn id) hs with
      ⟨⟨r', p'⟩, hs', hconsulted, hstats, hrun⟩
    exact ⟨statusIn t id, (r', p'.keepStatus id (statusIn t id)), .same _, hs'.keepStatus,
      hconsulted, (stats_keepStatus id _).trans hstats, run_bind_of_run hrun⟩

/-- A settled status can always be written down. -/
theorem answers_resolvedValue {id : Timestamp} {status : EffectiveStatus}
    (h : Concurs (.ok status) (statusIn t id)) (hsettled : status ≠ .active) :
    Reading.Answers t (resolvedValue id status) (.ok status.marker.encode) := by
  rcases Marker.resolved_of_statusIn h hsettled with ⟨record, hfound, hresolved⟩
  apply (Reading.answers_find_of_get? hfound).bind
  rw [hresolved]
  exact (Reading.answers_ofExcept (.ok status.marker)).bind (Reading.answers_pure _)

/-- The counts with one more unresolved marker, by the status of its writer. -/
def countMarker : Except StorageError EffectiveStatus → CompactionStats → CompactionStats
  | .error _ => countLookupFailure
  | .ok .active => countLeft
  | .ok status => countResolved status

/-- The counts with the unresolved markers among more cells. -/
def countCells (t : Table) (cells : List Cell) (stats : CompactionStats) : CompactionStats :=
  (cells.filter (·.Unresolved)).foldl (fun stats c => countMarker (statusIn t c.timestamp) stats)
    stats

theorem countMarker_congr {found found' : Except StorageError EffectiveStatus}
    (h : Concurs found found') : countMarker found = countMarker found' := by
  cases h <;> rfl

/-- The pass after something was counted. -/
def counted (change : CompactionStats → CompactionStats) (s : Registry × CompactionPass) :
    Registry × CompactionPass :=
  (s.1, { s.2 with stats := change s.2.stats })

theorem Faithful.counted {s : Registry × CompactionPass} (hs : Faithful t s)
    (change : CompactionStats → CompactionStats) : Faithful t (counted change s) :=
  ⟨hs.reading, hs.statuses⟩

/-- What becomes of an unresolved marker in a pass. -/
theorem run_resolveMarker {s : Registry × CompactionPass} (hs : Faithful t s) (c : Cell) :
    ∃ s', Faithful t s' ∧ Consulted s.1 s'.1 ∧
      s'.2.stats = countMarker (statusIn t c.timestamp) s.2.stats ∧
      (resolveMarker c).run s = (c.settledBy (statusIn t c.timestamp), s') := by
  rcases run_effectiveStatus hs c.timestamp with
    ⟨found, s₁, hconcurs, hs₁, hconsulted₁, hstats₁, hrun₁⟩
  have hwritten : ∀ status, found = .ok status → status ≠ .active →
      ∃ s₂, Faithful t s₂ ∧ Consulted s.1 s₂.1 ∧ s₂.2.stats = s.2.stats ∧
        (reading (resolvedValue c.timestamp status)).run s₁ = (.ok status.marker.encode, s₂) := by
    rintro status rfl hsettled
    rcases run_reading (answers_resolvedValue hconcurs hsettled) hs₁ with
      ⟨s₂, hs₂, hconsulted₂, hstats₂, hrun₂⟩
    exact ⟨s₂, hs₂, hconsulted₁.trans hconsulted₂, hstats₂.trans hstats₁, hrun₂⟩
  rw [← Cell.settledBy_congr hconcurs, ← countMarker_congr hconcurs, resolveMarker,
    run_bind_of_run hrun₁]
  match found with
  | .error e =>
    exact ⟨counted countLookupFailure s₁, hs₁.counted _, hconsulted₁,
      congrArg countLookupFailure hstats₁, rfl⟩
  | .ok .active =>
    exact ⟨counted countLeft s₁, hs₁.counted _, hconsulted₁, congrArg countLeft hstats₁, rfl⟩
  | .ok (.committed ts) =>
    rcases hwritten _ rfl nofun with ⟨s₂, hs₂, hconsulted₂, hstats₂, hrun₂⟩
    exact ⟨counted (countResolved (.committed ts)) s₂, hs₂.counted _, hconsulted₂,
      congrArg (countResolved (.committed ts)) hstats₂, run_bind_of_run hrun₂⟩
  | .ok (.failed status) =>
    rcases hwritten _ rfl nofun with ⟨s₂, hs₂, hconsulted₂, hstats₂, hrun₂⟩
    exact ⟨counted (countResolved (.failed status)) s₂, hs₂.counted _, hconsulted₂,
      congrArg (countResolved (.failed status)) hstats₂, run_bind_of_run hrun₂⟩

theorem run_resolveCell {s : Registry × CompactionPass} (hs : Faithful t s) (c : Cell) :
    ∃ s', Faithful t s' ∧ Consulted s.1 s'.1 ∧ s'.2.stats = countCells t [c] s.2.stats ∧
      (resolveCell c).run s = (c.resolvedIn t, s') := by
  by_cases hmarker : c.Unresolved
  · have hcell : resolveCell c = resolveMarker c := if_pos hmarker
    rw [hcell, Cell.resolvedIn, if_pos hmarker, countCells, List.filter_cons_of_pos (by simpa)]
    exact run_resolveMarker hs c
  · have hcell : resolveCell c = pure c := if_neg hmarker
    rw [hcell, Cell.resolvedIn, if_neg hmarker, countCells, List.filter_cons_of_neg (by simpa)]
    exact ⟨s, hs, .refl hs.reading.coherent, rfl, rfl⟩

theorem countCells_append (cells cells' : List Cell) (stats : CompactionStats) :
    countCells t (cells ++ cells') stats = countCells t cells' (countCells t cells stats) := by
  rw [countCells, List.filter_append, List.foldl_append]
  rfl

/-- What becomes of a batch of cells is told by the table that the pass goes by. -/
theorem run_resolveCells {s : Registry × CompactionPass} (hs : Faithful t s) (cells : List Cell) :
    ∃ s', Faithful t s' ∧ Consulted s.1 s'.1 ∧ s'.2.stats = countCells t cells s.2.stats ∧
      (resolveCells cells).run s = (cells.map (Cell.resolvedIn t), s') := by
  unfold resolveCells
  induction cells generalizing s with
  | nil => exact ⟨s, hs, .refl hs.reading.coherent, rfl, rfl⟩
  | cons c cells ih =>
    rcases run_resolveCell hs c with ⟨s₁, hs₁, hconsulted₁, hstats₁, hrun₁⟩
    rcases ih hs₁ with ⟨s₂, hs₂, hconsulted₂, hstats₂, hrun₂⟩
    refine ⟨s₂, hs₂, hconsulted₁.trans hconsulted₂, ?_, ?_⟩
    · rw [hstats₂, hstats₁, ← countCells_append]
      rfl
    · rw [List.mapM_cons, run_bind_of_run hrun₁, run_bind_of_run hrun₂]
      rfl

theorem run_hook (cells : List Cell) (q : Registry × CompactionPass) :
    (hook cells).run q =
      .ok ((resolveCells cells).run q).1 ((resolveCells cells).run q).2 :=
  rfl

theorem remarks_of_run_hook {cells after : List Cell} {q q' : Registry × CompactionPass}
    (h : (hook cells).run q = .ok after q') : List.Forall₂ Cell.Remarks cells after := by
  rw [run_hook] at h
  cases h
  exact always_forall₂_remarks cells q

/-! ## Whole passes over sound tables -/

/-- In a sound table the marker of a writer agrees with the writer's lineage. -/
theorem resolves_resolvedIn (h : Sound t) (hbounded : Bounded t) (c : Cell) :
    c.Resolves t (c.resolvedIn t) := by
  have hmarks := c.marks_resolvedIn t
  generalize c.resolvedIn t = c' at hmarks
  cases hmarks with
  | left _ => exact .kept
  | @written status hmarker hstatus hsettled =>
    rcases Marker.resolved_of_statusIn (.of_eq hstatus) hsettled with ⟨record, hwriter, _⟩
    have hrecords := Registry.statusIn_of_lineage h (h.lineage hwriter)
    rw [hstatus, Except.ok.injEq] at hrecords
    have hagrees : status.marker.Agrees (lineage t c.timestamp) := by
      cases status with
      | active => exact absurd rfl hsettled
      | committed ts => exact hrecords.symm
      | failed status => exact ⟨status, hrecords.symm⟩
    exact .resolved hmarker.1 (List.isEmpty_iff.1 hmarker.2)
      (EffectiveStatus.decode_marker hbounded.expressible hstatus) hagrees

theorem forall₂_resolves (h : Sound t) (hbounded : Bounded t) (cells : List Cell) :
    List.Forall₂ (Cell.Resolves t) cells (cells.map (Cell.resolvedIn t)) :=
  List.forall₂_map_right_iff.2 (List.forall₂_same.2 fun c _ => resolves_resolvedIn h hbounded c)

/-- The rows that are left to a pass are resolved one after the other. -/
theorem run_compactRows (h : Sound t) (hbounded : Bounded t) (rows : List Bytes)
    (total : CompactionOutcome) {s : CellStore} {q : Registry × CompactionPass}
    (hq : Faithful t q) :
    ∃ outcome s' q', Faithful t q' ∧ Consulted q.1 q'.1 ∧ CellStore.Resolved t s s' ∧
      (rows.foldlM (CellStore.compactRow hook) total).run (s, q) = .ok outcome (s', q') := by
  induction rows generalizing s q total with
  | nil => exact ⟨total, s, q, hq, .refl hq.reading.coherent, .refl s, rfl⟩
  | cons row rows ih =>
    rcases run_resolveCells hq (s.row row) with ⟨q₁, hq₁, hconsulted₁, _, hrun₁⟩
    have hresolved := CellStore.resolved_replaceRow (forall₂_resolves h hbounded (s.row row))
    have hlength : ((s.row row).map (Cell.resolvedIn t)).length = (s.row row).length :=
      List.length_map _
    generalize (s.row row).map (Cell.resolvedIn t) = after at hrun₁ hresolved hlength
    have hhook : (hook (s.row row)).run q = .ok after q₁ := by
      rw [run_hook, hrun₁]
    have hnext := CellStore.run_compactRow_of_ok hhook hlength total
    obtain ⟨outcome, s₂, q₂, hq₂, hconsulted₂, hresolved₂, hrun₂⟩ :=
      ih _ (s := s.replaceRow (s.row row) after) hq₁
    refine ⟨outcome, s₂, q₂, hq₂, hconsulted₁.trans hconsulted₂, hresolved.trans hresolved₂, ?_⟩
    rw [List.foldlM_cons, Step.run_bind_of_ok hnext, hrun₂]

/-- A pass over a sound table only resolves markers, and as the table says. -/
theorem run_compact {r : Registry} (hcoherent : Coherent r) (h : Sound r.table)
    (hbounded : Bounded r.table) (s : CellStore) :
    ∃ outcome s' r' p, Consulted r r' ∧ CellStore.Resolved r.table s s' ∧
      (CellStore.compact hook).run (s, r, start) = .ok outcome (s', r', p) := by
  have hstart := faithful_start hcoherent
  obtain ⟨outcome, s', q, _, hconsulted, hresolved, hrun⟩ :=
    run_compactRows h hbounded s.rows ⟨0, 0, 0⟩ (s := s) hstart
  exact ⟨outcome, s', q.1, q.2, hconsulted, hresolved,
    (CellStore.run_compact_eq hook s _).trans hrun⟩

end CompactionPass

end SnapshotIsolation
