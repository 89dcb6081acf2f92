import Mathlib.Data.List.Induction
import SnapshotIsolation.Proofs.Cell.Rows
import SnapshotIsolation.Proofs.Visibility.Verdict

/-!
# Visible versions

Once every writer has its verdict, what a reader sees of a row is a function of the cells. Only
data and tombstones by writers that the reader sees have a part in it.

Main results:

- Theorem {lit}`Reading.exists_markers`: markers that decode are collected, each from a cell.
- Theorem {lit}`Reading.get?_markers`: whose marker is found.
- Theorems {lit}`Reading.Composes.readRow` and {lit}`Reading.answers_readRow_perceives`: a row read
  is the visible row under the verdicts.
- Theorem {lit}`Reading.visibleRow_congr`: what is seen of a row depends on the cells that show
  something.
-/

namespace SnapshotIsolation

open Registry (Table)

namespace Reading

variable {t : Table}

/-! ## Markers -/

/-- The markers found so far, after one more cell. -/
def markerStep (found : SortedMap Timestamp Marker) (c : Cell) :
    Except EncodingError (SortedMap Timestamp Marker) :=
  if c.kind = .commitMarker then do return found.insert c.timestamp (← Marker.decode c.value)
  else return found

theorem exists_markersFrom {cells : List Cell}
    (h : ∀ c ∈ cells, c.kind = .commitMarker → ∃ m, Marker.decode c.value = .ok m)
    (found : SortedMap Timestamp Marker) :
    ∃ found', cells.foldlM markerStep found = .ok found' ∧
      ∀ writer m, found'.get? writer = some m → found.get? writer = some m ∨
        ∃ c ∈ cells, c.kind = .commitMarker ∧ c.timestamp = writer ∧
          Marker.decode c.value = .ok m := by
  induction cells generalizing found with
  | nil => exact ⟨found, rfl, fun _ _ hfound => .inl hfound⟩
  | cons c cells ih =>
    have hstep : ∃ next, markerStep found c = .ok next ∧ ∀ writer m, next.get? writer = some m →
        found.get? writer = some m ∨ c.kind = .commitMarker ∧ c.timestamp = writer ∧
          Marker.decode c.value = .ok m := by
      unfold markerStep
      by_cases hkind : c.kind = .commitMarker
      · rcases h c List.mem_cons_self hkind with ⟨m, hm⟩
        refine ⟨found.insert c.timestamp m, by rw [if_pos hkind, hm]; rfl, ?_⟩
        intro writer m' hnext
        rcases SortedMap.eq_or_get?_of_insert hnext with ⟨rfl, rfl⟩ | hnext
        · exact .inr ⟨hkind, rfl, hm⟩
        · exact .inl hnext
      · exact ⟨found, if_neg hkind, fun _ _ hnext => .inl hnext⟩
    rcases hstep with ⟨next, hnext, hsource⟩
    obtain ⟨found', hfound', hmarkers⟩ := ih (fun c' hc' => h c' (List.mem_cons_of_mem _ hc')) next
    refine ⟨found', ?_, ?_⟩
    · rw [List.foldlM_cons, hnext]
      exact hfound'
    · intro writer m hm
      rcases hmarkers writer m hm with hm | ⟨c', hc', hmarker⟩
      · rcases hsource writer m hm with hm | hmarker
        · exact .inl hm
        · exact .inr ⟨c, List.mem_cons_self, hmarker⟩
      · exact .inr ⟨c', List.mem_cons_of_mem _ hc', hmarker⟩

/-- Markers that decode are collected, and each that is found stands in a cell of its writer. -/
theorem exists_markers {cells : List Cell}
    (h : ∀ c ∈ cells, c.kind = .commitMarker → ∃ m, Marker.decode c.value = .ok m) :
    ∃ found, markers cells = .ok found ∧ ∀ writer m, found.get? writer = some m →
      ∃ c ∈ cells, c.kind = .commitMarker ∧ c.timestamp = writer ∧
        Marker.decode c.value = .ok m := by
  rcases exists_markersFrom h .empty with ⟨found, hfound, hmarkers⟩
  refine ⟨found, hfound, ?_⟩
  intro writer m hm
  rcases hmarkers writer m hm with hm | hmarker
  · cases hm
  · exact hmarker

/-- The marker of a writer among the cells: what the last one says. -/
def markerOf (cells : List Cell) (writer : Timestamp) : Option Marker :=
  (cells.filter fun c => c.kind = .commitMarker ∧ c.timestamp = writer).getLast?.bind fun c =>
    (Marker.decode c.value).toOption

theorem markers_concat (cells : List Cell) (c : Cell) :
    markers (cells ++ [c]) = (markers cells).bind (markerStep · c) := by
  have hconcat : (cells ++ [c]).foldlM markerStep .empty =
      cells.foldlM markerStep .empty >>= (markerStep · c) := by
    simp [List.foldlM_append]
  exact hconcat

theorem get?_of_markerStep {found found' : SortedMap Timestamp Marker} {c : Cell}
    (h : markerStep found c = .ok found') (writer : Timestamp) :
    found'.get? writer = if c.kind = .commitMarker ∧ c.timestamp = writer then
      (Marker.decode c.value).toOption else found.get? writer := by
  unfold markerStep at h
  split at h
  · rename_i hkind
    cases hdecode : Marker.decode c.value with
    | error e =>
      rw [hdecode] at h
      cases h
    | ok m =>
      rw [hdecode] at h
      obtain rfl : found.insert c.timestamp m = found' := Except.ok.inj h
      by_cases hwriter : c.timestamp = writer
      · rw [if_pos ⟨hkind, hwriter⟩, ← hwriter, SortedMap.get?_insert_self]
        rfl
      · rw [if_neg fun hown => hwriter hown.2, SortedMap.get?_insert_of_ne _ _ (Ne.symm hwriter)]
  · rename_i hkind
    obtain rfl : found = found' := Except.ok.inj h
    rw [if_neg fun hown => hkind hown.1]

/-- Where the markers are collected, every writer has its own among them. -/
theorem get?_markers {cells : List Cell} {found : SortedMap Timestamp Marker}
    (h : markers cells = .ok found) (writer : Timestamp) :
    found.get? writer = markerOf cells writer := by
  -- a later marker replaces an earlier one, so the induction is from the end
  induction cells using List.reverseRecOn generalizing found with
  | nil =>
    cases h
    rfl
  | append_singleton cells c ih =>
    rw [markers_concat] at h
    cases hbefore : markers cells with
    | error e =>
      rw [hbefore] at h
      cases h
    | ok before =>
      rw [hbefore] at h
      rw [get?_of_markerStep h, ih hbefore]
      by_cases hown : c.kind = .commitMarker ∧ c.timestamp = writer
      · simp [markerOf, List.filter_append, hown]
      · simp [markerOf, List.filter_append, hown]

/-! ## Rows -/

/-- The newest deletion so far, after one more cell. -/
def deletionAfter (seen : Timestamp → Bool) (deletedAt : Option Timestamp) (c : Cell) :
    Option Timestamp :=
  if c.kind = .tombstone ∧ seen c.timestamp then
    some (deletedAt.elim c.timestamp (max · c.timestamp))
  else deletedAt

/-- The version of each column so far, after one more cell. -/
def versionAfter (seen : Timestamp → Bool) (deletedAt : Option Timestamp)
    (columns : SortedMap Column Cell) (c : Cell) : SortedMap Column Cell :=
  if c.kind = .userData ∧ seen c.timestamp ∧ ¬ deletedAt.any (c.timestamp < ·) ∧
      ¬ (columns.get? c.column).any (c.timestamp ≤ ·.timestamp) then
    columns.insert c.column c
  else columns

/-- The row that is seen when the given writers are. -/
def visibleRow (seen : Timestamp → Bool) (cells : List Cell) : List Cell :=
  let deletedAt := cells.foldl (deletionAfter seen) none
  (cells.foldl (versionAfter seen deletedAt) .empty).values

/-- Whether a cell can have a part in what a reader sees. -/
def shows (seen : Timestamp → Bool) (c : Cell) : Bool :=
  (c.kind = .tombstone ∨ c.kind = .userData) ∧ seen c.timestamp

/-- Where every verdict is at hand, the visible cells are the visible row. -/
theorem visibleCells_eq_visibleRow (seen : Timestamp → Bool) (cells : List Cell) :
    visibleCells (m := Id) seen cells = visibleRow seen cells := by
  have hdeletion : deletionStep (m := Id) seen = deletionAfter seen := by
    funext deletedAt c
    unfold deletionStep deletionAfter
    by_cases hkind : c.kind = .tombstone
    · simp only [hkind, if_true, true_and]
      cases seen c.timestamp <;> rfl
    · simp only [hkind, if_false, false_and]
      rfl
  have hversion : versionStep (m := Id) seen = versionAfter seen := by
    funext deletedAt columns c
    unfold versionStep versionAfter
    by_cases hkind : c.kind = .userData
    · by_cases hdeleted : deletedAt.any (c.timestamp < ·) = true
      · simp only [hkind, hdeleted, not_true_eq_false, false_and, and_false, if_false, if_true,
          ne_eq]
        rfl
      · by_cases hnewer : (columns.get? c.column).any (c.timestamp ≤ ·.timestamp) = true
        · simp only [hkind, hdeleted, hnewer, not_true_eq_false, and_false, if_false, if_true, ne_eq]
          rfl
        · simp only [hkind, hdeleted, hnewer, not_true_eq_false, if_false, ne_eq]
          cases seen c.timestamp <;> rfl
    · simp only [hkind, ne_eq, not_false_eq_true, if_true, false_and, if_false]
      rfl
  have hfold : ∀ {β : Type} (step : β → Cell → β) (b : β),
      cells.foldlM (m := Id) step b = cells.foldl step b := fun _ _ => List.idRun_foldlM
  unfold visibleCells visibleRow
  rw [hdeletion, hversion, hfold]
  exact congrArg SortedMap.values (hfold _ _)

theorem Composes.relates {gives : ∀ {γ : Type}, Reading γ → γ → Prop} (h : Composes gives) :
    Relates Reading Id gives :=
  ⟨h.pure, fun hact hnext => h.bind hact (hnext _)⟩

/-- A row read gives the visible row under the verdicts on its writers. Only writers of tombstones
and of versions are asked for. -/
theorem Composes.readRow {gives : ∀ {γ : Type}, Reading γ → γ → Prop} (hgives : Composes gives)
    {seen : Timestamp → Bool} {cells : List Cell} {reader : Handle}
    {found : SortedMap Timestamp Marker} (hfound : markers cells = .ok found)
    (h : ∀ c ∈ cells, c.kind = .tombstone ∨ c.kind = .userData →
      gives (isWriterVisible c.timestamp (found.get? c.timestamp) reader.snapshot reader)
        (seen c.timestamp)) :
    gives (readRow cells reader) (visibleRow seen cells) := by
  rw [readRow_eq, hfound, ← visibleCells_eq_visibleRow]
  exact hgives.bind (hgives.pure found) (hgives.relates.visibleCells _ seen h)

/-- Whether a reader sees what a transaction wrote, by the table and the writer's marker among the
cells. -/
def perceives (t : Table) (reader : Handle) (cells : List Cell) (writer : Timestamp) : Bool :=
  judges t reader reader.snapshot (markerOf cells writer) writer

/-- Among cells whose markers can be collected and whose writers are recorded, every reader reads
what it perceives. -/
theorem answers_readRow_perceives (h : Registry.Sound t) {cells : List Cell} {reader : Handle}
    {found : SortedMap Timestamp Marker} (hfound : markers cells = .ok found)
    (hwriters : ∀ c ∈ cells, ∃ record, t.get? c.timestamp = some record) :
    Answers t (readRow cells reader) (.ok (visibleRow (perceives t reader cells) cells)) := by
  apply composes_answers.readRow hfound
  intro c hc _
  rcases hwriters c hc with ⟨record, hwriter⟩
  rw [get?_markers hfound]
  exact answers_judges h hwriter _

theorem determined_readRow (cells : List Cell) (reader : Handle) :
    Determined t (readRow cells reader) :=
  compositional_determined.readRow cells reader

/-- Cells that show nothing can be left out. -/
theorem visibleRow_eq_filter (seen : Timestamp → Bool) (cells : List Cell) :
    visibleRow seen cells = visibleRow (fun _ => true) (cells.filter (shows seen)) := by
  have hdeletion : deletionAfter seen = fun deletedAt c =>
      if shows seen c then deletionAfter (fun _ => true) deletedAt c else deletedAt := by
    funext deletedAt c
    unfold deletionAfter shows
    by_cases hkind : c.kind = .tombstone <;> by_cases hseen : seen c.timestamp = true <;>
      simp [hkind, hseen]
  have hversion : ∀ deletedAt, versionAfter seen deletedAt = fun columns c =>
      if shows seen c then versionAfter (fun _ => true) deletedAt columns c else columns := by
    intro deletedAt
    funext columns c
    unfold versionAfter shows
    by_cases hkind : c.kind = .userData <;> by_cases hseen : seen c.timestamp = true <;>
      simp [hkind, hseen]
  unfold visibleRow
  rw [List.foldl_filter, ← hdeletion]
  simp only [List.foldl_filter, ← hversion]

/-- Verdicts that agree on the writers of the cells lead to the same visible row. -/
theorem visibleRow_congr_seen {seen seen' : Timestamp → Bool} {cells : List Cell}
    (h : ∀ c ∈ cells, seen c.timestamp = seen' c.timestamp) :
    visibleRow seen cells = visibleRow seen' cells := by
  rw [visibleRow_eq_filter, visibleRow_eq_filter seen']
  congr 1
  apply List.filter_congr
  intro c hc
  rw [shows, shows, h c hc]

/-- Stores in which the same cells show something have the same visible rows. -/
theorem visibleRow_congr {s s' : CellStore} {seen seen' : Timestamp → Bool}
    (h : ∀ c, c ∈ s.toList ∧ shows seen c = true ↔ c ∈ s'.toList ∧ shows seen' c = true)
    (row : Bytes) : visibleRow seen (s.row row) = visibleRow seen' (s'.row row) := by
  rw [visibleRow_eq_filter, visibleRow_eq_filter seen', CellStore.filter_row_congr h row]

/-- A marker shows nothing. -/
theorem kind_of_shows {seen : Timestamp → Bool} {c : Cell} (h : shows seen c = true) :
    c.kind ≠ .commitMarker ∧ seen c.timestamp = true := by
  simp only [shows, decide_eq_true_eq] at h
  refine ⟨?_, h.2⟩
  intro hmarker
  simp [hmarker] at h

end Reading

end SnapshotIsolation
