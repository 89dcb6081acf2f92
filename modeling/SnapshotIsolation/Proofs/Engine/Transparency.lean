import SnapshotIsolation.Proofs.Engine.Sessions

/-!
# Resolved markers are invisible

An active outermost reader that reads committed data only sees the same whether the markers of
a row are resolved or not. So a compaction changes nothing for it, and it sees the cells of one
writer together or not at all.

Main results:

- Theorem {lit}`Session.Regular.answer_readRow`: what such a reader reads of a row.
- Theorem {lit}`Session.resolving_is_invisible`: markers and walks tell it the same.
-/

namespace SnapshotIsolation

open Registry (Table Coherent Consulted Sound Bounded)

namespace Engine

variable {σ α : Type} {e : Engine σ} {reader : Handle}

theorem answer_reading {act : Reading α} {result : Except StorageError α}
    (h : Coherent e.registry) (hanswers : Reading.Answers e.registry.table act result) :
    Step.answer (reading act) e = result := by
  rcases run_reading h hanswers with ⟨r', _, hrun⟩
  exact Step.answer_of_run hrun

/-- The markers of a row decode, and each agrees with its writer's lineage. -/
theorem exists_rowMarkers (hattested : e.cells.Attested e.registry.table) (row : Bytes) :
    ∃ found, Reading.markers (e.cells.row row) = .ok found ∧ ∀ writer m,
      found.get? writer = some m → m.Agrees (Registry.lineage e.registry.table writer) := by
  have hdecode : ∀ c ∈ e.cells.row row, c.kind = .commitMarker →
      ∃ m, Marker.decode c.value = .ok m := by
    intro c hc hkind
    rcases hattested.markers (CellStore.mem_row.1 hc).2 hkind with ⟨m, hm, _⟩
    exact ⟨m, hm⟩
  rcases Reading.exists_markers hdecode with ⟨found, hfound, hsource⟩
  refine ⟨found, hfound, ?_⟩
  intro writer m hm
  rcases hsource writer m hm with ⟨c, hc, hkind, rfl, hvalue⟩
  rcases hattested.markers (CellStore.mem_row.1 hc).2 hkind with ⟨m', hm', hagrees⟩
  rw [hvalue] at hm'
  cases hm'
  exact hagrees

/-- The marker of a writer in a row agrees with the writer's lineage. -/
theorem agrees_of_markerOf (hattested : e.cells.Attested e.registry.table) {row : Bytes}
    {writer : Timestamp} {m : Marker}
    (hmarker : Reading.markerOf (e.cells.row row) writer = some m) :
    m.Agrees (Registry.lineage e.registry.table writer) := by
  rcases exists_rowMarkers hattested row with ⟨found, hfound, hagrees⟩
  rw [← Reading.get?_markers hfound] at hmarker
  exact hagrees writer m hmarker

/-- Every reader reads the versions of the writers that it perceives. -/
theorem answer_readRow_perceives (hcoherent : Coherent e.registry)
    (hsound : Sound e.registry.table) (hattested : e.cells.Attested e.registry.table)
    (reader : Handle) (row : Bytes) :
    Step.answer (readRow reader row) e = .ok (Reading.visibleRow
      (Reading.perceives e.registry.table reader (e.cells.row row)) (e.cells.row row)) := by
  rcases exists_rowMarkers hattested row with ⟨found, hfound, _⟩
  have hanswers : Reading.Answers _ (Reading.readRow (e.cells.row row) reader) _ :=
    Reading.answers_readRow_perceives hsound hfound
      fun c hc => hattested.writers (CellStore.mem_row.1 hc).2
  exact answer_reading hcoherent hanswers

/-- A reader reads the versions of the writers that the table lets it see. -/
theorem answer_readRow_of_family (hcoherent : Coherent e.registry)
    (hsound : Sound e.registry.table) (hattested : e.cells.Attested e.registry.table)
    (hreader : reader.FamilyReader e.registry.table) (row : Bytes) :
    Step.answer (readRow reader row) e =
      .ok (Reading.visibleRow (Reading.discerns e.registry.table reader) (e.cells.row row)) := by
  rw [answer_readRow_perceives hcoherent hsound hattested]
  refine congrArg _ (Reading.visibleRow_congr_seen ?_)
  intro c hc
  rcases hattested.writers (CellStore.mem_row.1 hc).2 with ⟨record, hwriter⟩
  exact Reading.judges_eq_discerns hsound hreader hwriter fun m hm => agrees_of_markerOf hattested hm

theorem answer_readRow (hcoherent : Coherent e.registry) (hsound : Sound e.registry.table)
    (hattested : e.cells.Attested e.registry.table)
    (hreader : reader.OuterReader e.registry.table) (row : Bytes) :
    Step.answer (readRow reader row) e =
      .ok (Reading.visibleRow (Reading.sees e.registry.table reader) (e.cells.row row)) := by
  rw [← Reading.discerns_eq_sees hreader]
  exact answer_readRow_of_family hcoherent hsound hattested (hreader.familyReader hsound) row

end Engine

namespace Session

variable {σ : Type} {s : Session σ} {reader : Handle}

/-- Whether the transaction of a handle is active. -/
def IsActive (s : Session σ) (h : Handle) : Prop :=
  ∃ record, s.table.get? h.id = some record ∧ record.status = .active

theorem Regular.outerReader (h : Regular s) (hreader : reader ∈ s.handles)
    (htop : reader.ancestors = []) (hisolation : reader.isolation ≠ .readUncommitted)
    (hactive : s.IsActive reader) : reader.OuterReader s.table := by
  rcases h.recorded reader hreader with ⟨record, hfound, hhandle⟩
  rcases hactive with ⟨record', hfound', hstatus⟩
  rw [hfound, Option.some.injEq] at hfound'
  subst hfound'
  exact ⟨hisolation, htop, record, hfound, hhandle, hstatus⟩

theorem Regular.answer_readRow (h : Regular s) (houter : reader.OuterReader s.table)
    (row : Bytes) : Step.answer (Engine.readRow reader row) s.engine =
      .ok (Reading.visibleRow (Reading.sees s.table reader) (s.engine.cells.row row)) :=
  Engine.answer_readRow h.coherent h.sound h.attested houter row

variable [TimestampSource σ]

/-- A call answers nothing and puts the cells in the place of those that were there. -/
structure Rewrites (s : Session σ) (call : Call) (cells : CellStore) : Prop where
  answer : s.answer call = .ok none
  regular : Regular (s.after call)
  table : (s.after call).table = s.table
  cells : (s.after call).engine.cells = cells
  answers : (s.after call).answers = s.answers
  handles : (s.after call).handles = s.handles

theorem Regular.rewrites (h : Regular s) {call : Call} {r' : Registry} {cells : CellStore}
    (hconsulted : Consulted s.engine.registry r') (hattested : cells.Attested s.table)
    (hrun : call.perform.run s.engine =
      Step.ending (.ok none) { s.engine with registry := r', cells := cells }) :
    Rewrites s call cells := by
  have hanswer : s.answer call = .ok none := Step.answer_of_run hrun
  have hengine : (s.after call).engine = ⟨s.engine.source, r', cells⟩ :=
    Step.after_of_run hrun
  have hhandles : (s.after call).handles = s.handles := by simp only [Session.after, hanswer]
  have htable : (s.after call).table = s.table := by
    rw [Session.table, hengine]
    exact hconsulted.table
  refine ⟨hanswer, ⟨?_, ?_, ?_, ?_, ?_⟩, htable, ?_, ?_, hhandles⟩
  · rw [hengine]
    exact hconsulted.coherent
  · rw [htable]
    exact h.sound
  · rw [htable]
    exact h.bounded
  · rw [htable, hhandles]
    exact h.recorded
  · rw [htable, hengine]
    exact hattested
  · rw [hengine]
  · rw [Session.answers, hengine]

/-- A compaction leaves the table and every cell but markers. -/
theorem Regular.compact (h : Regular s) :
    Regular (s.after .compact) ∧ (s.after .compact).table = s.table ∧
      CellStore.Resolved s.table s.engine.cells (s.after .compact).engine.cells := by
  obtain ⟨outcome, cells, r', p, hconsulted, hresolved, hrun⟩ :=
    CompactionPass.run_compact h.coherent h.sound h.bounded s.engine.cells
  have hcompact : Engine.compact.run s.engine =
      Step.ending (.ok p.stats) { s.engine with cells := cells, registry := r' } := by
    show Engine.compact s.engine = _
    unfold Engine.compact
    rw [hrun]
    rfl
  have hcall : Call.compact.perform.run s.engine =
      Step.ending (.ok none) { s.engine with cells := cells, registry := r' } :=
    Engine.run_bind_none hcompact
  have hrewrites := h.rewrites hconsulted (h.attested.of_resolved hresolved) hcall
  exact ⟨hrewrites.regular, hrewrites.table, hrewrites.cells ▸ hresolved⟩

/-- To an active outermost reader that reads committed data only, the marker of a writer in a
row tells what the walk up the writer's chain tells, and it tells so in every row; so a
compaction changes nothing that it reads. -/
theorem resolving_is_invisible {source : σ} {capacity : Nat} {journal : Option Journal}
    (hrun : Run (fun s call => ∀ a ∈ (s.after call).answers, a.BelowLimit)
      (opening source capacity journal) s)
    (hreader : reader ∈ s.handles) (htop : reader.ancestors = [])
    (hisolation : reader.isolation ≠ .readUncommitted) (hactive : s.IsActive reader) :
    (∀ writer, ∃ seen, ∀ c ∈ s.engine.cells.toList, c.timestamp = writer →
      Step.answer (Engine.isVisible c reader) s.engine = .ok seen ∧
        ∃ found, Reading.markers (s.engine.cells.row c.row) = .ok found ∧
          Step.answer (Engine.reading (Reading.isWriterVisible writer (found.get? writer)
            reader.snapshot reader)) s.engine = .ok seen) ∧
      ∀ row, ∃ cells, Step.answer (Engine.readRow reader row) s.engine = .ok cells ∧
        Step.answer (Engine.readRow reader row) (s.after .compact).engine = .ok cells := by
  have hregular := (regular_opening source capacity journal).of_run hrun
  have houter := hregular.outerReader hreader htop hisolation hactive
  constructor
  · intro writer
    refine ⟨Reading.sees s.table reader writer, ?_⟩
    rintro c hc rfl
    rcases hregular.attested.writers hc with ⟨record, hwriter⟩
    refine ⟨?_, ?_⟩
    · exact Engine.answer_reading hregular.coherent
        (Reading.answers_isWriterVisible hregular.sound houter hwriter nofun)
    · rcases Engine.exists_rowMarkers hregular.attested c.row with ⟨found, hfound, hagrees⟩
      exact ⟨found, hfound, Engine.answer_reading hregular.coherent
        (Reading.answers_isWriterVisible hregular.sound houter hwriter fun m hm => hagrees _ m hm)⟩
  · intro row
    rcases hregular.compact with ⟨hregular', htable, hresolved⟩
    refine ⟨_, hregular.answer_readRow houter row, ?_⟩
    rw [hregular'.answer_readRow (htable ▸ houter) row, htable]
    refine congrArg _ (Reading.visibleRow_congr ?_ row)
    intro c
    constructor
    · rintro ⟨hc, hshows⟩
      exact ⟨(hresolved.others (Reading.kind_of_shows hshows).1).1 hc, hshows⟩
    · rintro ⟨hc, hshows⟩
      exact ⟨(hresolved.others (Reading.kind_of_shows hshows).1).2 hc, hshows⟩

/-- A reader begins at one. Under a transaction that begins at two a child begins at three,
writes a row and commits; then its parent commits. -/
def nestedWrite : List Call :=
  [.start .readCommitted none, .start .snapshot none, .start .snapshot (some ⟨⟨2⟩, [], .snapshot⟩),
    .write ⟨⟨3⟩, [⟨2⟩], .snapshot⟩ [7] [([1], [9])], .commit ⟨⟨3⟩, [⟨2⟩], .snapshot⟩,
    .commit ⟨⟨2⟩, [], .snapshot⟩]

/-- A source that counts from one to a number, with nobody else about. -/
def countingTo (n : Nat) : PreparedSource :=
  ⟨(List.range n).map fun k => ⟨[], .ok ⟨UInt64.ofNat (k + 1)⟩⟩, .zero⟩

/-- The marker of the committed child is still unresolved, and resolving it changes nothing. -/
theorem resolving_is_invisible_nestedWrite :
    let s := nestedWrite.foldl after (opening (countingTo 5) 4 none)
    let reader : Handle := ⟨⟨1⟩, [], .readCommitted⟩
    Cell.unresolvedMarker [7] ⟨3⟩ ∈ s.engine.cells.toList ∧
      Cell.unresolvedMarker [7] ⟨3⟩ ∉ (s.after .compact).engine.cells.toList ∧
      ∀ row, ∃ cells, Step.answer (Engine.readRow reader row) s.engine = .ok cells ∧
        Step.answer (Engine.readRow reader row) (s.after .compact).engine = .ok cells := by
  refine ⟨by decide, by decide, ?_⟩
  exact (resolving_is_invisible (.of_admits .nil (by decide)) (by decide) rfl (by decide)
    ⟨_, rfl, rfl⟩).2

end Session

end SnapshotIsolation
