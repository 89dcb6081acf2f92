import SnapshotIsolation.Proofs.Engine.OwnWrites

/-!
# Which versions prevail

Versions and tombstones are in the order in which their writers began. A transaction may see
writers that began after it: children committed into it, and strangers if it does not read from a
snapshot. So what it writes or deletes prevails over what it sees of older writers only, for itself
and, once it is committed, for the snapshots that begin later.

Main results:

- Theorem {lit}`Session.Regular.sees_iff`: whom a transaction sees is what it perceives.
- Theorem {lit}`Session.CommitsBefore.carried`: a snapshot sees who committed before it began.
- Theorem {lit}`Session.writes_prevail_over_older`: over what a transaction's writes and deletes
  prevail.
-/

namespace SnapshotIsolation

open Registry (Table Sound lineage)
open Engine (CommittedAt)
open Reading (perceives visibleRow Stands)

instance (d c : Cell) : Decidable (d.Supersedes c) :=
  inferInstanceAs (Decidable (_ ∧ _))

/-- A reader sees a writer without ancestors that was committed at a time that it sees. -/
theorem Reading.perceives_of_committed {t : Table} {reader : Handle} {cells : List Cell}
    {writer ts : Timestamp} {record : Record} (hfound : t.get? writer = some record)
    (htop : record.ancestors = []) (hcommitted : record.status = .committed)
    (hts : record.commitTs = some ts) (hsees : reader.seesCommit reader.snapshot ts = true)
    (hagrees : ∀ m, markerOf cells writer = some m → m.Agrees (lineage t writer)) :
    perceives t reader cells writer = true := by
  have hlineage : lineage t writer = [record] :=
    (Registry.Lineage.topLevel hfound htop).eq_lineage.symm
  have hstatus : EffectiveStatus.ofRecords (lineage t writer) = .committed ts := by
    rw [hlineage]
    simp [EffectiveStatus.eq_committed_iff, hcommitted, hts]
  have hverdict : reader.verdict reader.snapshot (lineage t writer) = true := by
    rw [hlineage]
    simpa [Handle.verdict, hcommitted, hts] using hsees
  unfold perceives judges
  split
  · rfl
  split
  · simp [hfound, hcommitted, Status.isFailed]
  cases hmarker : markerOf cells writer with
  | none => exact hverdict
  | some m =>
    have hagree := hagrees m hmarker
    cases m with
    | unresolved => exact hverdict
    | committed outermost =>
      have hsame : EffectiveStatus.committed ts = .committed outermost := hstatus.symm.trans hagree
      cases hsame
      exact hsees
    | failed =>
      rcases hagree with ⟨cause, hcause⟩
      rw [hstatus] at hcause
      cases hcause

namespace Session

variable {σ : Type} {s s' : Session σ} {txn reader : Handle} {row : Bytes} {c : Cell}

/-! ## Whom a transaction sees -/

/-- A transaction sees what a writer wrote in a row, by the markers there. -/
def Sees (s : Session σ) (reader : Handle) (row : Bytes) (writer : Timestamp) : Prop :=
  ∃ found, Reading.markers (s.engine.cells.row row) = .ok found ∧
    Step.answer (Engine.reading (Reading.isWriterVisible writer (found.get? writer)
      reader.snapshot reader)) s.engine = .ok true

/-- Nothing that a transaction sees in the row of a cell supersedes the cell. -/
def Unchallenged (s : Session σ) (reader : Handle) (c : Cell) : Prop :=
  ∀ d ∈ s.engine.cells.row c.row, s.Sees reader c.row d.timestamp → ¬ d.Supersedes c

theorem Regular.sees_iff (h : Regular s) {writer : Timestamp} {record : Record}
    (hwriter : s.table.get? writer = some record) :
    s.Sees reader row writer ↔
      perceives s.table reader (s.engine.cells.row row) writer = true := by
  rcases Engine.exists_rowMarkers h.attested row with ⟨found, hfound, _⟩
  have hanswer : Step.answer (Engine.reading (Reading.isWriterVisible writer (found.get? writer)
      reader.snapshot reader)) s.engine =
        .ok (perceives s.table reader (s.engine.cells.row row) writer) := by
    rw [Reading.get?_markers hfound]
    exact Engine.answer_reading h.coherent (Reading.answers_judges h.sound hwriter _)
  constructor
  · rintro ⟨found', hfound', hseen⟩
    obtain rfl := Except.ok.inj (hfound.symm.trans hfound')
    exact Except.ok.inj (hanswer.symm.trans hseen)
  · intro hseen
    exact ⟨found, hfound, by rw [hanswer, hseen]⟩

theorem Regular.unchallenged_iff (h : Regular s) :
    s.Unchallenged reader c ↔
      Stands (perceives s.table reader (s.engine.cells.row c.row)) (s.engine.cells.row c.row) c := by
  refine forall₂_congr fun d hd => ?_
  rcases h.attested.writers (CellStore.mem_row.1 hd).2 with ⟨record, hwriter⟩
  rw [h.sees_iff hwriter]

/-! ## Snapshots that begin later -/

/-- A later reader sees a transaction and finds in a row what there was of it. -/
structure Carried (s : Session σ) (txn : Handle) (row : Bytes) (reader : Handle)
    (s' : Session σ) : Prop where
  regular : Regular s'
  seen : perceives s'.table reader (s'.engine.cells.row row) txn.id = true
  kept {c : Cell} : c.kind ≠ .commitMarker → c.row = row → c.timestamp = txn.id →
    (c ∈ s'.engine.cells.toList ↔ c ∈ s.engine.cells.toList)

/-- Of what the transaction had put into the row, the reader reads what nothing that it sees
supersedes. -/
theorem Carried.mem_visibleRow_iff (h : Carried s txn row reader s') {qualifier value : Bytes}
    (hput : Cell.data row qualifier txn.id value ∈ s.engine.cells.toList) :
    Cell.data row qualifier txn.id value ∈ visibleRow
        (perceives s'.table reader (s'.engine.cells.row row)) (s'.engine.cells.row row) ↔
      s'.Unchallenged reader (Cell.data row qualifier txn.id value) := by
  have hmem := (h.kept (by simp) rfl rfl).2 hput
  rw [Reading.mem_visibleRow_row, h.regular.unchallenged_iff]
  constructor
  · rintro ⟨_, _, _, hstands⟩
    exact hstands
  · intro hstands
    exact ⟨CellStore.mem_row.2 ⟨rfl, hmem⟩, Cell.kind_data .., h.seen, hstands⟩

/-- If the transaction left its tombstone and no data in the row, the reader reads of the row what
is newer. -/
theorem Carried.lt_of_mem_visibleRow (h : Carried s txn row reader s')
    (htombstone : Cell.tombstone row txn.id ∈ s.engine.cells.toList)
    (hgone : ∀ c ∈ s.engine.cells.toList, c.kind = .userData → c.row = row →
      c.timestamp ≠ txn.id)
    (hc : c ∈ visibleRow (perceives s'.table reader (s'.engine.cells.row row))
      (s'.engine.cells.row row)) : txn.id < c.timestamp := by
  have hplaced := (h.kept (by simp) rfl rfl).2 htombstone
  rcases Reading.mem_visibleRow_row.1 hc with ⟨hmem, hkind, _, hstands⟩
  rcases CellStore.mem_row.1 hmem with ⟨hrow, hstored⟩
  refine lt_of_le_of_ne (le_of_not_gt fun hlt => ?_) fun hown => ?_
  · exact hstands _ (CellStore.mem_row.2 ⟨rfl, hplaced⟩) h.seen
      ⟨hlt, .inl (Cell.kind_tombstone ..)⟩
  · have hold := (h.kept (by simp [hkind]) hrow hown.symm).1 hstored
    exact hgone c hold hkind hrow hown.symm

variable [TimestampSource σ]

theorem Rewrites.ordered {call : Call} {cells : CellStore} (h : Rewrites s call cells)
    (hordered : Ordered s.table s.issued) :
    Ordered (s.after call).table (s.after call).issued := by
  rw [h.table, issued, h.answers]
  exact hordered

theorem handles_subset_after (s : Session σ) (call : Call) :
    s.handles ⊆ (s.after call).handles := by
  simp only [Session.after]
  split
  · exact List.subset_cons_self _ _
  · exact List.Subset.refl _

theorem handles_subset_of_run {fits : Session σ → Call → Prop} (hrun : Run fits s s') :
    s.handles ⊆ s'.handles := by
  induction hrun with
  | nil => exact List.Subset.refl _
  | call _ _ _ ih => exact List.Subset.trans ih (handles_subset_after _ _)

/-- A transaction that begins in a sequential run does so after all that was issued before. -/
theorem lt_of_begun (h : Regular s) (hrun : Run (fun s call => Sequential (s.after call)) s s')
    (hreader : reader ∈ s'.handles) (hnew : reader ∉ s.handles) :
    ∀ x ∈ s.issued, x < reader.id := by
  have hkept := hrun.keeps (P := fun s' => (∀ x ∈ s.issued, x ∈ s'.issued) ∧
    ∀ handle ∈ s'.handles, handle ∈ s.handles ∨ ∀ x ∈ s.issued, x < handle.id)
    (fun _ _ hsequential => hsequential.belowLimit) ?_ h ⟨fun _ hx => hx, fun _ hold => .inl hold⟩
  · exact (hkept.2.2 reader hreader).resolve_left hnew
  rintro s' call hregular ⟨hissued, hlater⟩ _ hsequential
  rcases hregular.effect_alone hsequential.1 with ⟨asked, hasked, hdeed⟩
  have hascending := hsequential.2.1
  rw [hasked] at hascending ⊢
  refine ⟨fun x hx => List.mem_append_left _ (hissued x hx), ?_⟩
  intro handle hhandle
  rcases mem_handles_after hhandle with hold | hgiven
  · exact hlater handle hold
  · rw [hgiven] at hdeed
    rcases hdeed.asked_of_begun with ⟨m, hmine⟩
    refine .inr fun x hx => ?_
    exact (List.pairwise_append.1 hascending).2.2 x (hissued x hx) _ (mem_timestamps_of_eq hmine)

/-- A commit that succeeds tells a commit time. -/
theorem exists_committedAt_of_answer (h : Regular s) (hanswer : s.answer (.commit txn) = .ok none) :
    ∃ ts, CommittedAt (s.after (.commit txn)).table txn.id ts := by
  have hrun := Step.run_eq_ending (Engine.commit txn) s.engine
  have hcall : (Call.commit txn).perform.run s.engine = _ := Engine.run_bind_none hrun
  have hafter : (s.after (.commit txn)).engine = Step.after (Engine.commit txn) s.engine :=
    Step.after_of_run hcall
  have htold : (Step.answer (Engine.commit txn) s.engine).map (fun _ => (none : Option Handle)) =
      .ok none := (Step.answer_of_run hcall).symm.trans hanswer
  cases hcommit : Step.answer (Engine.commit txn) s.engine with
  | error cause =>
    rw [hcommit] at htold
    cases htold
  | ok ts =>
    refine ⟨ts, ?_⟩
    rw [Session.table, hafter]
    exact Engine.committedAt_of_answer h.coherent hcommit

/-- From one session to another a top-level transaction leaves a row alone until it commits, and
afterwards a snapshot begins. -/
structure CommitsBefore (s : Session σ) (txn : Handle) (row : Bytes) (reader : Handle)
    (s' : Session σ) : Prop where
  topLevel : txn.ancestors = []
  snapshot : reader.isolation = .snapshot
  path : ∃ before : Session σ,
    Run (fun s call => Sequential (s.after call) ∧ call.touches? ≠ some (txn.id, row)) s before ∧
      before.answer (.commit txn) = .ok none ∧ Sequential (before.after (.commit txn)) ∧
        Run (fun s call => Sequential (s.after call)) (before.after (.commit txn)) s' ∧
          reader ∈ s'.handles ∧ reader ∉ (before.after (.commit txn)).handles

/-- What was committed before a snapshot began is carried to it. -/
theorem CommitsBefore.carried (h : CommitsBefore s txn row reader s') (hregular : Regular s)
    (hordered : Ordered s.table s.issued) (htxn : txn ∈ s.handles) :
    Carried s txn row reader s' := by
  rcases h.path with ⟨before, hbefore, hanswer, hsequential, hafter, hreader, hnew⟩
  rcases hordered.of_run hregular (hbefore.mono fun _ _ hfits => hfits.1) with
    ⟨hregular₁, hordered₁⟩
  have htxn₁ := handles_subset_of_run hbefore htxn
  have hregular₂ : Regular (before.after (.commit txn)) :=
    hregular₁.after (by simpa [Call.handles] using htxn₁) hsequential.belowLimit
  have hordered₂ := hordered₁.after hregular₁ hsequential
  have hbelow := hafter.mono fun _ _ hfits => hfits.belowLimit
  have hregular₃ := hregular₂.of_run hbelow
  rcases exists_committedAt_of_answer hregular₁ hanswer with ⟨ts, record, hfound, hstatus, hts⟩
  have hterminal : record.status.isTerminal = true := by
    rw [hstatus]
    rfl
  refine ⟨hregular₃, ?_, ?_⟩
  · have htop : record.ancestors = [] := by
      rcases hregular₂.recorded txn (handles_subset_after _ _ htxn₁) with ⟨own, hown, hhandle⟩
      obtain rfl := Option.some.inj (hfound.symm.trans hown)
      rw [hhandle, h.topLevel]
    have hextends :=
      (hafter.upholds (Registry.invariant_extends _) ⟨hregular₂.coherent, .refl _⟩).2
    have hlater := lt_of_begun hregular₂ hafter hreader hnew ts
      (hordered₂.commits hfound hstatus hts)
    apply Reading.perceives_of_committed (hextends.terminal hfound hterminal) htop hstatus hts
    · simp [Handle.seesCommit, h.snapshot, Handle.snapshot, le_of_lt hlater]
    · exact fun m hm => Engine.agrees_of_markerOf hregular₃.attested hm
  · rintro c hkind rfl hwriter
    rw [mem_iff_of_settled hregular₂.coherent hkind (by rw [hwriter]; exact hfound) hterminal hbelow,
      (hregular₁.alters (.commit txn)).mem_iff hkind (by simp [Call.touches?])]
    apply mem_iff_of_untouched hregular hkind
    exact hbefore.mono fun _ _ hfits => ⟨hfits.1.belowLimit, by rw [hwriter]; exact hfits.2⟩

/-- What an active transaction writes in a row prevails over what it sees there of older writers:
it reads what it read before, unless it is an older version of one of the columns, and of each
column the last value, unless it sees something newer. After a delete it reads what it read before
of newer writers. Once a top-level transaction has committed, snapshots that begin later read of
each column the value written, unless they see something newer, and nothing older than the delete. -/
theorem writes_prevail_over_older {source : σ} {capacity : Nat} {journal : Option Journal}
    (hrun : Run (fun s call => Sequential (s.after call)) (opening source capacity journal) s)
    (htxn : txn ∈ s.handles) (hactive : s.IsActive txn) (row : Bytes)
    (columns : List (Bytes × Bytes)) :
    let written := s.after (.write txn row columns)
    let deleted := s.after (.delete txn row)
    (s.answer (.write txn row columns) = .ok none ∧
        (∃ before after, Step.answer (Engine.readRow txn row) s.engine = .ok before ∧
          Step.answer (Engine.readRow txn row) written.engine = .ok after ∧
          after.Pairwise (fun a b => compare a.qualifier b.qualifier = .lt) ∧
          ∀ c, c ∈ after ↔
            c ∈ before ∧ (columns.reverse.lookup c.qualifier = none ∨ txn.id < c.timestamp) ∨
              ∃ value, columns.reverse.lookup c.qualifier = some value ∧
                c = Cell.data row c.qualifier txn.id value ∧ s.Unchallenged txn c) ∧
        ∀ reader s', CommitsBefore written txn row reader s' →
          ∃ cells, Step.answer (Engine.readRow reader row) s'.engine = .ok cells ∧
            ∀ qualifier value, columns.reverse.lookup qualifier = some value →
              (Cell.data row qualifier txn.id value ∈ cells ↔
                s'.Unchallenged reader (Cell.data row qualifier txn.id value))) ∧
      s.answer (.delete txn row) = .ok none ∧
        (∃ before after, Step.answer (Engine.readRow txn row) s.engine = .ok before ∧
          Step.answer (Engine.readRow txn row) deleted.engine = .ok after ∧
          after.Pairwise (fun a b => compare a.qualifier b.qualifier = .lt) ∧
          ∀ c, c ∈ after ↔ c ∈ before ∧ txn.id < c.timestamp) ∧
        ∀ reader s', CommitsBefore deleted txn row reader s' →
          ∃ cells, Step.answer (Engine.readRow reader row) s'.engine = .ok cells ∧
            ∀ c ∈ cells, txn.id < c.timestamp := by
  intro written deleted
  rcases sequentially_reached hrun with ⟨hregular, hordered, hplain⟩
  rcases hactive with ⟨record, hfound, hstatus⟩
  rcases hregular.reread_written hplain hfound hstatus row columns with
    ⟨hwrote, before, after, hbefore, hafter, hascending, hmem⟩
  rcases hregular.reread_deleted hplain hfound hstatus row with ⟨hdeletes, hreread⟩
  refine ⟨⟨hwrote, ⟨before, after, hbefore, hafter, hascending, ?_⟩, ?_⟩, hdeletes, hreread, ?_⟩
  · intro c
    rw [hmem]
    refine or_congr_right (exists_congr fun value => and_congr_right fun _ => ?_)
    refine and_congr_right fun hdata => ?_
    have hrow : c.row = row := congrArg Cell.row hdata
    rw [hregular.unchallenged_iff, hrow]
  · intro reader s' hcommits
    rcases hregular.write hfound hstatus row columns with ⟨cancels, _, hrewrites⟩
    have hcarried := hcommits.carried hrewrites.regular (hrewrites.ordered hordered)
      (hrewrites.handles ▸ htxn)
    refine ⟨_, hcarried.regular.answer_readRow_perceives reader row, ?_⟩
    intro qualifier value hlast
    apply hcarried.mem_visibleRow_iff
    rw [hrewrites.cells]
    exact (CellStore.mem_written_of_userData (Cell.kind_data ..)).2 (.inl ⟨⟨rfl, rfl, rfl⟩, hlast⟩)
  · intro reader s' hcommits
    have hrewrites := hregular.delete hfound hstatus row
    have hcarried := hcommits.carried hrewrites.regular (hrewrites.ordered hordered)
      (hrewrites.handles ▸ htxn)
    refine ⟨_, hcarried.regular.answer_readRow_perceives reader row, ?_⟩
    intro c hc
    refine hcarried.lt_of_mem_visibleRow ?_ ?_ hc
    · rw [hrewrites.cells]
      exact (CellStore.mem_deleted_of_tombstone (Cell.kind_tombstone ..)).2 (.inl rfl)
    · rw [hrewrites.cells]
      intro d hd hkind hrow hown
      exact ((CellStore.mem_deleted_of_userData hkind).1 hd).2 ⟨hrow, hown⟩

/-- A transaction begins at one and reads committed data. Another one begins at two, writes two
columns of a row and commits at three. -/
def strangerCommits : List Call :=
  [.start .readCommitted none, .start .snapshot none,
    .write ⟨⟨2⟩, [], .snapshot⟩ [7] [([1], [8]), ([2], [8])], .commit ⟨⟨2⟩, [], .snapshot⟩]

/-- Of the two columns that the older transaction then writes, it reads the one that the younger one
left alone, and so does a snapshot that begins after its commit. -/
theorem writes_prevail_over_older_strangerCommits :
    let s := strangerCommits.foldl after (opening (countingTo 5) 4 none)
    let txn : Handle := ⟨⟨1⟩, [], .readCommitted⟩
    let reader : Handle := ⟨⟨5⟩, [], .snapshot⟩
    let written := s.after (.write txn [7] [([1], [9]), ([3], [9])])
    let later := (written.after (.commit txn)).after (.start .snapshot none)
    (∃ cells, Step.answer (Engine.readRow txn [7]) written.engine = .ok cells ∧
        Cell.data [7] [3] ⟨1⟩ [9] ∈ cells ∧ Cell.data [7] [1] ⟨2⟩ [8] ∈ cells) ∧
      ∃ cells, Step.answer (Engine.readRow reader [7]) later.engine = .ok cells ∧
        Cell.data [7] [3] ⟨1⟩ [9] ∈ cells := by
  intro s txn reader written later
  have hrun : Run (fun s call => Sequential (s.after call)) (opening (countingTo 5) 4 none) s :=
    .of_admits .nil (by decide)
  have hactive : s.IsActive txn := ⟨_, rfl, rfl⟩
  have hread : Step.answer (Engine.readRow txn [7]) s.engine =
      .ok [Cell.data [7] [1] ⟨2⟩ [8], Cell.data [7] [2] ⟨2⟩ [8]] := by
    -- a walk up a chain of writers is only evaluated by the kernel
    decide +kernel
  have hfree : ∀ d ∈ s.engine.cells.row [7], ¬ d.Supersedes (Cell.data [7] [3] ⟨1⟩ [9]) := by
    decide
  have hfreeLater : ∀ d ∈ later.engine.cells.row [7],
      ¬ d.Supersedes (Cell.data [7] [3] ⟨1⟩ [9]) := by
    decide
  have hcommits : CommitsBefore written txn [7] reader later :=
    ⟨rfl, rfl, written, .nil, rfl, by decide, .call .nil nofun (by decide), by decide, by decide⟩
  rcases writes_prevail_over_older hrun (by decide) hactive [7] [([1], [9]), ([3], [9])] with
    ⟨⟨_, ⟨before, after, hbefore, hafter, _, hmem⟩, hlater⟩, _⟩
  obtain rfl := Except.ok.inj (hread.symm.trans hbefore)
  rcases hlater reader later hcommits with ⟨cells, hcells, hiff⟩
  refine ⟨⟨after, hafter, ?_, ?_⟩, cells, hcells, ?_⟩
  · exact (hmem _).2 (.inr ⟨[9], rfl, rfl, fun d hd _ => hfree d hd⟩)
  · exact (hmem _).2 (.inl (by decide))
  · exact (hiff [3] [9] rfl).2 fun d hd _ => hfreeLater d hd

/-- A transaction begins at one and a child of it at two, which writes a column of a row and commits
at three. -/
def childCommits : List Call :=
  [.start .snapshot none, .start .snapshot (some ⟨⟨1⟩, [], .snapshot⟩),
    .write ⟨⟨2⟩, [⟨1⟩], .snapshot⟩ [7] [([1], [8])], .commit ⟨⟨2⟩, [⟨1⟩], .snapshot⟩]

/-- In a sequential run neither the parent's later write nor its later delete prevails over what the
child committed into it, for the parent or for a snapshot that begins after the parent's commit.
Nor do those of a transaction that reads committed data prevail over a younger stranger. -/
theorem younger_versions_prevail :
    (Admits (fun s call => Sequential (s.after call)) (opening (countingTo 5) 4 none)
        (childCommits ++ [.write ⟨⟨1⟩, [], .snapshot⟩ [7] [([1], [9])],
          .delete ⟨⟨1⟩, [], .snapshot⟩ [7], .commit ⟨⟨1⟩, [], .snapshot⟩, .start .snapshot none]) ∧
      let s := childCommits.foldl after (opening (countingTo 5) 4 none)
      let txn : Handle := ⟨⟨1⟩, [], .snapshot⟩
      let reader : Handle := ⟨⟨5⟩, [], .snapshot⟩
      let written := s.after (.write txn [7] [([1], [9])])
      let deleted := written.after (.delete txn [7])
      let later := (deleted.after (.commit txn)).after (.start .snapshot none)
      s.IsActive txn ∧ CommittedAt s.table ⟨2⟩ ⟨3⟩ ∧
        s.answer (.write txn [7] [([1], [9])]) = .ok none ∧
        Step.answer (Engine.readRow txn [7]) written.engine =
          .ok [Cell.data [7] [1] ⟨2⟩ [8]] ∧
        written.answer (.delete txn [7]) = .ok none ∧
        Step.answer (Engine.readRow txn [7]) deleted.engine =
          .ok [Cell.data [7] [1] ⟨2⟩ [8]] ∧
        deleted.answer (.commit txn) = .ok none ∧ reader ∈ later.handles ∧
        Step.answer (Engine.readRow reader [7]) later.engine =
          .ok [Cell.data [7] [1] ⟨2⟩ [8]]) ∧
      Admits (fun s call => Sequential (s.after call)) (opening (countingTo 5) 4 none)
          (strangerCommits ++ [.write ⟨⟨1⟩, [], .readCommitted⟩ [7] [([1], [9])],
            .delete ⟨⟨1⟩, [], .readCommitted⟩ [7]]) ∧
        let s := strangerCommits.foldl after (opening (countingTo 5) 4 none)
        let txn : Handle := ⟨⟨1⟩, [], .readCommitted⟩
        let written := s.after (.write txn [7] [([1], [9])])
        let deleted := written.after (.delete txn [7])
        s.IsActive txn ∧ s.answer (.write txn [7] [([1], [9])]) = .ok none ∧
          Step.answer (Engine.readRow txn [7]) written.engine =
            .ok [Cell.data [7] [1] ⟨2⟩ [8], Cell.data [7] [2] ⟨2⟩ [8]] ∧
          written.answer (.delete txn [7]) = .ok none ∧
          Step.answer (Engine.readRow txn [7]) deleted.engine =
            .ok [Cell.data [7] [1] ⟨2⟩ [8], Cell.data [7] [2] ⟨2⟩ [8]] := by
  -- walks up chains of writers are only evaluated by the kernel
  refine ⟨⟨?_, ⟨_, rfl, rfl⟩, ⟨_, rfl, rfl, rfl⟩, ?_, ?_, ?_, ?_, ?_, ?_, ?_⟩, ?_, ⟨_, rfl, rfl⟩, ?_,
    ?_, ?_, ?_⟩
  all_goals decide +kernel

end Session

end SnapshotIsolation
