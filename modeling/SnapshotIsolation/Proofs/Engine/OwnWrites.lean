import SnapshotIsolation.Proofs.Engine.Stability
import SnapshotIsolation.Proofs.Engine.Writes

/-!
# Reading one's own writes

A transaction always sees itself, and its writes and deletes change nothing about whom else it
sees. So what it reads of a row afterwards is told by what it read before, as long as nothing that
it sees was written by a transaction that began later. For a snapshot into which no child was
committed nothing was: it sees its ancestors, and whoever was committed before it began.

Main results:

- Theorem {lit}`Session.Regular.le_of_perceives`: whom a snapshot sees.
- Theorems {lit}`Session.Regular.reread_written` and {lit}`Session.Regular.reread_deleted`: what any
  active transaction reads of a row after it wrote or deleted it.
- Theorem {lit}`Session.snapshot_reads_own_writes`: what a snapshot reads after its own writes and
  deletes.
-/

namespace SnapshotIsolation

open Registry (Table Sound lineage)
open CellStore (Confined)

namespace Reading

variable {t : Table} {reader : Handle} {cells : List Cell}

/-- A transaction sees itself. -/
theorem perceives_self (t : Table) (reader : Handle) (cells : List Cell) :
    perceives t reader cells reader.id = true :=
  if_pos rfl

/-- What a transaction itself writes changes nothing about whom it sees. -/
theorem perceives_of_confined {s s' : CellStore} {row : Bytes}
    (h : Confined row reader.id s s') (t : Table) (other : Bytes) :
    perceives t reader (s'.row other) = perceives t reader (s.row other) := by
  funext writer
  by_cases hown : writer = reader.id
  · subst hown
    rw [perceives_self, perceives_self]
  · have hmarkers : markerOf (s'.row other) writer = markerOf (s.row other) writer := by
      unfold markerOf
      congr 2
      apply CellStore.filter_row_congr
      intro c
      simp only [decide_eq_true_eq]
      refine and_congr_left ?_
      rintro ⟨_, rfl⟩
      exact h c (.inr hown)
    rw [perceives, perceives, hmarkers]

end Reading

open Reading (perceives visibleRow Stands)

/-- Where all data is in the data family, a visible row is in the order of qualifiers. -/
theorem CellStore.Plain.visibleRow_ascending {s : CellStore} (h : s.Plain)
    (seen : Timestamp → Bool) (row : Bytes) :
    (visibleRow seen (s.row row)).Pairwise fun a b => compare a.qualifier b.qualifier = .lt := by
  have hfamily : ∀ c ∈ visibleRow seen (s.row row), c.family = Cell.dataFamily := by
    intro c hc
    rcases Reading.mem_visibleRow_row.1 hc with ⟨hmem, hkind, _⟩
    exact h c (CellStore.mem_row.1 hmem).2 hkind
  refine (Reading.visibleRow_ascending seen (s.row row)).imp_of_mem ?_
  intro a b ha hb hlt
  have hthen : (compare a.family b.family).then (compare a.qualifier b.qualifier) = .lt := hlt
  have hself : compare Cell.dataFamily Cell.dataFamily = .eq := Std.ReflCmp.compare_self
  rwa [hfamily a ha, hfamily b hb, hself, Ordering.eq_then] at hthen

namespace Session

variable {σ : Type} {s : Session σ} {txn : Handle} {record : Record} {row : Bytes}

/-! ## Whom a snapshot sees -/

/-- Whoever is seen by a snapshot into which no child was committed began no later than it. -/
theorem Regular.le_of_perceives (h : Regular s) (hordered : Ordered s.table s.issued)
    (htxn : txn ∈ s.handles) (hsnapshot : txn.isolation = .snapshot)
    (hchildren : ∀ id child, s.table.get? id = some child → child.parent? = some txn.id →
      child.status ≠ .committed) {row : Bytes} {writer : Timestamp}
    (hwriter : s.table.get? writer = some record)
    (hseen : perceives s.table txn (s.engine.cells.row row) writer = true) : writer ≤ txn.id := by
  rcases h.sound.exists_lineage hwriter with ⟨records, hlineage⟩
  have hbefore : ∀ ts, record.status = .committed → record.commitTs = some ts → ts ≤ txn.id →
      writer ≤ txn.id := by
    intro ts hcommitted hts hle
    rcases h.sound.committed hwriter hcommitted with ⟨ts', hts', hlt⟩
    obtain rfl := Option.some.inj (hts.symm.trans hts')
    exact le_trans (le_of_lt hlt) hle
  have hverdict : txn.verdict txn.snapshot (lineage s.table writer) = true → writer ≤ txn.id := by
    intro hverdict
    rw [← hlineage.eq_lineage] at hverdict
    have hcommitted := (Handle.committed_of_verdict (by simp [hsnapshot]) hverdict).1
    rcases Handle.inFamily_or_committed h.sound hordered hsnapshot hlineage hverdict with
      ⟨_, child, hchild, hparent, hdone⟩ | ⟨ts, hts, hle⟩
    · exact absurd hdone (hchildren _ child hchild hparent)
    · exact hbefore ts hcommitted hts hle
  unfold perceives Reading.judges at hseen
  split at hseen
  · rename_i hown
    exact le_of_eq hown
  split at hseen
  · rename_i hancestor
    rcases h.recorded txn htxn with ⟨own, hown, hhandle⟩
    rw [Handle.isAncestor, List.contains_iff_mem, ← hhandle] at hancestor
    exact le_of_lt (h.sound.lt_of_mem_ancestors hown hancestor)
  cases hmarker : Reading.markerOf (s.engine.cells.row row) writer with
  | none =>
    rw [hmarker] at hseen
    exact hverdict hseen
  | some m =>
    have hagrees := Engine.agrees_of_markerOf h.attested hmarker
    rw [hmarker] at hseen
    cases m with
    | unresolved => exact hverdict hseen
    | failed => cases hseen
    | committed outermost =>
      -- the writer was committed no later than the outermost of its ancestors
      have hall : EffectiveStatus.ofRecords (record :: records) = .committed outermost := by
        rw [hlineage.eq_lineage]
        exact hagrees
      have hcommitted := (EffectiveStatus.eq_committed_iff.1 hall).1 record List.mem_cons_self
      rcases h.sound.committed hwriter hcommitted with ⟨ts, hts, _⟩
      have hle := hordered.le_outermost hlineage hts hall h.sound
      simp only [Handle.seesCommit, hsnapshot, Handle.snapshot] at hseen
      exact hbefore ts hcommitted hts (le_trans hle (of_decide_eq_true hseen))

/-- Nothing that a transaction sees in a row was written by one that began later. -/
def Leads (s : Session σ) (txn : Handle) (row : Bytes) : Prop :=
  ∀ c ∈ s.engine.cells.row row,
    perceives s.table txn (s.engine.cells.row row) c.timestamp = true → c.timestamp ≤ txn.id

/-- A snapshot into which no child was committed leads in every row. -/
theorem Regular.leads (h : Regular s) (hordered : Ordered s.table s.issued)
    (htxn : txn ∈ s.handles) (hsnapshot : txn.isolation = .snapshot)
    (hchildren : ∀ id child, s.table.get? id = some child → child.parent? = some txn.id →
      child.status ≠ .committed) (row : Bytes) : s.Leads txn row := by
  intro c hc hseen
  rcases h.attested.writers (CellStore.mem_row.1 hc).2 with ⟨writer, hwriter⟩
  exact h.le_of_perceives hordered htxn hsnapshot hchildren hwriter hseen

theorem Leads.not_lt_of_mem (h : s.Leads txn row) {c : Cell}
    (hc : c ∈ visibleRow (perceives s.table txn (s.engine.cells.row row)) (s.engine.cells.row row)) :
    ¬ txn.id < c.timestamp := by
  rcases Reading.mem_visibleRow_row.1 hc with ⟨hmem, _, hseen, _⟩
  exact not_lt_of_ge (h c hmem hseen)

theorem Leads.stands (h : s.Leads txn row) (qualifier value : Bytes) :
    Stands (perceives s.table txn (s.engine.cells.row row)) (s.engine.cells.row row)
      (Cell.data row qualifier txn.id value) :=
  fun d hd hseen hsupersedes => not_lt_of_ge (h d hd hseen) hsupersedes.1

/-! ## Any active transaction -/

/-- What any transaction reads of a row. -/
theorem Regular.answer_readRow_perceives (h : Regular s) (reader : Handle) (row : Bytes) :
    Step.answer (Engine.readRow reader row) s.engine =
      .ok (visibleRow (perceives s.table reader (s.engine.cells.row row)) (s.engine.cells.row row)) :=
  Engine.answer_readRow_perceives h.coherent h.sound h.attested reader row

variable [TimestampSource σ]

/-- Sessions that are reached in sequential runs are regular and in order, and their data is in the
data family. -/
theorem sequentially_reached {source : σ} {capacity : Nat} {journal : Option Journal}
    (hrun : Run (fun s call => Sequential (s.after call)) (opening source capacity journal) s) :
    Regular s ∧ Ordered s.table s.issued ∧ s.engine.cells.Plain := by
  have hopening : Ordered (opening source capacity journal).table
      (opening source capacity journal).issued := ⟨nofun, nofun, nofun⟩
  have hfirst := regular_opening source capacity journal
  rcases hopening.of_run hfirst hrun with ⟨hregular, hordered⟩
  refine ⟨hregular, hordered, hfirst.plain_of_run CellStore.plain_empty ?_⟩
  exact hrun.mono fun _ _ hsequential => hsequential.belowLimit

/-- What a transaction reads after a call that changed only what it wrote in a row. -/
theorem Rewrites.answer_readRow {call : Call} {cells : CellStore} (h : Rewrites s call cells)
    {row : Bytes} (hconfined : Confined row txn.id s.engine.cells cells) (other : Bytes) :
    Step.answer (Engine.readRow txn other) (s.after call).engine =
      .ok (visibleRow (perceives s.table txn (s.engine.cells.row other)) (cells.row other)) := by
  rw [h.regular.answer_readRow_perceives, h.cells, h.table,
    Reading.perceives_of_confined hconfined]

/-- An active transaction that writes columns of a row reads what it read before, unless it is an
older version of one of the columns, and of each column the last value, unless something that it
sees supersedes it. -/
theorem Regular.reread_written (h : Regular s) (hplain : s.engine.cells.Plain)
    (hfound : s.table.get? txn.id = some record) (hactive : record.status = .active) (row : Bytes)
    (columns : List (Bytes × Bytes)) :
    s.answer (.write txn row columns) = .ok none ∧ ∃ before after,
      Step.answer (Engine.readRow txn row) s.engine = .ok before ∧
      Step.answer (Engine.readRow txn row) (s.after (.write txn row columns)).engine = .ok after ∧
      after.Pairwise (fun a b => compare a.qualifier b.qualifier = .lt) ∧
      ∀ c, c ∈ after ↔
        c ∈ before ∧ (columns.reverse.lookup c.qualifier = none ∨ txn.id < c.timestamp) ∨
          ∃ value, columns.reverse.lookup c.qualifier = some value ∧
            c = Cell.data row c.qualifier txn.id value ∧
              Stands (perceives s.table txn (s.engine.cells.row row)) (s.engine.cells.row row) c := by
  rcases h.write hfound hactive row columns with ⟨cancels, hcancels, hrewrites⟩
  have hconfined := CellStore.confined_written s.engine.cells row txn.id cancels columns
  refine ⟨hrewrites.answer, _, _, h.answer_readRow_perceives txn row,
    hrewrites.answer_readRow hconfined row, ?_, ?_⟩
  · exact (hplain.written row txn.id cancels columns).visibleRow_ascending _ row
  · intro c
    exact CellStore.mem_visibleRow_written hplain (Reading.perceives_self ..) hcancels

/-- An active transaction that deletes a row reads the versions that it read before and whose
writers began after it. -/
theorem Regular.reread_deleted (h : Regular s) (hplain : s.engine.cells.Plain)
    (hfound : s.table.get? txn.id = some record) (hactive : record.status = .active) (row : Bytes) :
    s.answer (.delete txn row) = .ok none ∧ ∃ before after,
      Step.answer (Engine.readRow txn row) s.engine = .ok before ∧
      Step.answer (Engine.readRow txn row) (s.after (.delete txn row)).engine = .ok after ∧
      after.Pairwise (fun a b => compare a.qualifier b.qualifier = .lt) ∧
      ∀ c, c ∈ after ↔ c ∈ before ∧ txn.id < c.timestamp := by
  have hrewrites := h.delete hfound hactive row
  have hconfined := CellStore.confined_deleted s.engine.cells row txn.id
  refine ⟨hrewrites.answer, _, _, h.answer_readRow_perceives txn row,
    hrewrites.answer_readRow hconfined row, ?_, ?_⟩
  · exact (hplain.deleted row txn.id).visibleRow_ascending _ row
  · intro c
    exact CellStore.mem_visibleRow_deleted (Reading.perceives_self ..)

/-- A call that changed only what a transaction wrote in a row changes nothing that the transaction
reads of other rows. -/
theorem Rewrites.reread_other {call : Call} {cells : CellStore} (hregular : Regular s)
    (h : Rewrites s call cells) {row : Bytes}
    (hconfined : Confined row txn.id s.engine.cells cells) {other : Bytes} (hother : other ≠ row) :
    Step.answer (Engine.readRow txn other) (s.after call).engine =
      Step.answer (Engine.readRow txn other) s.engine := by
  rw [h.answer_readRow hconfined, hregular.answer_readRow_perceives, hconfined.row_eq hother]

/-! ## Snapshots -/

/-- A snapshot into which no child was committed reads its own writes and deletes. After a write it
reads the last value of each column that it wrote and of the others what it read before, in the
order of qualifiers, and after a delete nothing. Neither changes what it reads of other rows. -/
theorem snapshot_reads_own_writes {source : σ} {capacity : Nat} {journal : Option Journal}
    (hrun : Run (fun s call => Sequential (s.after call)) (opening source capacity journal) s)
    (htxn : txn ∈ s.handles) (hsnapshot : txn.isolation = .snapshot) (hactive : s.IsActive txn)
    (hchildren : ∀ id child, s.table.get? id = some child → child.parent? = some txn.id →
      child.status ≠ .committed) (row : Bytes) (columns : List (Bytes × Bytes)) :
    let written := s.after (.write txn row columns)
    let deleted := s.after (.delete txn row)
    (s.answer (.write txn row columns) = .ok none ∧ ∃ before after,
        Step.answer (Engine.readRow txn row) s.engine = .ok before ∧
        Step.answer (Engine.readRow txn row) written.engine = .ok after ∧
        after.Pairwise (fun a b => compare a.qualifier b.qualifier = .lt) ∧
        ∀ c, c ∈ after ↔ c ∈ before ∧ columns.reverse.lookup c.qualifier = none ∨
          ∃ value, columns.reverse.lookup c.qualifier = some value ∧
            c = Cell.data row c.qualifier txn.id value) ∧
      (s.answer (.delete txn row) = .ok none ∧
        Step.answer (Engine.readRow txn row) deleted.engine = .ok []) ∧
      ∀ other, other ≠ row → ∃ cells,
        Step.answer (Engine.readRow txn other) s.engine = .ok cells ∧
        Step.answer (Engine.readRow txn other) written.engine = .ok cells ∧
        Step.answer (Engine.readRow txn other) deleted.engine = .ok cells := by
  intro written deleted
  rcases sequentially_reached hrun with ⟨hregular, hordered, hplain⟩
  rcases hactive with ⟨record, hfound, hstatus⟩
  have hleads := hregular.leads hordered htxn hsnapshot hchildren row
  have hread := hregular.answer_readRow_perceives txn row
  refine ⟨?_, ?_, ?_⟩
  · rcases hregular.reread_written hplain hfound hstatus row columns with
      ⟨hanswer, before, after, hbefore, hafter, hascending, hmem⟩
    refine ⟨hanswer, before, after, hbefore, hafter, hascending, ?_⟩
    obtain rfl := Except.ok.inj (hread.symm.trans hbefore)
    intro c
    rw [hmem]
    refine or_congr ?_ (exists_congr fun value => and_congr_right fun _ => ?_)
    · exact and_congr_right fun hc => or_iff_left (hleads.not_lt_of_mem hc)
    · exact and_iff_left_of_imp fun hdata => hdata ▸ hleads.stands c.qualifier value
  · rcases hregular.reread_deleted hplain hfound hstatus row with
      ⟨hanswer, before, after, hbefore, hafter, _, hmem⟩
    obtain rfl := Except.ok.inj (hread.symm.trans hbefore)
    have hempty : after = [] := by
      rw [List.eq_nil_iff_forall_not_mem]
      intro c hc
      rcases (hmem c).1 hc with ⟨hc, hlt⟩
      exact hleads.not_lt_of_mem hc hlt
    exact ⟨hanswer, hempty ▸ hafter⟩
  · intro other hother
    rcases hregular.write hfound hstatus row columns with ⟨cancels, _, hwrites⟩
    have hdeletes := hregular.delete hfound hstatus row
    refine ⟨_, hregular.answer_readRow_perceives txn other, ?_, ?_⟩
    · rw [hwrites.reread_other hregular (CellStore.confined_written _ _ _ _ _) hother]
      exact hregular.answer_readRow_perceives txn other
    · rw [hdeletes.reread_other hregular (CellStore.confined_deleted _ _ _) hother]
      exact hregular.answer_readRow_perceives txn other

/-- A writer begins at one and commits two columns of a row at two. Then a transaction begins at
three and a child of it at four. -/
def childAfterCommit : List Call :=
  [.start .snapshot none, .write ⟨⟨1⟩, [], .snapshot⟩ [7] [([1], [8]), ([2], [9])],
    .commit ⟨⟨1⟩, [], .snapshot⟩, .start .snapshot none,
    .start .snapshot (some ⟨⟨3⟩, [], .snapshot⟩)]

/-- The child writes one of the columns twice and reads the later value beside the other column, and
it reads nothing of the row once it has deleted it. -/
theorem snapshot_reads_own_writes_childAfterCommit :
    let s := childAfterCommit.foldl after (opening (countingTo 4) 4 none)
    let child : Handle := ⟨⟨4⟩, [⟨3⟩], .snapshot⟩
    (∃ cells, Step.answer (Engine.readRow child [7])
        (s.after (.write child [7] [([1], [5]), ([1], [6])])).engine = .ok cells ∧
      Cell.data [7] [1] ⟨4⟩ [6] ∈ cells ∧ Cell.data [7] [2] ⟨1⟩ [9] ∈ cells ∧
        Cell.data [7] [1] ⟨1⟩ [8] ∉ cells) ∧
      Step.answer (Engine.readRow child [7]) (s.after (.delete child [7])).engine = .ok [] := by
  intro s child
  have hchildren : ∀ id record, s.table.get? id = some record → record.parent? = some child.id →
      record.status ≠ .committed := by
    have hall : ∀ e ∈ s.table.entries, e.2.parent? = some child.id → e.2.status ≠ .committed := by
      decide
    exact fun id record hfound => hall _ (SortedMap.get?_eq_some_iff.1 hfound)
  have hread : Step.answer (Engine.readRow child [7]) s.engine =
      .ok [Cell.data [7] [1] ⟨1⟩ [8], Cell.data [7] [2] ⟨1⟩ [9]] := by
    -- a walk up a chain of writers is only evaluated by the kernel
    decide +kernel
  rcases snapshot_reads_own_writes (.of_admits .nil (by decide)) (by decide) rfl ⟨_, rfl, rfl⟩
    hchildren [7] [([1], [5]), ([1], [6])] with
    ⟨⟨_, before, after, hbefore, hafter, _, hmem⟩, ⟨_, hdeleted⟩, _⟩
  obtain rfl := Except.ok.inj (hread.symm.trans hbefore)
  exact ⟨⟨after, hafter, (hmem _).2 (by decide), (hmem _).2 (by decide),
    fun hold => absurd ((hmem _).1 hold) (by decide)⟩, hdeleted⟩

end Session

end SnapshotIsolation
