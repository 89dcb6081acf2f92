import SnapshotIsolation.Proofs.Engine.Transparency

/-!
# Snapshots are stable

In a run where nobody else acts while a call waits and timestamps come in ascending order, an
active outermost snapshot reader reads the same of every row at any two points between which
its own family did nothing.

Two facts about the order of events carry the argument: every id and every commit time was
issued by the source, and a transaction that is committed under a committed parent was
committed before it.  So a writer that a snapshot sees from outside was committed, with all its
ancestors, before the snapshot was issued.

Main results:

- Theorem {lit}`Session.Ordered.of_run`: ids, commit times and families are in order.
- Theorem {lit}`Session.snapshot_reads_are_stable`: two reads of one row are equal.
-/

namespace SnapshotIsolation

open Registry (Table Coherent Extends Sound Interfered lineage Lineage)

/-! ## The order of events -/

namespace Session

/-- Ids and commit times were issued, and who is committed under a committed parent was so
before it. -/
structure Ordered (t : Table) (issued : List Timestamp) : Prop where
  ids {id : Timestamp} {record : Record} : t.get? id = some record → id ∈ issued
  commits {id ts : Timestamp} {record : Record} : t.get? id = some record →
    record.status = .committed → record.commitTs = some ts → ts ∈ issued
  inward {id parent ts tsAbove : Timestamp} {record above : Record} {rest : List Timestamp} :
    t.get? id = some record → record.ancestors = parent :: rest → t.get? parent = some above →
      record.status = .committed → above.status = .committed → record.commitTs = some ts →
        above.commitTs = some tsAbove → ts < tsAbove

theorem Ordered.mono {t : Table} {issued issued' : List Timestamp} (h : Ordered t issued)
    (hissued : ∀ ts ∈ issued, ts ∈ issued') : Ordered t issued' :=
  ⟨fun hfound => hissued _ (h.ids hfound),
    fun hfound hstatus hts => hissued _ (h.commits hfound hstatus hts), h.inward⟩

/-- A record that is not committed keeps the order under a new id or a known one. -/
theorem Ordered.insert_open {t : Table} {issued issued' : List Timestamp} {id : Timestamp}
    {new : Record} (h : Ordered t issued) (hissued : ∀ ts ∈ issued, ts ∈ issued')
    (hid : id ∈ issued') (hnew : new.status ≠ .committed) : Ordered (t.insert id new) issued' := by
  have hcases : ∀ {k record}, (t.insert id new).get? k = some record →
      record.status = .committed → t.get? k = some record := by
    intro k record hfound hcommitted
    rcases SortedMap.eq_or_get?_of_insert hfound with ⟨rfl, rfl⟩ | hfound
    · exact absurd hcommitted hnew
    · exact hfound
  constructor
  · intro k record hfound
    rcases SortedMap.eq_or_get?_of_insert hfound with ⟨rfl, _⟩ | hfound
    · exact hid
    · exact hissued _ (h.ids hfound)
  · intro k ts record hfound hcommitted hts
    exact hissued _ (h.commits (hcases hfound hcommitted) hcommitted hts)
  · intro k parent ts tsAbove record above rest hfound hancestors habove hcommitted hcommitted'
    exact h.inward (hcases hfound hcommitted) hancestors (hcases habove hcommitted') hcommitted
      hcommitted'

/-- A commit at a time after everything issued before keeps the order, if the parent is not
committed yet. -/
theorem Ordered.insert_committed {t : Table} {issued issued' : List Timestamp} {id ts : Timestamp}
    {new : Record} (h : Ordered t issued) (hissued : ∀ x ∈ issued, x ∈ issued')
    (hid : id ∈ issued') (hnew : new.commitTs = some ts) (hts : ts ∈ issued')
    (hlatest : ∀ x ∈ issued, x < ts)
    (hparent : ∀ parent rest above, new.ancestors = parent :: rest → parent ≠ id ∧
      (t.get? parent = some above → above.status ≠ .committed)) :
    Ordered (t.insert id new) issued' := by
  constructor
  · intro k record hfound
    rcases SortedMap.eq_or_get?_of_insert hfound with ⟨rfl, _⟩ | hfound
    · exact hid
    · exact hissued _ (h.ids hfound)
  · intro k x record hfound hcommitted hx
    rcases SortedMap.eq_or_get?_of_insert hfound with ⟨_, rfl⟩ | hfound
    · rw [hnew, Option.some.injEq] at hx
      exact hx ▸ hts
    · exact hissued _ (h.commits hfound hcommitted hx)
  · intro k parent x y record above rest hfound hancestors habove hcommitted hcommitted' hx hy
    rcases SortedMap.eq_or_get?_of_insert hfound with ⟨rfl, rfl⟩ | hfound₀
    · rcases hparent parent rest above hancestors with ⟨hne, hopen⟩
      rcases SortedMap.eq_or_get?_of_insert habove with ⟨hk, _⟩ | habove₀
      · exact absurd hk hne
      · exact absurd hcommitted' (hopen habove₀)
    · rcases SortedMap.eq_or_get?_of_insert habove with ⟨_, rfl⟩ | habove₀
      · rw [hnew, Option.some.injEq] at hy
        exact hy ▸ hlatest x (h.commits hfound₀ hcommitted hx)
      · exact h.inward hfound₀ hancestors habove₀ hcommitted hcommitted' hx hy

/-- Who is committed together with all ancestors was so no later than the outermost of them. -/
theorem Ordered.le_outermost {t : Table} {issued : List Timestamp} (h : Ordered t issued)
    {id ts outermost : Timestamp} {record : Record} {records : List Record}
    (hlineage : Lineage t id (record :: records)) (hts : record.commitTs = some ts)
    (hcommitted : EffectiveStatus.ofRecords (record :: records) = .committed outermost)
    (hsound : Sound t) : ts ≤ outermost := by
  rcases EffectiveStatus.eq_committed_iff.1 hcommitted with ⟨hall, hlast⟩
  clear hcommitted
  generalize hmembers : record :: records = members at hlineage
  induction hlineage generalizing record records ts with
  | topLevel _ _ =>
    cases hmembers
    rw [List.getLast?_singleton, Option.bind_some, hts, Option.some.injEq] at hlast
    exact le_of_eq hlast
  | @nested id parent first above rest hfound hancestors _ hrest ih =>
    cases hmembers
    have habove := hall above (List.mem_cons_of_mem _ List.mem_cons_self)
    rcases hsound.committed hrest.get? habove with ⟨tsAbove, htsAbove, _⟩
    have hlt := h.inward hfound hancestors hrest.get? (hall _ List.mem_cons_self) habove hts htsAbove
    have hle := ih htsAbove (fun r hr => hall r (List.mem_cons_of_mem _ hr)) (by simpa using hlast)
      rfl
    exact le_trans (le_of_lt hlt) hle

variable {σ : Type}

/-- The timestamps among some answers, in order. -/
def timestamps (answers : List Answer) : List Timestamp :=
  answers.filterMap (·.result.toOption)

theorem mem_timestamps_of_eq {asked : List Answer} {m : Meanwhile} {ts : Timestamp}
    (h : asked = [⟨m, .ok ts⟩]) : ts ∈ timestamps asked := by
  subst h
  exact List.mem_singleton.2 rfl

/-- The timestamps that the source of a session has issued, in order. -/
def issued (s : Session σ) : List Timestamp := timestamps s.answers

/-- Nobody else acted while a call waited, and the timestamps issued ascend strictly and stay
below the limit. -/
def Sequential (s : Session σ) : Prop :=
  (∀ a ∈ s.answers, a.meanwhile = []) ∧ s.issued.Pairwise (· < ·) ∧
    ∀ ts ∈ s.issued, ts < Timestamp.limit

instance : DecidablePred (Sequential (σ := σ)) := fun s =>
  inferInstanceAs (Decidable ((∀ a ∈ s.answers, a.meanwhile = []) ∧ s.issued.Pairwise (· < ·) ∧
    ∀ ts ∈ s.issued, ts < Timestamp.limit))

theorem Sequential.belowLimit {s : Session σ} (h : Sequential s) :
    ∀ a ∈ s.answers, a.BelowLimit := by
  intro a ha
  refine ⟨?_, ?_⟩
  · intro ts hts
    exact h.2.2 ts (List.mem_filterMap.2 ⟨a, ha, hts⟩)
  · rw [h.1 a ha]
    nofun

/-- Since an earlier session only others committed, later than anything issued before, and
neither the reader nor a transaction that was settled by then has other cells. -/
structure Since (reader : Handle) (s₁ s : Session σ) : Prop where
  extended : Extends s₁.table s.table
  issued : ∀ ts ∈ s₁.issued, ts ∈ s.issued
  committed {id : Timestamp} {record : Record} : s.table.get? id = some record →
    record.status = .committed → s₁.table.get? id = some record ∨
      record.isInFamily reader.id = false ∧
        ∃ ts, record.commitTs = some ts ∧ ∀ x ∈ s₁.issued, x < ts
  frozen {c : Cell} : c.kind ≠ .commitMarker →
    (c.timestamp = reader.id ∨ ∃ record, s₁.table.get? c.timestamp = some record ∧
      record.status.isTerminal = true) →
    (c ∈ s.engine.cells.toList ↔ c ∈ s₁.engine.cells.toList)

theorem Since.refl (reader : Handle) (s : Session σ) : Since reader s s :=
  ⟨.refl _, fun _ h => h, fun hfound _ => .inl hfound, fun _ _ => Iff.rfl⟩

/-- Committed records after a record was put under an id: the old ones, or the new one. -/
theorem Since.committed_insert {reader : Handle} {s₁ s : Session σ} (h : Since reader s₁ s)
    {id : Timestamp} {new : Record}
    (hnew : new.status = .committed → new.isInFamily reader.id = false ∧
      ∃ ts, new.commitTs = some ts ∧ ∀ x ∈ s₁.issued, x < ts)
    {k : Timestamp} {record : Record} (hfound : (s.table.insert id new).get? k = some record)
    (hcommitted : record.status = .committed) :
    s₁.table.get? k = some record ∨ record.isInFamily reader.id = false ∧
      ∃ ts, record.commitTs = some ts ∧ ∀ x ∈ s₁.issued, x < ts := by
  rcases SortedMap.eq_or_get?_of_insert hfound with ⟨_, rfl⟩ | hfound
  · exact .inr (hnew hcommitted)
  · exact h.committed hfound hcommitted

variable [TimestampSource σ]

/-- In a sequential run a call acts on the records as it found them. -/
theorem Regular.effect_alone {s : Session σ} (h : Regular s) {call : Call}
    (halone : ∀ a ∈ (s.after call).answers, a.meanwhile = []) :
    ∃ asked, (s.after call).issued = s.issued ++ timestamps asked ∧
      Deed s.table asked s.table s.engine.cells call (s.answer call) (s.after call).table
        (s.after call).engine.cells := by
  rcases h.effect call with ⟨_, asked, t, hanswers, hinterfered, hdeed⟩
  have hnobody : asked.flatMap (·.meanwhile) = [] := by
    rw [List.flatMap_eq_nil_iff]
    intro a ha
    apply halone
    rw [answers, hanswers]
    exact List.mem_append_right _ ha
  rw [hnobody] at hinterfered
  rw [hinterfered.eq_of_nil] at hdeed
  refine ⟨asked, ?_, hdeed⟩
  rw [issued, issued, answers, hanswers, timestamps, timestamps, timestamps, List.filterMap_append]

/-- A call in a sequential run keeps the order. -/
theorem Ordered.after {s : Session σ} (h : Ordered s.table s.issued) (hregular : Regular s)
    {call : Call} (hsequential : Sequential (s.after call)) :
    Ordered (s.after call).table (s.after call).issued := by
  rcases hregular.effect_alone hsequential.1 with ⟨asked, hissued, hdeed⟩
  have hold : ∀ ts ∈ s.issued, ts ∈ (s.after call).issued := by
    intro ts hts
    rw [hissued]
    exact List.mem_append_left _ hts
  have hascending := hsequential.2.1
  rw [hissued] at hascending
  generalize (s.after call).table = t', (s.after call).engine.cells = cells',
    s.answer call = result at hdeed ⊢
  cases hdeed with
  | looked _ => exact h.mono hold
  | began hasked hbegins =>
    refine h.insert_open hold ?_ (by simp [hbegins.status])
    rw [hissued]
    exact List.mem_append_right _ (mem_timestamps_of_eq hasked)
  | @committed _ ts txn old new hasked hfound hcloses hparent =>
    have hancestors : new.ancestors = old.ancestors := by rw [hcloses.handle]
    refine h.insert_committed hold (hold _ (h.ids hfound)) hcloses.commitTs ?_ ?_ ?_
    · rw [hissued]
      exact List.mem_append_right _ (mem_timestamps_of_eq hasked)
    · intro x hx
      exact (List.pairwise_append.1 hascending).2.2 x hx _ (mem_timestamps_of_eq hasked)
    · intro parent rest above heq
      rw [hancestors] at heq
      refine ⟨ne_of_lt (hregular.sound.linked hfound heq).1, ?_⟩
      intro habove hcommitted
      rcases hparent parent rest heq with ⟨above', habove', hactive⟩
      rw [habove, Option.some.injEq] at habove'
      subst habove'
      rw [hactive] at hcommitted
      cases hcommitted
  | failed hfound hcloses =>
    exact h.insert_open hold (hold _ (h.ids hfound)) (by simp [hcloses.status, Outcome.status])
  | rolledBack hfound hcloses =>
    exact h.insert_open hold (hold _ (h.ids hfound)) (by simp [hcloses.status, Outcome.status])
  | wrote _ _ _ _ => exact h.mono hold
  | resolved _ => exact h.mono hold

/-- Sequential runs keep sessions regular and in order. -/
theorem Ordered.of_run {s s' : Session σ} (h : Ordered s.table s.issued) (hregular : Regular s)
    (hrun : Run (fun s call => Sequential (s.after call)) s s') :
    Regular s' ∧ Ordered s'.table s'.issued :=
  hrun.keeps (P := fun s => Ordered s.table s.issued)
    (fun _ _ hsequential => hsequential.belowLimit)
    (fun _ _ hregular hordered _ hsequential => hordered.after hregular hsequential) hregular h

/-! ## What a quiet family leaves alone -/

/-- The reader and the transactions nested under it are refused what they want to write, delete
or settle. -/
def Quiet (reader : Handle) (s : Session σ) (call : Call) : Prop :=
  ∀ txn ∈ call.actor?, txn.isInFamily reader.id = true → (s.answer call).isOk = false

instance (reader : Handle) (s : Session σ) (call : Call) : Decidable (Quiet reader s call) :=
  inferInstanceAs (Decidable (∀ txn ∈ call.actor?, _ → _))

/-- In a sequential run a call that the family of the reader has no part in, or is refused in,
commits others only, and at times after all that were issued before. -/
theorem Since.committed_after {reader : Handle} {s₁ s : Session σ} (h : Since reader s₁ s)
    (hregular : Regular s) {call : Call} (hhandles : ∀ h ∈ call.handles, h ∈ s.handles)
    (hsequential : Sequential (s.after call)) (hquiet : Quiet reader s call) {id : Timestamp}
    {record : Record} (hfound : (s.after call).table.get? id = some record)
    (hcommitted : record.status = .committed) :
    s₁.table.get? id = some record ∨ record.isInFamily reader.id = false ∧
      ∃ ts, record.commitTs = some ts ∧ ∀ x ∈ s₁.issued, x < ts := by
  rcases hregular.effect_alone hsequential.1 with ⟨asked, hissued, hdeed⟩
  have hascending := hsequential.2.1
  rw [hissued] at hascending
  generalize (s.after call).table = t', (s.after call).engine.cells = cells',
    hresult : s.answer call = result at hdeed hfound
  cases hdeed with
  | looked _ => exact h.committed hfound hcommitted
  | began _ hbegins =>
    exact h.committed_insert (by simp [hbegins.status]) hfound hcommitted
  | @committed _ ts txn old new hasked hold hcloses _ =>
    refine h.committed_insert ?_ hfound hcommitted
    intro _
    have htxn : txn ∈ s.handles := hhandles txn (by simp [Call.handles])
    rcases hregular.recorded txn htxn with ⟨record', hrecord', hhandle⟩
    rw [hold, Option.some.injEq] at hrecord'
    subst hrecord'
    have houtside : txn.isInFamily reader.id = false := by
      by_contra hinside
      have hrefused := hquiet txn rfl (Bool.not_eq_false _ ▸ hinside)
      rw [hresult] at hrefused
      cases hrefused
    refine ⟨?_, ts, hcloses.commitTs, ?_⟩
    · rw [hcloses.handle, hhandle, houtside]
    · intro x hx
      exact (List.pairwise_append.1 hascending).2.2 x (h.issued x hx) _
        (mem_timestamps_of_eq hasked)
  | failed _ hcloses =>
    exact h.committed_insert (by simp [hcloses.status, Outcome.status]) hfound hcommitted
  | rolledBack _ hcloses =>
    exact h.committed_insert (by simp [hcloses.status, Outcome.status]) hfound hcommitted
  | wrote _ _ _ _ => exact h.committed hfound hcommitted
  | resolved _ => exact h.committed hfound hcommitted

/-- Such a call leaves the cells of the reader and of settled writers alone, but for markers. -/
theorem Since.frozen_after {reader : Handle} {s₁ s : Session σ} (h : Since reader s₁ s)
    (hregular : Regular s) {call : Call} (hsequential : Sequential (s.after call))
    (hquiet : Quiet reader s call) {c : Cell} (hkind : c.kind ≠ .commitMarker)
    (hwriter : c.timestamp = reader.id ∨ ∃ record, s₁.table.get? c.timestamp = some record ∧
      record.status.isTerminal = true) :
    c ∈ (s.after call).engine.cells.toList ↔ c ∈ s₁.engine.cells.toList := by
  rcases hregular.effect_alone hsequential.1 with ⟨asked, _, hdeed⟩
  generalize (s.after call).table = t', (s.after call).engine.cells = cells',
    hresult : s.answer call = result at hdeed ⊢
  cases hdeed with
  | looked _ => exact h.frozen hkind hwriter
  | began _ _ => exact h.frozen hkind hwriter
  | committed _ _ _ _ => exact h.frozen hkind hwriter
  | failed _ _ => exact h.frozen hkind hwriter
  | rolledBack _ _ => exact h.frozen hkind hwriter
  | resolved hresolved => exact (hresolved.others hkind).trans (h.frozen hkind hwriter)
  | @wrote _ txn record _ hactor hfound hactive hwritten =>
    refine (hwritten.others ?_).trans (h.frozen hkind hwriter)
    intro hown
    rcases hwriter with hreader | ⟨settled, hsettled, hterminal⟩
    · have hinside : txn.isInFamily reader.id = true := by
        simp [Handle.isInFamily, ← hown, hreader]
      have hrefused := hquiet txn hactor hinside
      rw [hresult] at hrefused
      cases hrefused
    · have hstill := h.extended.terminal hsettled hterminal
      rw [hown, hfound, Option.some.injEq] at hstill
      subst hstill
      exact Status.isTerminal_iff.1 hterminal hactive

/-- A call that the family of the reader has no part in, or is refused in. -/
theorem Since.after {reader : Handle} {s₁ s : Session σ} (h : Since reader s₁ s)
    (hregular : Regular s) {call : Call} (hhandles : ∀ h ∈ call.handles, h ∈ s.handles)
    (hsequential : Sequential (s.after call)) (hquiet : Quiet reader s call) :
    Since reader s₁ (s.after call) := by
  rcases hregular.effect_alone hsequential.1 with ⟨asked, hissued, hdeed⟩
  constructor
  · exact h.extended.trans hdeed.extended
  · intro ts hts
    rw [hissued]
    exact List.mem_append_left _ (h.issued ts hts)
  · exact h.committed_after hregular hhandles hsequential hquiet
  · exact h.frozen_after hregular hsequential hquiet

theorem Since.of_run {reader : Handle} {s₁ s : Session σ} (hregular : Regular s₁)
    (hrun : Run (fun s call => Sequential (s.after call) ∧ Quiet reader s call) s₁ s) :
    Regular s ∧ Since reader s₁ s :=
  hrun.keeps (fun _ _ hfits => hfits.1.belowLimit)
    (fun _ _ hregular hsince hhandles hfits => hsince.after hregular hhandles hfits.1 hfits.2)
    hregular (.refl reader s₁)

end Session

/-! ## Writers that a snapshot sees -/

namespace Handle

variable {t t' : Table} {reader : Handle}

/-- A writer that a snapshot reader sees was committed before the snapshot, as was everyone above
it that the walk came to, or the walk came to a child that was committed into the reader. -/
theorem inFamily_or_committed (hsound : Sound t) {issued : List Timestamp}
    (hordered : Session.Ordered t issued) (hsnapshot : reader.isolation = .snapshot)
    {id : Timestamp} {record : Record} {records : List Record}
    (hlineage : Lineage t id (record :: records))
    (hseen : reader.verdict reader.snapshot (record :: records) = true) :
    (record.isInFamily reader.id = true ∧ ∃ child, t.get? child.id = some child ∧
        child.parent? = some reader.id ∧ child.status = .committed) ∨
      ∃ ts, record.commitTs = some ts ∧ ts ≤ reader.id := by
  have hisolated : reader.isolation ≠ .readUncommitted := by simp [hsnapshot]
  generalize hall : record :: records = all at hlineage hseen
  induction hlineage generalizing record records with
  | topLevel _ _ =>
    cases hall
    rcases committed_of_verdict hisolated hseen with ⟨hcommitted, ts, hts⟩
    simp only [verdict, hcommitted, hts, seesCommit, hsnapshot, snapshot] at hseen
    exact .inr ⟨ts, hts, of_decide_eq_true hseen⟩
  | @nested id parent first above rest hfound hancestors _ hrest ih =>
    rcases List.cons.inj hall with ⟨hfirst, hrecords⟩
    subst hfirst hrecords
    rcases committed_of_verdict hisolated hseen with ⟨hcommitted, ts, hts⟩
    have hnamed : above.id = parent := hsound.named hrest.get?
    rw [verdict_cons hcommitted hts] at hseen
    split at hseen
    · rename_i hreader
      have hparent : parent = reader.id := hnamed.symm.trans hreader
      refine .inl ⟨?_, record, ?_, ?_, hcommitted⟩
      · simp [isInFamily, isAncestor, hancestors, hparent]
      · rw [hsound.named hfound, hfound]
      · simp [parent?, hancestors, hparent]
    · split at hseen
      · simp only [seesCommit, hsnapshot, snapshot] at hseen
        exact .inr ⟨ts, hts, of_decide_eq_true hseen⟩
      · rcases ih rfl hseen with ⟨hinside, hchild⟩ | ⟨tsAbove, htsAbove, hbefore⟩
        · refine .inl ⟨?_, hchild⟩
          simp only [isInFamily, isAncestor, Bool.or_eq_true, beq_iff_eq, List.contains_eq_mem,
            decide_eq_true_eq, hancestors, List.mem_cons, hnamed] at hinside ⊢
          exact .inr (hinside.imp_left Eq.symm)
        · have habove := (committed_of_verdict hisolated hseen).1
          have hlt := hordered.inward hfound hancestors hrest.get? hcommitted habove hts htsAbove
          exact .inr ⟨ts, hts, le_trans (le_of_lt hlt) hbefore⟩

/-- A verdict carries over to another table that has the records of the writers seen. -/
theorem OuterReader.verdict_transfer (h : reader.OuterReader t) (h' : reader.OuterReader t')
    (hsound : Sound t) (hsound' : Sound t')
    (hkept : ∀ id record records, Lineage t id (record :: records) →
      reader.verdict reader.snapshot (record :: records) = true → t'.get? id = some record)
    {id : Timestamp} {records : List Record} (hlineage : Lineage t id records)
    (hseen : reader.verdict reader.snapshot records = true) :
    reader.verdict reader.snapshot (lineage t' id) = true := by
  induction hlineage with
  | @topLevel id record hfound hancestors =>
    have hfound' := hkept id record [] (.topLevel hfound hancestors) hseen
    simpa [lineage, hfound', hancestors] using hseen
  | @nested id parent record above records hfound hancestors hbelow hrest ih =>
    have hfound' := hkept id record _ (.nested hfound hancestors hbelow hrest) hseen
    rcases committed_of_verdict h.isolated hseen with ⟨hcommitted, ts, hts⟩
    rw [verdict_cons_committed h hcommitted hts, Bool.or_eq_true, beq_iff_eq,
      hsound.named hrest.get?] at hseen
    have hlineage' := hsound'.lineage hfound'
    generalize lineage t' id = records' at hlineage'
    cases hlineage' with
    | topLevel hsame htop =>
      rw [hfound', Option.some.injEq] at hsame
      rw [← hsame, hancestors] at htop
      cases htop
    | @nested _ parent' _ above' records' hsame hancestors' _ hrest' =>
      rw [hfound', Option.some.injEq] at hsame
      subst hsame
      rw [hancestors, List.cons.injEq] at hancestors'
      rcases hancestors' with ⟨rfl, _⟩
      rw [verdict_cons_committed h' hcommitted hts, Bool.or_eq_true, beq_iff_eq,
        hsound'.named hrest'.get?]
      apply hseen.imp_right
      rw [hrest'.eq_lineage]
      exact ih

/-- So writers that are seen over one table are seen over the other. -/
theorem OuterReader.sees_transfer (h : reader.OuterReader t) (h' : reader.OuterReader t')
    (hsound : Sound t) (hsound' : Sound t')
    (hkept : ∀ id record records, Lineage t id (record :: records) →
      reader.verdict reader.snapshot (record :: records) = true → t'.get? id = some record)
    {writer : Timestamp} (hseen : Reading.sees t reader writer = true) :
    Reading.sees t' reader writer = true := by
  unfold Reading.sees at hseen ⊢
  rw [Bool.or_eq_true] at hseen ⊢
  apply hseen.imp_right
  intro hseen
  cases hfound : t.get? writer with
  | none => simp [lineage, hfound, verdict] at hseen
  | some record => exact h.verdict_transfer h' hsound hsound' hkept (hsound.lineage hfound) hseen

end Handle

/-! ## Two reads of one row -/

namespace Session

variable {σ : Type} {reader : Handle} {s₁ s₂ : Session σ}

/-- A reader whose family was quiet sees the same writers as before. -/
theorem Since.sees_eq (h : Since reader s₁ s₂) (hregular₁ : Regular s₁) (hregular₂ : Regular s₂)
    (hordered₁ : Ordered s₁.table s₁.issued) (hordered₂ : Ordered s₂.table s₂.issued)
    (h₁ : reader.OuterReader s₁.table) (h₂ : reader.OuterReader s₂.table)
    (hsnapshot : reader.isolation = .snapshot) :
    Reading.sees s₁.table reader = Reading.sees s₂.table reader := by
  funext writer
  rw [Bool.eq_iff_iff]
  constructor
  · apply h₁.sees_transfer h₂ hregular₁.sound hregular₂.sound
    intro id record records hlineage hseen
    apply h.extended.terminal hlineage.get?
    rw [(Handle.committed_of_verdict h₁.isolated hseen).1]
    rfl
  · apply h₂.sees_transfer h₁ hregular₂.sound hregular₁.sound
    intro id record records hlineage hseen
    have hcommitted := (Handle.committed_of_verdict h₂.isolated hseen).1
    rcases h.committed hlineage.get? hcommitted with hfound | ⟨houtside, ts, hts, hlater⟩
    · exact hfound
    · -- the writer was committed after the snapshot was issued, so it cannot be seen
      exfalso
      rcases h₁.active with ⟨own, hown, _⟩
      rcases Handle.inFamily_or_committed hregular₂.sound hordered₂ hsnapshot hlineage hseen with
        ⟨hinside, _⟩ | ⟨ts', hts', hbefore⟩
      · rw [houtside] at hinside
        cases hinside
      · rw [hts, Option.some.injEq] at hts'
        subst hts'
        exact not_lt_of_ge hbefore (hlater _ (hordered₁.ids hown))

/-- What a writer that is seen wrote stays as it is. -/
theorem Since.mem_iff_of_shows (h : Since reader s₁ s₂)
    (h₁ : reader.OuterReader s₁.table) {c : Cell}
    (hshows : Reading.shows (Reading.sees s₁.table reader) c = true) :
    c ∈ s₂.engine.cells.toList ↔ c ∈ s₁.engine.cells.toList := by
  rcases Reading.kind_of_shows hshows with ⟨hkind, hseen⟩
  apply h.frozen hkind
  rw [Reading.sees, Bool.or_eq_true, beq_iff_eq] at hseen
  apply hseen.imp_right
  intro hseen
  cases hfound : s₁.table.get? c.timestamp with
  | none => simp [lineage, hfound, Handle.verdict] at hseen
  | some record =>
    refine ⟨record, rfl, ?_⟩
    rw [lineage, hfound] at hseen
    rw [(Handle.committed_of_verdict h₁.isolated hseen).1]
    rfl

variable [TimestampSource σ]

/-- In a sequential run, an active outermost snapshot reader reads the same cells of every row
at two points between which its family did nothing. -/
theorem snapshot_reads_are_stable {source : σ} {capacity : Nat} {journal : Option Journal}
    (hbefore : Run (fun s call => Sequential (s.after call)) (opening source capacity journal) s₁)
    (hbetween : Run (fun s call => Sequential (s.after call) ∧ Quiet reader s call) s₁ s₂)
    (hreader : reader ∈ s₁.handles) (htop : reader.ancestors = [])
    (hsnapshot : reader.isolation = .snapshot) (hactive₁ : s₁.IsActive reader)
    (hactive₂ : s₂.IsActive reader) (row : Bytes) :
    ∃ cells, Step.answer (Engine.readRow reader row) s₁.engine = .ok cells ∧
      Step.answer (Engine.readRow reader row) s₂.engine = .ok cells := by
  have hopening : Ordered (opening source capacity journal).table
      (opening source capacity journal).issued := ⟨nofun, nofun, nofun⟩
  have hall := hbefore.trans (hbetween.mono fun _ _ hfits => hfits.1)
  have hregular := regular_opening source capacity journal
  rcases hopening.of_run hregular hbefore with ⟨hregular₁, hordered₁⟩
  rcases hopening.of_run hregular hall with ⟨hregular₂, hordered₂⟩
  have hsince := (Since.of_run hregular₁ hbetween).2
  have hisolation : reader.isolation ≠ .readUncommitted := by simp [hsnapshot]
  have h₁ := hregular₁.outerReader hreader htop hisolation hactive₁
  have h₂ : reader.OuterReader s₂.table := by
    rcases hactive₂ with ⟨record, hfound, hstatus⟩
    rcases h₁.active with ⟨own, hown, hhandle, _⟩
    rcases hsince.extended.kept hown with ⟨record', hfound', hhandle'⟩
    rw [hfound, Option.some.injEq] at hfound'
    subst hfound'
    exact ⟨hisolation, htop, record, hfound, hhandle'.trans hhandle, hstatus⟩
  have hsees := hsince.sees_eq hregular₁ hregular₂ hordered₁ hordered₂ h₁ h₂ hsnapshot
  refine ⟨_, hregular₁.answer_readRow h₁ row, ?_⟩
  rw [hregular₂.answer_readRow h₂ row, ← hsees]
  refine congrArg _ (Reading.visibleRow_congr ?_ row)
  intro c
  constructor
  · rintro ⟨hc, hshows⟩
    exact ⟨(hsince.mem_iff_of_shows h₁ hshows).1 hc, hshows⟩
  · rintro ⟨hc, hshows⟩
    exact ⟨(hsince.mem_iff_of_shows h₁ hshows).2 hc, hshows⟩

/-- A writer begins at one and commits a row at two; then a reader begins at three. -/
def settledWrite : List Call :=
  [.start .snapshot none, .write ⟨⟨1⟩, [], .snapshot⟩ [7] [([1], [9])],
    .commit ⟨⟨1⟩, [], .snapshot⟩, .start .snapshot none]

/-- Another transaction deletes the row and commits, its marker is resolved, and a child of the
reader begins. -/
def laterDelete : List Call :=
  [.start .snapshot none, .delete ⟨⟨4⟩, [], .snapshot⟩ [7], .commit ⟨⟨4⟩, [], .snapshot⟩, .compact,
    .start .snapshot (some ⟨⟨3⟩, [], .snapshot⟩)]

/-- The reader still reads the row that was deleted after it began. -/
theorem snapshot_reads_are_stable_laterDelete :
    let s₁ := settledWrite.foldl after (opening (countingTo 6) 4 none)
    let s₂ := laterDelete.foldl after s₁
    let reader : Handle := ⟨⟨3⟩, [], .snapshot⟩
    Cell.tombstone [7] ⟨4⟩ ∈ s₂.engine.cells.toList ∧
      ∃ cells, Step.answer (Engine.readRow reader [7]) s₁.engine = .ok cells ∧
        Step.answer (Engine.readRow reader [7]) s₂.engine = .ok cells := by
  refine ⟨by decide, ?_⟩
  exact snapshot_reads_are_stable (.of_admits .nil (by decide)) (.of_admits .nil (by decide))
    (by decide) rfl rfl ⟨_, rfl, rfl⟩ ⟨_, rfl, rfl⟩ [7]

end Session

end SnapshotIsolation
