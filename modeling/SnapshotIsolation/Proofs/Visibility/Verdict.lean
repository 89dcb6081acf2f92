import SnapshotIsolation.Proofs.Visibility.Repeating

/-!
# Verdicts on writers

What a reader decides about a writer, as a function of the table. The walk up the writer's
lineage and the writer's resolved commit marker are two ways to the same verdict for an active
reader of committed data, as long as no ancestor of the reader has failed and what was committed
into an ancestor is seen as it will be seen from outside the family. An outermost reader has no
ancestors, so for it they always are.

Main results:

- Theorem {lit}`Reading.answers_walkChain`: the walk answers the verdict on the lineage.
- Theorem {lit}`Reading.answers_judges`: what any reader decides about any recorded writer.
- Theorems {lit}`Reading.answers_isWriterVisible_of_family` and
  {lit}`Reading.answers_isWriterVisible`: a marker that agrees with the lineage leads to the same
  verdict as the walk.
-/

namespace SnapshotIsolation

open Registry (Table Extends lineage Lineage Sound)

/-- What the walk up a writer's lineage decides, the writer's own record first. -/
def Handle.verdict (reader : Handle) (snapshot : Timestamp) : List Record → Bool
  | [] => false
  | record :: records =>
    match record.status, record.commitTs with
    | .rolledBack, _ | .error, _ => false
    | .active, _ | .committed, none => reader.isolation == .readUncommitted
    | .committed, some commitTs =>
      match records with
      | [] => reader.seesCommit snapshot commitTs
      | above :: _ =>
        if above.id = reader.id then true
        else if reader.isAncestor above.id then reader.seesCommit snapshot commitTs
        else verdict reader snapshot records

/-- An active transaction without ancestors that reads committed data only. -/
structure Handle.OuterReader (t : Table) (reader : Handle) : Prop where
  isolated : reader.isolation ≠ .readUncommitted
  topLevel : reader.ancestors = []
  active : ∃ record, t.get? reader.id = some record ∧ record.toHandle = reader ∧
    record.status = .active

/-- An active transaction that reads committed data only, whose ancestors have not failed, and
that sees what was committed into its family by the time at which it counts for everyone. -/
structure Handle.FamilyReader (t : Table) (reader : Handle) : Prop where
  isolated : reader.isolation ≠ .readUncommitted
  active : ∃ record, t.get? reader.id = some record ∧ record.toHandle = reader ∧
    record.status = .active
  unfailed {r : Record} : r ∈ lineage t reader.id → r.status.isFailed = false
  joined {id ts outermost : Timestamp} {record above : Record} {records : List Record} :
    Lineage t id (record :: above :: records) → reader.isAncestor above.id = true →
      record.commitTs = some ts →
        EffectiveStatus.ofRecords (record :: above :: records) = .committed outermost →
          reader.seesCommit reader.snapshot ts = reader.seesCommit reader.snapshot outermost

/-- A marker says nothing, or what the records of its writer's lineage say. -/
def Marker.Agrees (records : List Record) : Marker → Prop
  | .unresolved => True
  | .committed ts => EffectiveStatus.ofRecords records = .committed ts
  | .failed => ∃ status, EffectiveStatus.ofRecords records = .failed status

/-- Markers resolved earlier agree ever after. -/
theorem Marker.Agrees.of_extends {t t' : Table} {id : Timestamp} {l l' : List Record}
    {marker : Marker} (h : marker.Agrees l) (hextends : Extends t t') (hlineage : Lineage t id l)
    (hlineage' : Lineage t' id l') : marker.Agrees l' := by
  have hfinal := hlineage.settled_final hextends hlineage'
  cases marker with
  | unresolved => trivial
  | committed ts => exact hfinal.1 ts h
  | failed => exact hfinal.2 h

namespace Handle

variable {t : Table} {reader : Handle} {snapshot : Timestamp}

theorem OuterReader.not_isAncestor (h : reader.OuterReader t) (id : Timestamp) :
    reader.isAncestor id = false := by
  rw [isAncestor, h.topLevel]
  rfl

/-- A lineage through the reader ends there, with an active record. -/
theorem OuterReader.lineage_eq (h : reader.OuterReader t) {records : List Record}
    (hlineage : Lineage t reader.id records) :
    ∃ record, records = [record] ∧ record.status = .active := by
  rcases h.active with ⟨record, hfound, hhandle, hactive⟩
  cases hlineage with
  | topLevel hfound' _ =>
    rw [hfound, Option.some.injEq] at hfound'
    subst hfound'
    exact ⟨record, rfl, hactive⟩
  | nested hfound' hancestors _ _ =>
    rw [hfound, Option.some.injEq] at hfound'
    rw [← hfound', hhandle, h.topLevel] at hancestors
    cases hancestors

theorem verdict_cons_committed {record above : Record} {records : List Record} {ts : Timestamp}
    (h : reader.OuterReader t) (hstatus : record.status = .committed)
    (hts : record.commitTs = some ts) :
    reader.verdict snapshot (record :: above :: records) =
      (above.id == reader.id || reader.verdict snapshot (above :: records)) := by
  rw [verdict]
  simp only [hstatus, hts, h.not_isAncestor]
  by_cases hid : above.id = reader.id <;> simp [hid]

/-- A lineage is only ever seen through a committed record. -/
theorem committed_of_verdict {record : Record} {records : List Record}
    (hisolated : reader.isolation ≠ .readUncommitted)
    (h : reader.verdict snapshot (record :: records) = true) :
    record.status = .committed ∧ ∃ ts, record.commitTs = some ts := by
  rw [verdict] at h
  cases hstatus : record.status with
  | active => simp [hstatus, hisolated] at h
  | rolledBack => simp [hstatus] at h
  | error => simp [hstatus] at h
  | committed =>
    cases hts : record.commitTs with
    | none => simp [hstatus, hts, hisolated] at h
    | some ts => exact ⟨rfl, ts, rfl⟩

/-! ## Families -/

theorem FamilyReader.lineage (h : reader.FamilyReader t) (hsound : Sound t) :
    Lineage t reader.id (Registry.lineage t reader.id) := by
  rcases h.active with ⟨record, hfound, _⟩
  exact hsound.lineage hfound

/-- The ids of a reader's lineage are those of its family. -/
theorem FamilyReader.mem_map_id (h : reader.FamilyReader t) (hsound : Sound t) {id : Timestamp}
    (hid : reader.isInFamily id = true) : id ∈ (Registry.lineage t reader.id).map (·.id) := by
  rcases h.active with ⟨record, hfound, hhandle, _⟩
  rcases hsound.exists_lineage hfound with ⟨records, hlineage⟩
  rw [← hlineage.eq_lineage, List.map_cons, hlineage.map_id hsound, hsound.named hfound, hhandle]
  rw [isInFamily, isAncestor, Bool.or_eq_true, beq_iff_eq, List.contains_iff_mem] at hid
  rcases hid with rfl | hid
  · exact List.mem_cons_self
  · exact List.mem_cons_of_mem _ hid

/-- The lineage of a member of the family is the end of the reader's own. -/
theorem FamilyReader.isSuffix (h : reader.FamilyReader t) (hsound : Sound t) {id : Timestamp}
    {records : List Record} (hid : reader.isInFamily id = true) (hlineage : Lineage t id records) :
    records <:+ Registry.lineage t reader.id :=
  (h.lineage hsound).isSuffix_of_mem hsound (h.mem_map_id hsound hid) hlineage

/-- No member of the family has failed. -/
theorem FamilyReader.unfailed_of_mem (h : reader.FamilyReader t) (hsound : Sound t)
    {id : Timestamp} {records : List Record} (hid : reader.isInFamily id = true)
    (hlineage : Lineage t id records) : ∀ r ∈ records, r.status.isFailed = false :=
  fun _ hr => h.unfailed ((h.isSuffix hsound hid hlineage).mem hr)

/-- The reader is not committed. -/
theorem FamilyReader.not_committed (h : reader.FamilyReader t) {records : List Record}
    (hlineage : Lineage t reader.id records) : ∃ r ∈ records, r.status = .active := by
  rcases h.active with ⟨record, hfound, _, hactive⟩
  refine ⟨record, ?_, hactive⟩
  rw [hlineage.eq_lineage, Registry.lineage, hfound]
  exact List.mem_cons_self

theorem verdict_cons {record above : Record} {records : List Record} {ts : Timestamp}
    (hstatus : record.status = .committed) (hts : record.commitTs = some ts) :
    reader.verdict snapshot (record :: above :: records) =
      if above.id = reader.id then true
      else if reader.isAncestor above.id then reader.seesCommit snapshot ts
      else reader.verdict snapshot (above :: records) := by
  rw [verdict]
  simp only [hstatus, hts]

/-- A failed lineage is not seen: the walk meets the failure, or an active record, before it comes
to the reader's family. -/
theorem FamilyReader.verdict_of_failed (h : reader.FamilyReader t) (hsound : Sound t)
    {id : Timestamp} {records : List Record} (hlineage : Lineage t id records)
    (hfailed : ∃ r ∈ records, r.status.isFailed = true) :
    reader.verdict snapshot records = false := by
  induction hlineage with
  | topLevel hfound _ =>
    rcases hfailed with ⟨r, hr, hfailed⟩
    obtain rfl := List.mem_singleton.1 hr
    by_contra hseen
    have hcommitted := (committed_of_verdict h.isolated (Bool.not_eq_false _ ▸ hseen)).1
    simp [hcommitted, Status.isFailed] at hfailed
  | @nested id parent record above records _ _ _ hrest ih =>
    by_contra hseen
    rw [Bool.not_eq_false] at hseen
    rcases committed_of_verdict h.isolated hseen with ⟨hcommitted, ts, hts⟩
    have hfailed' : ∃ r ∈ above :: records, r.status.isFailed = true := by
      rcases hfailed with ⟨r, hr, hfail⟩
      rcases List.mem_cons.1 hr with rfl | hr
      · simp [hcommitted, Status.isFailed] at hfail
      · exact ⟨r, hr, hfail⟩
    have houtside : reader.isInFamily parent = false := by
      by_contra hinside
      rcases hfailed' with ⟨r, hr, hfail⟩
      have hsafe := h.unfailed_of_mem hsound (Bool.not_eq_false _ ▸ hinside) hrest r hr
      rw [hfail] at hsafe
      cases hsafe
    rw [isInFamily, Bool.or_eq_false_iff, beq_eq_false_iff_ne] at houtside
    rw [verdict_cons hcommitted hts, hsound.named hrest.get?, if_neg houtside.1.symm, houtside.2,
      if_neg (by simp), ih hfailed'] at hseen
    cases hseen

/-- A committed lineage is seen by its outermost commit time. -/
theorem FamilyReader.verdict_of_committed (h : reader.FamilyReader t) (hsound : Sound t)
    {id : Timestamp} {records : List Record} (hlineage : Lineage t id records) {ts : Timestamp}
    (hcommitted : EffectiveStatus.ofRecords records = .committed ts) :
    reader.verdict reader.snapshot records = reader.seesCommit reader.snapshot ts := by
  have hall := (EffectiveStatus.eq_committed_iff.1 hcommitted).1
  induction hlineage with
  | @topLevel id record hfound _ =>
    have hts : record.commitTs = some ts := by
      simpa using (EffectiveStatus.eq_committed_iff.1 hcommitted).2
    simp [verdict, hall record List.mem_cons_self, hts]
  | @nested id parent record above records hfound hancestors hbelow hrest ih =>
    have hstatus := hall record List.mem_cons_self
    rcases hsound.committed hfound hstatus with ⟨ts', hts, _⟩
    have hall' : ∀ r ∈ above :: records, r.status = .committed :=
      fun r hr => hall r (List.mem_cons_of_mem _ hr)
    have hne : above.id ≠ reader.id := by
      intro hid
      rw [hsound.named hrest.get?] at hid
      subst hid
      rcases h.not_committed hrest with ⟨r, hr, hactive⟩
      rw [hall' r hr] at hactive
      cases hactive
    rw [verdict_cons hstatus hts, if_neg hne]
    by_cases hinside : reader.isAncestor above.id = true
    · rw [if_pos hinside]
      exact h.joined (.nested hfound hancestors hbelow hrest) hinside hts hcommitted
    · rw [if_neg hinside]
      refine ih (EffectiveStatus.eq_committed_iff.2 ⟨hall', ?_⟩) hall'
      simpa using (EffectiveStatus.eq_committed_iff.1 hcommitted).2

/-- An outermost reader has no family but itself. -/
theorem OuterReader.familyReader (h : reader.OuterReader t) (hsound : Sound t) :
    reader.FamilyReader t := by
  refine ⟨h.isolated, h.active, ?_, ?_⟩
  · intro r hr
    rcases h.active with ⟨record, hfound, _⟩
    rcases h.lineage_eq (hsound.lineage hfound) with ⟨own, hlineage, hactive⟩
    rw [hlineage, List.mem_singleton] at hr
    rw [hr, hactive]
    rfl
  · intro id ts outermost record above records _ hinside
    rw [h.not_isAncestor] at hinside
    cases hinside

end Handle

namespace Reading

variable {t : Table} {reader : Handle} {snapshot : Timestamp}

/-- The walk up a writer's chain answers the verdict on its lineage. -/
theorem answers_walkChain (h : Sound t) {id : Timestamp} {records : List Record}
    (hlineage : Lineage t id records) :
    Answers t (walkChain reader snapshot id) (.ok (reader.verdict snapshot records)) := by
  induction hlineage with
  | @topLevel id record hfound hancestors =>
    rw [walkChain]
    apply (answers_find_of_get? hfound).bind
    rw [Handle.verdict]
    cases hstatus : record.status with
    | active => exact answers_pure _
    | rolledBack => exact answers_pure _
    | error => exact answers_pure _
    | committed =>
      cases hts : record.commitTs with
      | none => exact answers_pure _
      | some ts =>
        have hparent : record.parent? = none := by simp [Handle.parent?, hancestors]
        simp only [hparent]
        exact answers_pure _
  | @nested id parent record above records hfound hancestors hbelow hrest ih =>
    rw [walkChain]
    apply (answers_find_of_get? hfound).bind
    rw [Handle.verdict]
    cases hstatus : record.status with
    | active => exact answers_pure _
    | rolledBack => exact answers_pure _
    | error => exact answers_pure _
    | committed =>
      cases hts : record.commitTs with
      | none => exact answers_pure _
      | some ts =>
        have hparent : record.parent? = some parent := by simp [Handle.parent?, hancestors]
        simp only [hparent, h.named hrest.get?]
        by_cases hreader : parent = reader.id
        · simp only [hreader, if_true]
          exact answers_pure _
        · simp only [hreader, if_false]
          by_cases hup : reader.isAncestor parent = true
          · simp only [hup, if_true]
            exact answers_pure _
          · simp only [hup, hbelow, dif_pos]
            exact ih

/-- Whether a reader without ancestors sees what a transaction wrote, by the table. -/
def sees (t : Table) (reader : Handle) (writer : Timestamp) : Bool :=
  writer == reader.id || reader.verdict reader.snapshot (lineage t writer)

/-- Whether a reader sees what a transaction wrote, by the table: it sees its own family. -/
def discerns (t : Table) (reader : Handle) (writer : Timestamp) : Bool :=
  reader.isInFamily writer || reader.verdict reader.snapshot (lineage t writer)

theorem discerns_eq_sees (hreader : reader.OuterReader t) : discerns t reader = sees t reader := by
  funext writer
  rw [discerns, sees, Handle.isInFamily, hreader.not_isAncestor, Bool.or_false,
    BEq.comm (a := reader.id)]

/-- Whether a reader sees what a transaction wrote, by the table and the writer's marker if there
is one. It sees itself, and an ancestor that has not failed. For others a resolved marker is
trusted, and without one the lineage has the verdict. -/
def judges (t : Table) (reader : Handle) (snapshot : Timestamp) (marker : Option Marker)
    (writer : Timestamp) : Bool :=
  if writer = reader.id then true
  else if reader.isAncestor writer then (t.get? writer).any fun record => !record.status.isFailed
  else
    match marker with
    | some (.committed ts) => reader.seesCommit snapshot ts
    | some .failed => false
    | some .unresolved | none => reader.verdict snapshot (lineage t writer)

/-- Whether the reader sees a recorded writer is a matter of the table and the marker. -/
theorem answers_judges (h : Sound t) {writer : Timestamp} {record : Record}
    (hwriter : t.get? writer = some record) (marker : Option Marker) :
    Answers t (isWriterVisible writer marker snapshot reader)
      (.ok (judges t reader snapshot marker writer)) := by
  have hwalk : Answers t (walkChain reader snapshot writer) _ :=
    answers_walkChain h (h.lineage hwriter)
  unfold isWriterVisible judges
  by_cases hown : writer = reader.id
  · simp only [hown, if_true]
    exact answers_pure _
  · simp only [hown, if_false]
    by_cases hinside : reader.isAncestor writer = true
    · simp only [hinside, if_true, hwriter, Option.any_some]
      exact (answers_find_of_get? hwriter).bind (answers_pure _)
    · simp only [hinside, Bool.false_eq_true, if_false]
      cases marker with
      | none => exact hwalk
      | some m =>
        cases m with
        | unresolved => exact hwalk
        | committed ts => exact answers_pure _
        | failed => exact answers_pure _

/-- A marker that agrees with its writer's lineage leads to the same verdict as no marker. -/
theorem judges_eq_discerns (h : Sound t) (hreader : reader.FamilyReader t)
    {writer : Timestamp} {record : Record} (hwriter : t.get? writer = some record)
    {marker : Option Marker} (hmarker : ∀ m, marker = some m → m.Agrees (lineage t writer)) :
    judges t reader reader.snapshot marker writer = discerns t reader writer := by
  have hlineage := h.lineage hwriter
  unfold judges discerns Handle.isInFamily
  by_cases hown : writer = reader.id
  · simp [hown]
  · have hown' : (reader.id == writer) = false := by simpa using fun heq => hown heq.symm
    by_cases hinside : reader.isAncestor writer = true
    · have hfamily : reader.isInFamily writer = true := by simp [Handle.isInFamily, hinside]
      have hunfailed := hreader.unfailed_of_mem h hfamily hlineage record
        (by simp [lineage, hwriter])
      simp [hown, hinside, hwriter, hunfailed]
    · rw [Bool.not_eq_true] at hinside
      simp only [hown, if_false, hinside, hown', Bool.or_false, Bool.false_or, Bool.false_eq_true]
      cases marker with
      | none => rfl
      | some m =>
        cases m with
        | unresolved => rfl
        | committed ts => exact (hreader.verdict_of_committed h hlineage (hmarker _ rfl)).symm
        | failed =>
          have hfailed := EffectiveStatus.exists_failed_iff.1 (hmarker _ rfl)
          exact (hreader.verdict_of_failed h hlineage hfailed).symm

theorem answers_isWriterVisible_of_family (h : Sound t) (hreader : reader.FamilyReader t)
    {writer : Timestamp} {record : Record} (hwriter : t.get? writer = some record)
    {marker : Option Marker} (hmarker : ∀ m, marker = some m → m.Agrees (lineage t writer)) :
    Answers t (isWriterVisible writer marker reader.snapshot reader)
      (.ok (discerns t reader writer)) := by
  rw [← judges_eq_discerns h hreader hwriter hmarker]
  exact answers_judges h hwriter marker

/-- So it is for a reader without ancestors. -/
theorem answers_isWriterVisible (h : Sound t) (hreader : reader.OuterReader t)
    {writer : Timestamp} {record : Record} (hwriter : t.get? writer = some record)
    {marker : Option Marker} (hmarker : ∀ m, marker = some m → m.Agrees (lineage t writer)) :
    Answers t (isWriterVisible writer marker reader.snapshot reader)
      (.ok (sees t reader writer)) := by
  rw [← discerns_eq_sees hreader]
  exact answers_isWriterVisible_of_family h (hreader.familyReader h) hwriter hmarker

theorem compositional_determined : Compositional fun act => Determined t act :=
  ⟨determined_ofExcept, determined_find, Determined.bind⟩

/-- Whatever the table and the reader, the verdict on a writer is a matter of the table. -/
theorem determined_isWriterVisible (writer : Timestamp) (marker : Option Marker)
    (snapshot : Timestamp) (reader : Handle) :
    Determined t (isWriterVisible writer marker snapshot reader) :=
  compositional_determined.isWriterVisible writer marker snapshot reader

end Reading

end SnapshotIsolation
