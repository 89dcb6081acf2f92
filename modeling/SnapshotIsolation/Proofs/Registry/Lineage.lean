import SnapshotIsolation.Proofs.Registry.Changes

/-!
# Lineages

The lineage of a transaction is its record followed by those of its ancestors, the nearest
first. In a table where children only ever began under recorded parents, every transaction has
one, and its ids are those that the transaction's own record lists.

Main results:

- Theorem {lit}`Registry.Sound.exists_lineage`: every recorded transaction has a lineage.
- Theorems {lit}`Registry.Sound.insert_begun` and {lit}`Registry.Sound.insert_closed`: begins and
  settlements keep tables sound.
- Theorem {lit}`Registry.Lineage.settled_final`: what a lineage was settled with is final.
-/

namespace SnapshotIsolation

/-- The effective status of a transaction by the records of its lineage: the nearest failure, or
else whether all are committed, and when the outermost one was. -/
def EffectiveStatus.ofRecords (records : List Record) : EffectiveStatus :=
  match records.find? (·.status.isFailed) with
  | some member => .failed member.status
  | none =>
    if records.any (·.status = .active) then .active
    else
      match records.getLast?.bind (·.commitTs) with
      | some ts => .committed ts
      | none => .active

namespace EffectiveStatus

theorem exists_failed_iff {records : List Record} :
    (∃ status, ofRecords records = .failed status) ↔ ∃ r ∈ records, r.status.isFailed = true := by
  unfold ofRecords
  constructor
  · rintro ⟨status, h⟩
    split at h
    · rename_i failed hfailed
      exact ⟨failed, List.mem_of_find?_eq_some hfailed, by simpa using List.find?_some hfailed⟩
    · split at h
      · cases h
      · split at h <;> cases h
  · rintro ⟨r, hr, hfailed⟩
    cases hfind : records.find? (·.status.isFailed) with
    | some failed => exact ⟨failed.status, rfl⟩
    | none => exact absurd hfailed (List.find?_eq_none.1 hfind r hr)

theorem eq_committed_iff {records : List Record} {ts : Timestamp} :
    ofRecords records = .committed ts ↔
      (∀ r ∈ records, r.status = .committed) ∧ records.getLast?.bind (·.commitTs) = some ts := by
  unfold ofRecords
  constructor
  · intro h
    split at h
    · cases h
    · rename_i hfailed
      split at h
      · cases h
      · rename_i hactive
        split at h
        · rename_i hlast
          cases h
          refine ⟨?_, hlast⟩
          intro r hr
          have hsound : r.status.isFailed = false := by
            simpa using List.find?_eq_none.1 hfailed r hr
          rcases Status.isFailed_eq_false_iff.1 hsound with hopen | hcommitted
          · exact absurd (List.any_eq_true.2 ⟨r, hr, by simpa using hopen⟩) hactive
          · exact hcommitted
        · cases h
  · rintro ⟨hcommitted, hlast⟩
    have hfailed : records.find? (·.status.isFailed) = none := by
      rw [List.find?_eq_none]
      intro r hr
      simp [hcommitted r hr, Status.isFailed]
    have hactive : records.any (·.status = .active) = false := by
      rw [List.any_eq_false]
      intro r hr
      simp [hcommitted r hr]
    simp [hfailed, hactive, hlast]

end EffectiveStatus

namespace Registry

variable {t t' : Table} {id : Timestamp}

/-- Every record lies under its own id, was committed after it began, and lists as its ancestors
a recorded transaction that began earlier and that one's ancestors. -/
structure Sound (t : Table) : Prop where
  named {id : Timestamp} {record : Record} : t.get? id = some record → record.id = id
  committed {id : Timestamp} {record : Record} : t.get? id = some record →
    record.status = .committed → ∃ ts, record.commitTs = some ts ∧ id < ts
  linked {id parent : Timestamp} {record : Record} {rest : List Timestamp} :
    t.get? id = some record → record.ancestors = parent :: rest →
      parent < id ∧ ∃ above, t.get? parent = some above ∧ above.ancestors = rest

theorem sound_empty : Sound .empty :=
  ⟨nofun, nofun, nofun⟩

/-- A child that begins under a recorded parent keeps the table sound. -/
theorem Sound.insert_begun {parent : Option Handle} {isolation : Isolation} {fresh : Record}
    (h : Sound t) (hbegins : Begins t id parent isolation fresh)
    (hrecorded : ∀ p, parent = some p → ∃ above, t.get? p.id = some above ∧ above.toHandle = p) :
    Sound (t.insert id fresh) := by
  have hold : ∀ {k record}, t.get? k = some record → (t.insert id fresh).get? k = some record := by
    intro k record hfound
    rw [SortedMap.get?_insert_of_ne, hfound]
    rintro rfl
    simp [hbegins.unused] at hfound
  constructor
  · intro k record hfound
    rcases SortedMap.eq_or_get?_of_insert hfound with ⟨rfl, rfl⟩ | hfound
    · exact hbegins.named
    · exact h.named hfound
  · intro k record hfound hcommitted
    rcases SortedMap.eq_or_get?_of_insert hfound with ⟨rfl, rfl⟩ | hfound
    · simp [hbegins.status] at hcommitted
    · exact h.committed hfound hcommitted
  · intro k up record rest hfound hancestors
    rcases SortedMap.eq_or_get?_of_insert hfound with ⟨rfl, rfl⟩ | hfound
    · have hbelow := hbegins.chained
      rw [hancestors] at hbelow
      refine ⟨Record.lt_of_chainFault?_eq_none hbelow, ?_⟩
      cases parent with
      | none => simp [hbegins.topLevel rfl] at hancestors
      | some p =>
        rcases hrecorded p rfl with ⟨above, hfound, rfl⟩
        have hlist := (hbegins.nested _ rfl).1
        rw [hancestors, List.cons.injEq] at hlist
        rcases hlist with ⟨rfl, rfl⟩
        exact ⟨above, hold hfound, rfl⟩
    · rcases h.linked hfound hancestors with ⟨hbelow, above, habove, hrest⟩
      exact ⟨hbelow, above, hold habove, hrest⟩

/-- A settlement keeps the table sound. -/
theorem Sound.insert_closed {old new : Record} {outcome : Outcome} (h : Sound t)
    (hold : t.get? id = some old) (hcloses : Record.Closes old outcome new) :
    Sound (t.insert id new) := by
  have hhandle := hcloses.handle
  have habove : ∀ {parent above rest}, t.get? parent = some above → above.ancestors = rest →
      ∃ above', (t.insert id new).get? parent = some above' ∧ above'.ancestors = rest := by
    intro parent above rest hfound hrest
    rcases (extends_insert_of_closes hold hcloses).kept hfound with ⟨above', hfound', hsame⟩
    exact ⟨above', hfound', by rw [hsame, hrest]⟩
  constructor
  · intro k record hfound
    rcases SortedMap.eq_or_get?_of_insert hfound with ⟨rfl, rfl⟩ | hfound
    · rw [hhandle, h.named hold]
    · exact h.named hfound
  · intro k record hfound hcommitted
    rcases SortedMap.eq_or_get?_of_insert hfound with ⟨rfl, rfl⟩ | hfound
    · rcases Outcome.eq_commit_of_status (hcloses.status.symm.trans hcommitted) with ⟨ts, rfl⟩
      refine ⟨ts, hcloses.commitTs, ?_⟩
      rw [← h.named hold]
      exact hcloses.follows ts rfl
    · exact h.committed hfound hcommitted
  · intro k parent record rest hfound hancestors
    rcases SortedMap.eq_or_get?_of_insert hfound with ⟨rfl, rfl⟩ | hfound
    · rw [hhandle] at hancestors
      rcases h.linked hold hancestors with ⟨hbelow, above, hparent, hrest⟩
      exact ⟨hbelow, habove hparent hrest⟩
    · rcases h.linked hfound hancestors with ⟨hbelow, above, hparent, hrest⟩
      exact ⟨hbelow, habove hparent hrest⟩

/-- Every commit time in the table lies below the values that are never issued. -/
def Bounded (t : Table) : Prop :=
  ∀ id record ts, t.get? id = some record → record.status = .committed →
    record.commitTs = some ts → ts < Timestamp.limit

/-! ## Lineages -/

/-- The record of a transaction followed by those of its ancestors, the nearest first. -/
inductive Lineage (t : Table) : Timestamp → List Record → Prop
  | topLevel {id : Timestamp} {record : Record} : t.get? id = some record →
      record.ancestors = [] → Lineage t id [record]
  | nested {id parent : Timestamp} {record above : Record} {records : List Record} :
      t.get? id = some record → record.ancestors = parent :: above.ancestors → parent < id →
      Lineage t parent (above :: records) → Lineage t id (record :: above :: records)

theorem Lineage.get? {record : Record} {records : List Record}
    (h : Lineage t id (record :: records)) : t.get? id = some record := by
  cases h <;> assumption

theorem Lineage.ne_nil {records : List Record} (h : Lineage t id records) : records ≠ [] := by
  cases h <;> simp

theorem Sound.exists_lineage (h : Sound t) {record : Record} (hfound : t.get? id = some record) :
    ∃ records, Lineage t id (record :: records) := by
  -- the ancestors of an ancestor are a shorter list
  generalize hancestors : record.ancestors = ancestors
  induction ancestors generalizing id record with
  | nil => exact ⟨[], .topLevel hfound hancestors⟩
  | cons parent rest ih =>
    rcases h.linked hfound hancestors with ⟨hbelow, above, habove, hrest⟩
    rcases ih habove hrest with ⟨records, hlineage⟩
    exact ⟨above :: records, .nested hfound (by rw [hancestors, hrest]) hbelow hlineage⟩

/-- Ancestors began earlier. -/
theorem Sound.lt_of_mem_ancestors (h : Sound t) {record : Record}
    (hfound : t.get? id = some record) {ancestor : Timestamp}
    (hancestor : ancestor ∈ record.ancestors) : ancestor < id := by
  generalize hancestors : record.ancestors = ancestors at hancestor
  induction ancestors generalizing id record with
  | nil => cases hancestor
  | cons parent rest ih =>
    rcases h.linked hfound hancestors with ⟨hbelow, above, habove, hrest⟩
    rcases List.mem_cons.1 hancestor with rfl | hancestor
    · exact hbelow
    · exact lt_trans (ih habove hrest hancestor) hbelow

theorem Lineage.unique {l l' : List Record} (h : Lineage t id l) (h' : Lineage t id l') :
    l = l' := by
  induction h generalizing l' with
  | topLevel hfound hancestors =>
    cases h' with
    | topLevel hfound' _ => simp_all
    | nested hfound' hancestors' _ _ => simp_all
  | nested hfound hancestors _ _ ih =>
    cases h' with
    | topLevel hfound' hancestors' => simp_all
    | nested hfound' hancestors' _ hrest' =>
      rw [hfound, Option.some.injEq] at hfound'
      subst hfound'
      rw [hancestors, List.cons.injEq] at hancestors'
      rcases hancestors' with ⟨rfl, _⟩
      rw [ih hrest']

/-- Every member of a lineage is recorded. -/
theorem Lineage.get?_of_mem (h : Sound t) {records : List Record} (hlineage : Lineage t id records)
    {r : Record} (hr : r ∈ records) : t.get? r.id = some r := by
  induction hlineage with
  | topLevel hfound _ =>
    obtain rfl := List.mem_singleton.1 hr
    rw [h.named hfound, hfound]
  | nested hfound _ _ _ ih =>
    rcases List.mem_cons.1 hr with rfl | hr
    · rw [h.named hfound, hfound]
    · exact ih hr

/-- The ids of a lineage are those that its first record lists. -/
theorem Lineage.map_id (h : Sound t) {record : Record} {records : List Record}
    (hlineage : Lineage t id (record :: records)) :
    records.map (·.id) = record.ancestors := by
  generalize hall : record :: records = all at hlineage
  induction hlineage generalizing record records with
  | topLevel _ hancestors =>
    cases hall
    exact hancestors.symm
  | nested _ hancestors _ hrest ih =>
    cases hall
    rw [hancestors, List.map_cons, h.named hrest.get?, ih rfl]

/-- The lineage of an ancestor is the end of one's own. -/
theorem Lineage.isSuffix_of_mem (h : Sound t) {l l' : List Record} (hlineage : Lineage t id l)
    {ancestor : Timestamp} (hancestor : ancestor ∈ l.map (·.id))
    (hlineage' : Lineage t ancestor l') : l' <:+ l := by
  induction hlineage with
  | topLevel hfound hancestors =>
    rw [List.map_singleton, List.mem_singleton, h.named hfound] at hancestor
    subst hancestor
    obtain rfl := hlineage'.unique (.topLevel hfound hancestors)
    exact List.suffix_refl _
  | nested hfound hancestors hbelow hrest ih =>
    rw [List.map_cons, List.mem_cons, h.named hfound] at hancestor
    rcases hancestor with rfl | hancestor
    · obtain rfl := hlineage'.unique (.nested hfound hancestors hbelow hrest)
      exact List.suffix_refl _
    · exact (ih hancestor).trans (List.suffix_cons ..)

/-- The lineage of a transaction as the table tells it. -/
def lineage (t : Table) (id : Timestamp) : List Record :=
  match t.get? id with
  | none => []
  | some record => record :: record.ancestors.filterMap t.get?

theorem Lineage.eq_lineage {records : List Record} (hlineage : Lineage t id records) :
    records = lineage t id := by
  induction hlineage with
  | topLevel hfound hancestors => simp [lineage, hfound, hancestors]
  | nested hfound hancestors _ hrest ih =>
    have habove := hrest.get?
    rw [lineage, habove, List.cons.injEq] at ih
    simp [lineage, hfound, hancestors, habove, ← ih.2]

/-- A recorded transaction has its lineage. -/
theorem Sound.lineage (h : Sound t) {record : Record} (hfound : t.get? id = some record) :
    Lineage t id (lineage t id) := by
  rcases h.exists_lineage hfound with ⟨records, hlineage⟩
  rwa [← hlineage.eq_lineage]

/-- A lineage whose members are all settled is final. -/
theorem Lineage.of_extends (hextends : Extends t t') {records : List Record}
    (hlineage : Lineage t id records) (hterminal : ∀ r ∈ records, r.status.isTerminal = true) :
    Lineage t' id records := by
  induction hlineage with
  | topLevel hfound hancestors =>
    exact .topLevel (hextends.terminal hfound (hterminal _ List.mem_cons_self)) hancestors
  | nested hfound hancestors hbelow _ ih =>
    have hrest := ih fun r hr => hterminal r (List.mem_cons_of_mem _ hr)
    exact .nested (hextends.terminal hfound (hterminal _ List.mem_cons_self)) hancestors hbelow
      hrest

/-- A settled member of a lineage remains one of its members. -/
theorem Lineage.mem_of_extends (hextends : Extends t t') {l l' : List Record}
    (hlineage : Lineage t id l) (hlineage' : Lineage t' id l') {r : Record} (hr : r ∈ l)
    (hterminal : r.status.isTerminal = true) : r ∈ l' := by
  induction hlineage generalizing l' with
  | topLevel hfound _ =>
    obtain rfl := List.mem_singleton.1 hr
    have hfound' := hextends.terminal hfound hterminal
    cases hlineage' with
    | topLevel hsame _ => simp_all
    | nested hsame _ _ _ => simp_all
  | nested hfound hancestors _ hrest ih =>
    rcases List.mem_cons.1 hr with rfl | hr
    · have hfound' := hextends.terminal hfound hterminal
      cases hlineage' with
      | topLevel hsame _ => simp_all
      | nested hsame _ _ _ => simp_all
    · rcases hextends.kept hfound with ⟨record', hfound', hhandle⟩
      cases hlineage' with
      | topLevel hsame htop =>
        rw [hfound', Option.some.injEq] at hsame
        rw [← hsame, hhandle, hancestors] at htop
        cases htop
      | nested hsame hancestors' _ hrest' =>
        rw [hfound', Option.some.injEq] at hsame
        rw [← hsame, hhandle, hancestors, List.cons.injEq] at hancestors'
        rcases hancestors' with ⟨rfl, _⟩
        exact List.mem_cons_of_mem _ (ih hrest' hr)

/-- Once a lineage is committed it stays so, with its time, and once it has failed it stays
failed. -/
theorem Lineage.settled_final (hextends : Extends t t') {l l' : List Record}
    (hlineage : Lineage t id l) (hlineage' : Lineage t' id l') :
    (∀ ts, EffectiveStatus.ofRecords l = .committed ts →
        EffectiveStatus.ofRecords l' = .committed ts) ∧
      ((∃ status, EffectiveStatus.ofRecords l = .failed status) →
        ∃ status, EffectiveStatus.ofRecords l' = .failed status) := by
  constructor
  · intro ts hcommitted
    have hall := (EffectiveStatus.eq_committed_iff.1 hcommitted).1
    have hsame : Lineage t' id l := by
      apply hlineage.of_extends hextends
      intro r hr
      rw [hall r hr]
      rfl
    rwa [hlineage'.unique hsame]
  · intro hfailed
    rcases EffectiveStatus.exists_failed_iff.1 hfailed with ⟨r, hr, hfail⟩
    have hterminal : r.status.isTerminal = true := by
      rcases Status.isFailed_iff.1 hfail with hstatus | hstatus <;> rw [hstatus] <;> rfl
    exact EffectiveStatus.exists_failed_iff.2
      ⟨r, hlineage.mem_of_extends hextends hlineage' hr hterminal, hfail⟩

end Registry

end SnapshotIsolation
