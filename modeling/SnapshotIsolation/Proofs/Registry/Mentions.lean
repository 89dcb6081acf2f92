import SnapshotIsolation.Proofs.Registry.Reached

/-!
# Timestamps on record

A table has timestamps on record: the ids of its transactions and the times at which they were
settled. Beginning a transaction adds its id, committing it the commit time, and nothing else adds
any; what is on record stays there.

Main results:

- Theorem {lit}`Registry.Mentions.of_extends`: later tables have the same timestamps on record.
- Theorem {lit}`Registry.Mentions.le_maxTimestamp`: none of them lies above the newest one.
-/

namespace SnapshotIsolation

namespace Registry

variable {t t' : Table} {id ts : Timestamp}

/-- The timestamp is on record: a transaction has it for its id, or was settled at it. -/
def Mentions (t : Table) (ts : Timestamp) : Prop :=
  ∃ id record, t.get? id = some record ∧ (ts = id ∨ record.commitTs = some ts)

theorem mentions_of_insert {new : Record} (h : Mentions (t.insert id new) ts) :
    Mentions t ts ∨ ts = id ∨ new.commitTs = some ts := by
  rcases h with ⟨id', record, hfound, htold⟩
  rcases SortedMap.eq_or_get?_of_insert hfound with ⟨rfl, rfl⟩ | hfound
  · exact .inr htold
  · exact .inl ⟨id', record, hfound, htold⟩

/-- A transaction that begins puts its own id on record. -/
theorem mentions_of_begins {parent : Option Handle} {isolation : Isolation} {fresh : Record}
    (hbegins : Begins t id parent isolation fresh) (h : Mentions (t.insert id fresh) ts) :
    Mentions t ts ∨ ts = id := by
  rcases mentions_of_insert h with h | h | h
  · exact .inl h
  · exact .inr h
  · rw [hbegins.commitTs] at h
    cases h

/-- A transaction that is settled puts its commit time on record, if it has one. -/
theorem mentions_of_closes {old new : Record} {outcome : Outcome} (hproper : Proper t)
    (hold : t.get? id = some old) (hcloses : Record.Closes old outcome new)
    (h : Mentions (t.insert id new) ts) : Mentions t ts ∨ outcome = .commit ts := by
  have hid : Mentions t id := ⟨id, old, hold, .inl rfl⟩
  rcases mentions_of_insert h with h | rfl | h
  · exact .inl h
  · exact .inl hid
  · rw [hcloses.commitTs, Option.some.injEq, hproper.named hold] at h
    subst h
    cases outcome with
    | commit ts => exact .inr rfl
    | rollback => exact .inl hid
    | error => exact .inl hid

/-- What is on record stays on record. -/
theorem Mentions.of_extends (h : Mentions t ts) (hproper : Proper t) (hextends : Extends t t') :
    Mentions t' ts := by
  rcases h with ⟨id, record, hfound, rfl | htold⟩
  · rcases hextends.kept hfound with ⟨record', hfound', _⟩
    exact ⟨ts, record', hfound', .inl rfl⟩
  · have hterminal : record.status.isTerminal = true := by
      refine Status.isTerminal_iff.2 fun hactive => ?_
      rw [hproper.unclosed hfound hactive] at htold
      cases htold
    exact ⟨id, record, hextends.terminal hfound hterminal, .inr htold⟩

/-! ## The newest one -/

/-- The newest timestamp in some records, or an earlier one. -/
def newest (top : Option Timestamp) (records : List Record) : Option Timestamp :=
  records.foldl (fun top record => some (top.elim record.latest (max record.latest))) top

theorem exists_newest_of_some (top : Timestamp) (records : List Record) :
    ∃ top', newest (some top) records = some top' ∧ top ≤ top' := by
  induction records generalizing top with
  | nil => exact ⟨top, rfl, le_rfl⟩
  | cons record records ih =>
    rcases ih (max record.latest top) with ⟨top', hnewest, hle⟩
    exact ⟨top', hnewest, le_trans (le_max_right _ _) hle⟩

theorem exists_newest_of_mem {records : List Record} {record : Record} (h : record ∈ records)
    (top : Option Timestamp) :
    ∃ top', newest top records = some top' ∧ record.latest ≤ top' := by
  induction records generalizing top with
  | nil => cases h
  | cons first records ih =>
    rcases List.mem_cons.1 h with rfl | h
    · rcases exists_newest_of_some (top.elim record.latest (max record.latest)) records with
        ⟨top', hnewest, hle⟩
      refine ⟨top', hnewest, le_trans ?_ hle⟩
      cases top with
      | none => exact le_rfl
      | some ts => exact le_max_left _ _
    · exact ih h _

/-- No timestamp on record lies above the newest one. -/
theorem Mentions.le_maxTimestamp {r : Registry} (h : Mentions r.table ts) (hproper : Proper r.table) :
    ∃ top, r.maxTimestamp = some top ∧ ts ≤ top := by
  rcases h with ⟨id, record, hfound, htold⟩
  have hmem : record ∈ r.table.values :=
    List.mem_map.2 ⟨(id, record), SortedMap.get?_eq_some_iff.1 hfound, rfl⟩
  rcases exists_newest_of_mem hmem none with ⟨top, hnewest, hle⟩
  refine ⟨top, hnewest, le_trans ?_ hle⟩
  have hnamed := hproper.named hfound
  unfold Record.latest
  rcases htold with rfl | htold
  · split
    · exact hnamed ▸ le_max_right _ _
    · exact hnamed ▸ le_rfl
  · rw [htold]
    exact le_max_left _ _

end Registry

end SnapshotIsolation
