import SnapshotIsolation.Database
import SnapshotIsolation.Proofs.Engine.Draws
import SnapshotIsolation.Proofs.Registry.Cuts

/-!
# Opening a database

A database is opened in a directory in three steps: an authority goes on above the watermark, the
registry is replayed from the journal, and its newest timestamp is kept as a floor. Each step may
fail, and what the earlier ones did to the directory stays.

Main results:

- Theorem {lit}`Database.run_openAt`: how opening ends.
- Theorem {lit}`Database.Opening.fenced`: a database that is opened has everything on record below
  what is issued next, which lies above the watermark.
-/

namespace SnapshotIsolation

open Authority (Advances Steady floor)

namespace Database

variable {config : DatabaseConfig} {d d' : Directory} {db : Database}

/-- The source that a database starts with: nothing was asked of it yet. -/
def firstSource (config : DatabaseConfig) (authority : Authority Watermark) : DatabaseSource :=
  Client.connect authority config.timeout

/-- How opening a database in a directory ends. -/
inductive Opening (config : DatabaseConfig) (d : Directory) :
    Except DatabaseError Database → Directory → Prop
  | obstructed : d.obstructed = true → Opening config d (.error (.io .fileExists)) d
  | noAuthority {cause : TimestampError} :
      Authority.recover (Watermark.file d.watermark) config.blockSize = .error cause →
      Opening config d (.error (.timestamp cause)) d
  | noRegistry {authority : Authority Watermark} {cause : StorageError} {slot : FileSlot} :
      Authority.recover (Watermark.file d.watermark) config.blockSize = .ok authority →
      (Registry.openAt config.cacheCapacity).run d.journalSlot = .error cause slot →
      Opening config d (.error (.storage cause)) { d with journal := slot.node }
  | noFloor {authority : Authority Watermark} {r : Registry} {slot : FileSlot} {ts : Timestamp}
      {cause : TimestampError} {source : DatabaseSource} :
      Authority.recover (Watermark.file d.watermark) config.blockSize = .ok authority →
      (Registry.openAt config.cacheCapacity).run d.journalSlot = .ok r slot →
      r.maxTimestamp = some ts →
      (Client.remember ts).run (firstSource config authority) = .error cause source →
      Opening config d (.error (.timestamp cause))
        (keepWatermark source { d with journal := slot.node })
  | opened {authority : Authority Watermark} {r : Registry} {slot : FileSlot}
      {source : DatabaseSource} :
      Authority.recover (Watermark.file d.watermark) config.blockSize = .ok authority →
      (Registry.openAt config.cacheCapacity).run d.journalSlot = .ok r slot →
      (r.maxTimestamp = none ∧ source = firstSource config authority ∨
        ∃ ts, r.maxTimestamp = some ts ∧
          (Client.remember ts).run (firstSource config authority) = .ok () source) →
      Opening config d
        (.ok ⟨⟨source, r, .empty⟩, keepWatermark source { d with journal := slot.node }⟩)
        (keepWatermark source { d with journal := slot.node })

theorem run_openRegistry (h : config.residence = .directory) (d : Directory) :
    (openRegistry config).run d =
      match (Registry.openAt config.cacheCapacity).run d.journalSlot with
      | .ok r slot => .ok r { d with journal := slot.node }
      | .error cause slot => .error (.storage cause) { d with journal := slot.node } := by
  rw [openRegistry, h]
  cases hrun : (Registry.openAt config.cacheCapacity).run d.journalSlot with
  | ok r slot => exact Step.run_mapError_of_ok (Step.run_focus_of_ok hrun)
  | error cause slot => exact Step.run_mapError_of_error (Step.run_focus_of_error hrun)

/-- The newest timestamp on record is kept as a floor, if there is one. -/
theorem run_keepFloor (r : Registry) (source : DatabaseSource) (d : Directory) :
    (keepFloor r source).run d =
      match r.maxTimestamp with
      | none => .ok source d
      | some ts =>
        match (Client.remember ts).run source with
        | .ok () source => .ok source (keepWatermark source d)
        | .error cause source => .error (.timestamp cause) (keepWatermark source d) := by
  unfold keepFloor
  cases r.maxTimestamp with
  | none => rfl
  | some ts =>
    simp only
    cases (Client.remember ts).run source <;> rfl

/-- A source of which nothing was asked has the watermark that it was given. -/
theorem keepWatermark_firstSource {authority : Authority Watermark}
    (h : Authority.recover (Watermark.file d.watermark) config.blockSize = .ok authority) :
    keepWatermark (firstSource config authority) d = d := by
  have hwatermarks : authority.watermarks = .file d.watermark :=
    (Authority.recover_eq_ok h).1
  rw [keepWatermark, firstSource, Client.connect]
  simp only [hwatermarks]

theorem run_assemble (h : config.residence = .directory) (d : Directory) :
    ∃ result d', (assemble config (.file d.watermark)).run d = Step.ending result d' ∧
      Opening config d result d' := by
  unfold assemble
  cases hrecover : Authority.recover (Watermark.file d.watermark) config.blockSize with
  | error cause =>
    exact ⟨_, _, Step.run_bind_of_error (Step.run_ofExcept ..), .noAuthority hrecover⟩
  | ok authority =>
    rw [Step.run_bind_of_ok (Step.run_ofExcept ..)]
    have hregistry := run_openRegistry h d
    cases hopen : (Registry.openAt config.cacheCapacity).run d.journalSlot with
    | error cause slot =>
      rw [hopen] at hregistry
      exact ⟨.error _, _, Step.run_bind_of_error hregistry, .noRegistry hrecover hopen⟩
    | ok r slot =>
      rw [hopen] at hregistry
      rw [Step.run_bind_of_ok hregistry]
      have hfloor := run_keepFloor r (firstSource config authority) { d with journal := slot.node }
      cases hmax : r.maxTimestamp with
      | none =>
        rw [hmax] at hfloor
        have hopened : Opening config d _ _ := .opened hrecover hopen (.inl ⟨hmax, rfl⟩)
        have hsame := keepWatermark_firstSource (d := { d with journal := slot.node }) hrecover
        rw [hsame] at hopened
        exact ⟨_, _, Step.run_bind_of_ok hfloor, hopened⟩
      | some ts =>
        cases hremember : (Client.remember ts).run (firstSource config authority) with
        | error cause source =>
          simp only [hmax, hremember] at hfloor
          exact ⟨.error _, _, Step.run_bind_of_error hfloor, .noFloor hrecover hopen hmax hremember⟩
        | ok _ source =>
          simp only [hmax, hremember] at hfloor
          exact ⟨.ok _, _, Step.run_bind_of_ok hfloor,
            .opened hrecover hopen (.inr ⟨ts, hmax, hremember⟩)⟩

theorem run_openAt (h : config.residence = .directory) (d : Directory) :
    ∃ result d', (openAt config).run d = Step.ending result d' ∧ Opening config d result d' := by
  unfold openAt
  rw [h]
  simp only [EStateM.run_bind, EStateM.run_get]
  cases hobstructed : d.obstructed with
  | true => exact ⟨.error (.io .fileExists), d, rfl, .obstructed hobstructed⟩
  | false => exact run_assemble h d

/-- The source has its watermark in a file. -/
abbrev OverFile (source : DatabaseSource) : Prop := source.transport.watermarks.IsFile

theorem preserves_overFile_next : Step.Preserves OverFile Client.next :=
  Client.preserves_call_attempt (Authority.preserves_next Watermark.preserves_isFile_store) .next

theorem preserves_overFile_remember (ts : Timestamp) :
    Step.Preserves OverFile (Client.remember ts) :=
  Client.preserves_call_attempt (Authority.preserves_remember Watermark.preserves_isFile_store ts)
    .remember

theorem floor_keepWatermark {source : DatabaseSource} (h : OverFile source) (d : Directory) :
    floor (keepWatermark source d).watermark = floor source.transport.watermarks := by
  rcases h with ⟨f, hf⟩
  simp only [keepWatermark, hf]
  rfl

theorem firstSource_cases {authority : Authority Watermark}
    (h : Authority.recover (Watermark.file d.watermark) config.blockSize = .ok authority) :
    OverFile (firstSource config authority) ∧ Steady (firstSource config authority).transport ∧
      floor (firstSource config authority).transport.watermarks = floor d.watermark ∧
      (firstSource config authority).transport.counter.toNat = (floor d.watermark).toNat + 1 := by
  rcases Authority.recover_eq_ok h with ⟨hwatermarks, hsteady, hcounter⟩
  exact ⟨⟨d.watermark, hwatermarks⟩, hsteady, congrArg floor hwatermarks, hcounter⟩

/-- What keeping a floor makes of the source that a database starts with. -/
theorem run_remember_firstSource {authority : Authority Watermark} {ts : Timestamp}
    {result : Except TimestampError Unit} {source : DatabaseSource}
    (hrecover : Authority.recover (Watermark.file d.watermark) config.blockSize = .ok authority)
    (h : (Client.remember ts).run (firstSource config authority) = Step.ending result source) :
    OverFile source ∧ Advances (firstSource config authority).transport
      (result.toOption.toList.map fun _ => .remembered ts) source.transport := by
  rcases firstSource_cases hrecover with ⟨hfile, hsteady, _, _⟩
  have hkept := (preserves_overFile_remember ts).after hfile
  have hadvances := Client.advances_remember hsteady ts
  rw [Step.after_of_run h] at hkept hadvances
  rw [Step.answer_of_run h] at hadvances
  exact ⟨hkept, hadvances⟩

/-- Whether or not opening succeeds, the watermark does not go down. -/
theorem Opening.floor_le {result : Except DatabaseError Database} (h : Opening config d result d') :
    floor d.watermark ≤ floor d'.watermark := by
  have hremembered : ∀ {authority ts source journal} (answered : Except TimestampError Unit),
      Authority.recover (Watermark.file d.watermark) config.blockSize = .ok authority →
      (Client.remember ts).run (firstSource config authority) = Step.ending answered source →
      floor d.watermark ≤
        floor (keepWatermark source { d with journal := journal }).watermark := by
    intro authority ts source journal answered hrecover hrun
    rcases firstSource_cases hrecover with ⟨_, _, hfloor, _⟩
    rcases run_remember_firstSource hrecover hrun with ⟨hfile, hadvances⟩
    rw [floor_keepWatermark hfile, ← hfloor]
    exact hadvances.floor_le
  cases h with
  | obstructed _ => exact le_rfl
  | noAuthority _ => exact le_rfl
  | noRegistry _ _ => exact le_rfl
  | noFloor hrecover _ _ hremember => exact hremembered (.error _) hrecover hremember
  | opened hrecover _ hsource =>
    rcases hsource with ⟨_, rfl⟩ | ⟨ts, _, hremember⟩
    · rcases firstSource_cases hrecover with ⟨hfile, _, hfloor, _⟩
      rw [floor_keepWatermark hfile, hfloor]
    · exact hremembered (.ok ()) hrecover hremember

/-- A database that is opened has its watermark in a file, and everything on record below what is
issued next, which lies above the watermark that was found. -/
theorem Opening.fenced (h : Opening config d (.ok db) d') :
    db.engine.Fenced ∧ OverFile db.engine.source ∧
      (floor d.watermark).toNat < db.engine.source.transport.counter.toNat := by
  cases h with
  | @opened authority r slot source hrecover hopen hsource =>
    rcases firstSource_cases hrecover with ⟨hfile, hsteady, _, hcounter⟩
    have hreached : r.Reached := .opened hopen .here
    rcases hsource with ⟨hmax, rfl⟩ | ⟨top, hmax, hremember⟩
    · refine ⟨⟨hreached.coherent_proper, hsteady, ?_⟩, hfile, ?_⟩
      · intro ts hts
        rcases hts.le_maxTimestamp hreached.proper with ⟨top, htop, _⟩
        rw [hmax] at htop
        cases htop
      · rw [hcounter]
        exact Nat.lt_succ_self _
    · have hrun : (Client.remember top).run (firstSource config authority) =
          Step.ending (.ok ()) source := hremember
      rcases run_remember_firstSource hrecover hrun with ⟨hfile, hadvances⟩
      refine ⟨⟨hreached.coherent_proper, hadvances.steady, ?_⟩, hfile, ?_⟩
      · intro ts hts
        rcases hts.le_maxTimestamp hreached.proper with ⟨top', htop', hle⟩
        rw [hmax, Option.some.injEq] at htop'
        subst htop'
        have htop : top.toNat < source.transport.counter.toNat :=
          hadvances.below _ List.mem_cons_self
        exact Nat.lt_of_le_of_lt (Timestamp.le_iff_toNat_le.1 hle) htop
      · exact Nat.lt_of_lt_of_le (by rw [hcounter]; exact Nat.lt_succ_self _) hadvances.counter_le

/-! ## What is kept of the journal -/

theorem journal_keepWatermark (source : DatabaseSource) (d : Directory) :
    (keepWatermark source d).journal = d.journal := by
  unfold keepWatermark
  split <;> rfl

/-- What lasts of registry and journal holds of the database that is opened, or of the journal that
is left if opening fails. -/
theorem Opening.lasting {O : Registry → Prop} {C : Bytes → Prop}
    {result : Except DatabaseError Database} (h : Opening config d result d')
    (hlasting : Registry.Lasting O C) (hcontent : C (d.journal.content?.getD [])) :
    match result with
    | .ok db => O db.engine.registry
    | .error _ => C (d'.journal.content?.getD []) := by
  have hslot : C (d.journalSlot.node.content?.getD []) := hcontent
  cases h with
  | obstructed _ => exact hcontent
  | noAuthority _ => exact hcontent
  | noRegistry _ hopen => exact hlasting.refuses hslot hopen
  | noFloor _ hopen _ _ =>
    simp only [journal_keepWatermark]
    exact (hlasting.opens hslot hopen).2
  | opened _ hopen _ => exact (hlasting.opens hslot hopen).1

end Database

end SnapshotIsolation
