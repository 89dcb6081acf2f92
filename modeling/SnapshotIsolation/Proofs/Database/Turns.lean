import SnapshotIsolation.Proofs.Database.Opening

/-!
# Turns of a database

A database is opened in its directory, asked and closed; while it is closed, the watermark may be
deleted and the journal may lose its end. Two things carry over from one turn to the next. The least
value that may be issued next, as the authority or the watermark tells it, does not go down unless
the watermark is deleted. And what is said of the registry and its journal holds on, unless bytes of
the journal are lost that matter to it.

Main results:

- Theorem {lit}`DatabaseSite.Guarded.rises`: what one turn does to the least value that may be
  issued next, and to what is issued.
- Theorem {lit}`DatabaseSite.Holds.turn`: what one turn keeps of registry and journal.
-/

namespace SnapshotIsolation

open Authority (floor)
open Engine (Draws)
open Registry (Lasting Mentions)
open Step (after answer)

/-! ## Operations of an open database -/

namespace Database

variable {α : Type} {act : Engine.Action DatabaseSource α} {db : Database}

theorem after_onEngine (act : Engine.Action DatabaseSource α) (db : Database) :
    after (onEngine act) db = { db with engine := after act db.engine } := by
  have hrun := Step.run_eq_ending act db.engine
  exact Step.after_of_run (Step.run_focus_of_ending (Step.run_mapError_of_ending hrun))

theorem answer_onEngine (act : Engine.Action DatabaseSource α) (db : Database) :
    answer (onEngine act) db = (answer act db.engine).mapError .storage := by
  have hrun := Step.run_eq_ending act db.engine
  exact Step.answer_of_run (Step.run_focus_of_ending (Step.run_mapError_of_ending hrun))

end Database

/-- The same way to open a database, but in a directory. -/
def DatabaseConfig.inDirectory (config : DatabaseConfig) : DatabaseConfig :=
  { config with residence := .directory }

theorem DatabaseConfig.residence_inDirectory (config : DatabaseConfig) :
    config.inDirectory.residence = .directory :=
  rfl

namespace DatabaseSite

variable {s s' : DatabaseSite} {db : Database}

/-! ## What happens to a database -/

/-- What happens to a database and to its directory. -/
inductive Turn where
  /-- It is closed, if it is open, and opened in its directory. -/
  | reopen (config : DatabaseConfig)
  | start (isolation : Isolation) (parent : Option Handle)
  | commit (txn : Handle)
  | rollback (txn : Handle)
  | rememberWatermark
  | close
  /-- While it is closed, the watermark's file is deleted. -/
  | loseWatermark
  /-- While it is closed, the journal loses its last bytes. -/
  | cutJournal (lost : Nat)

/-- The site once something was asked of its database, if that is open. -/
def asked {α : Type} (act : Database.Action α) (s : DatabaseSite) : DatabaseSite :=
  { s with database := s.database.map (after act) }

/-- A change of one of the files, if the database is not open. -/
def damaged (file : DatabaseFile) (change : Node → Node) (s : DatabaseSite) : DatabaseSite :=
  if s.database.isSome then s else s.edit file change

/-- The site after a turn. -/
def turn (s : DatabaseSite) : Turn → DatabaseSite
  | .reopen config => after reopen { s with config := config.inDirectory }
  | .start isolation parent => s.asked (Database.start isolation parent)
  | .commit txn => s.asked (Database.commit txn)
  | .rollback txn => s.asked (Database.rollback txn)
  | .rememberWatermark => s.asked Database.rememberWatermark
  | .close => s.close
  | .loseWatermark => s.damaged .watermark Node.remove
  | .cutJournal lost => s.damaged .journal (Node.shorten lost)

/-- The timestamp that is issued in a turn. -/
def issued? (s : DatabaseSite) : Turn → Option Timestamp
  | .start _ _ => s.database.bind fun db => db.engine.drawnByStart
  | .commit txn => s.database.bind fun db => db.engine.drawnByCommit txn
  | _ => none

/-! ## Closing and opening -/

theorem close_of_some (h : s.database = some db) :
    s.close = { s with closed := db.close, database := none } := by
  rw [close, h]

theorem close_of_none (h : s.database = none) : s.close = s := by
  rw [close, h]

theorem database_close (s : DatabaseSite) : s.close.database = none := by
  unfold close
  split
  · rfl
  · assumption

theorem closed_close_congr {s' : DatabaseSite} (hclosed : s.closed = s'.closed)
    (hdatabase : s.database = s'.database) : s.close.closed = s'.close.closed := by
  unfold close
  rw [hdatabase]
  split
  · rfl
  · exact hclosed

theorem turn_reopen_of_run {config : DatabaseConfig} {result : Except DatabaseError Database}
    {d : Directory}
    (h : (Database.openAt config.inDirectory).run s.close.closed = Step.ending result d) :
    s.turn (.reopen config) = ⟨config.inDirectory, d, result.toOption⟩ := by
  have hclosed : ({ s with config := config.inDirectory } : DatabaseSite).close.closed =
      s.close.closed := closed_close_congr rfl rfl
  simp only [turn, Step.after, EStateM.run, reopen, hclosed] at h ⊢
  rw [h]
  cases result <;> rfl

/-- Whether or not a database is opened, its directory is left as opening leaves it. -/
theorem exists_turn_reopen (s : DatabaseSite) (config : DatabaseConfig) :
    ∃ result d, Database.Opening config.inDirectory s.close.closed result d ∧
      s.turn (.reopen config) = ⟨config.inDirectory, d, result.toOption⟩ := by
  rcases Database.run_openAt config.residence_inDirectory s.close.closed with
    ⟨result, d, hrun, hopening⟩
  exact ⟨result, d, hopening, turn_reopen_of_run hrun⟩

/-! ## Asking -/

theorem asked_of_none {α : Type} {act : Database.Action α} (h : s.database = none) :
    s.asked act = s := by
  rcases s with ⟨config, closed, database⟩
  cases h
  rfl

theorem database_asked_of_some {α : Type} (h : s.database = some db)
    (act : Engine.Action DatabaseSource α) :
    (s.asked (Database.onEngine act)).database =
      some { db with engine := after act db.engine } := by
  rw [asked, h, Option.map_some, Database.after_onEngine]

/-! ## The next timestamp -/

/-- The least value that may be issued next. -/
def mark (s : DatabaseSite) : Nat :=
  match s.database with
  | some db => db.engine.source.transport.counter.toNat
  | none => (floor s.closed.watermark).toNat + 1

theorem mark_of_some (h : s.database = some db) :
    s.mark = db.engine.source.transport.counter.toNat := by
  rw [mark, h]

theorem mark_of_none (h : s.database = none) : s.mark = (floor s.closed.watermark).toNat + 1 := by
  rw [mark, h]

/-- An open database has its watermark in a file, and everything on record below what is issued
next. -/
def Guarded (s : DatabaseSite) : Prop :=
  ∀ db, s.database = some db → db.engine.Fenced ∧ Database.OverFile db.engine.source

/-- From one turn to the next the mark does not go down, and a timestamp that was issued lies below
it then. -/
structure Rises (s : DatabaseSite) (issued : Option Timestamp) (s' : DatabaseSite) : Prop where
  guarded : Guarded s'
  mark_le : s.mark ≤ s'.mark
  fresh : ∀ ts, issued = some ts → s.mark ≤ ts.toNat ∧ ts.toNat < s'.mark

theorem Guarded.rises_asked {α : Type} {act : Engine.Action DatabaseSource α}
    {drawn : Database → Option Timestamp} (h : Guarded s)
    (hdraws : ∀ db, s.database = some db → Draws db.engine (drawn db) (after act db.engine)) :
    Rises s (s.database.bind drawn) (s.asked (Database.onEngine act)) := by
  cases hopen : s.database with
  | none =>
    rw [asked_of_none hopen]
    exact ⟨h, Nat.le_refl _, nofun⟩
  | some db =>
    rcases h db hopen with ⟨hfenced, hfile⟩
    have hdraws := hdraws db hopen
    have hasked := database_asked_of_some hopen act
    rcases hdraws.source.advances hfenced.steady with ⟨events, hadvances, hissued⟩
    constructor
    · intro db' hdb'
      rw [hasked, Option.some.injEq] at hdb'
      subst hdb'
      exact ⟨hfenced.of_draws hdraws, hdraws.source.of_preserves
        Database.preserves_overFile_next Database.preserves_overFile_remember hfile⟩
    · rw [mark_of_some hopen, mark_of_some hasked]
      exact hadvances.counter_le
    · intro ts hts
      have hmem := hissued ts hts
      rw [mark_of_some hopen, mark_of_some hasked]
      exact ⟨(hadvances.fresh ts hmem).1, hadvances.below _ hmem⟩

/-- To close a database lets the mark rise to what the watermark's file tells. -/
theorem Guarded.rises_close (h : Guarded s) : Rises s none s.close := by
  have hclosed := database_close s
  refine ⟨by simp [Guarded, hclosed], ?_, nofun⟩
  cases hopen : s.database with
  | none => rw [close_of_none hopen]
  | some db =>
    rcases h db hopen with ⟨hfenced, hfile⟩
    have hfloor : floor s.close.closed.watermark = floor db.engine.source.transport.watermarks := by
      rw [close_of_some hopen]
      exact Database.floor_keepWatermark hfile db.opened
    rw [mark_of_some hopen, mark_of_none hclosed, hfloor, hfenced.steady.floor_eq]
    exact hfenced.steady.counter_le

theorem Guarded.rises_reopen (h : Guarded s) (config : DatabaseConfig) :
    Rises s none (s.turn (.reopen config)) := by
  have hclose := h.rises_close
  have hmark := hclose.mark_le
  rw [mark_of_none (database_close s)] at hmark
  rcases exists_turn_reopen s config with ⟨result, d, hopening, hturn⟩
  rw [hturn]
  cases result with
  | error cause =>
    have hle := Timestamp.le_iff_toNat_le.1 hopening.floor_le
    refine ⟨by simp [Guarded, Except.toOption], ?_, nofun⟩
    exact Nat.le_trans hmark (Nat.succ_le_succ hle)
  | ok db =>
    rcases hopening.fenced with ⟨hfenced, hfile, habove⟩
    refine ⟨?_, Nat.le_trans hmark habove, nofun⟩
    rintro _ ⟨⟩
    exact ⟨hfenced, hfile⟩

theorem damaged_of_isSome (h : s.database.isSome = true) (file : DatabaseFile)
    (change : Node → Node) : s.damaged file change = s :=
  if_pos h

theorem damaged_of_none (h : s.database = none) (file : DatabaseFile) (change : Node → Node) :
    s.damaged file change = { s with closed := s.closed.edit file change } := by
  rw [damaged, h, if_neg (by simp), edit, h]

theorem Guarded.damaged (h : Guarded s) (file : DatabaseFile) (change : Node → Node) :
    Guarded (s.damaged file change) := by
  cases hopen : s.database with
  | none =>
    rw [damaged_of_none hopen]
    simpa [Guarded] using h
  | some db =>
    rw [damaged_of_isSome (by rw [hopen]; rfl)]
    exact h

theorem watermark_edit_journal (change : Node → Node) (d : Directory) :
    (d.edit .journal change).watermark = d.watermark := by
  unfold Directory.edit
  split <;> rfl

theorem journal_edit_watermark (change : Node → Node) (d : Directory) :
    (d.edit .watermark change).journal = d.journal := by
  unfold Directory.edit
  split <;> rfl

theorem Guarded.rises_cutJournal (h : Guarded s) (lost : Nat) :
    Rises s none (s.turn (.cutJournal lost)) := by
  refine ⟨h.damaged _ _, Nat.le_of_eq ?_, nofun⟩
  cases hopen : s.database with
  | none =>
    rw [turn, damaged_of_none hopen, mark_of_none hopen]
    simp only [mark, hopen, watermark_edit_journal]
  | some db => rw [turn, damaged_of_isSome (by rw [hopen]; rfl)]

/-- Unless the watermark is deleted, the mark rises in every turn. -/
theorem Guarded.rises (h : Guarded s) (next : Turn)
    (hkept : next ≠ .loseWatermark ∨ s.database.isSome = true) :
    Rises s (s.issued? next) (s.turn next) := by
  cases next with
  | reopen config => exact h.rises_reopen config
  | start isolation parent =>
    exact h.rises_asked fun db hopen => Engine.draws_start (h db hopen).1.proper isolation parent
  | commit txn =>
    exact h.rises_asked fun db hopen => Engine.draws_commit (h db hopen).1.proper txn
  | rollback txn =>
    have hrises := h.rises_asked fun db hopen =>
      Engine.draws_rollback (h db hopen).1.proper txn
    rwa [Option.bind_fun_none] at hrises
  | rememberWatermark =>
    have hrises := h.rises_asked fun db hopen =>
      Engine.draws_rememberWatermark (h db hopen).1.proper
    rwa [Option.bind_fun_none] at hrises
  | close => exact h.rises_close
  | cutJournal lost => exact h.rises_cutJournal lost
  | loseWatermark =>
    have hopen : s.database.isSome = true := by simpa using hkept
    rw [turn, damaged_of_isSome hopen]
    exact ⟨h, Nat.le_refl _, nofun⟩

theorem Guarded.turn (h : Guarded s) (next : Turn) : Guarded (s.turn next) := by
  cases next with
  | loseWatermark => exact h.damaged _ _
  | _ => exact (h.rises _ (.inl (by simp))).guarded

/-- What an open database has on record lies below the mark. -/
theorem Guarded.lt_mark (h : Guarded s) (hopen : s.database = some db) {old : Timestamp}
    (hold : Mentions db.engine.registry.table old) : old.toNat < s.mark := by
  rw [mark_of_some hopen]
  exact (h db hopen).1.below old hold

/-- No begin finds its own id on record. -/
theorem Guarded.start_ne_alreadyExists (h : Guarded s) (hopen : s.database = some db)
    (isolation : Isolation) (parent : Option Handle) (id : Timestamp) :
    answer (Database.start isolation parent) db ≠
      .error (.storage (.transaction (.alreadyExists id))) := by
  rw [Database.start, Database.answer_onEngine]
  have hnever := (h db hopen).1.start_ne_alreadyExists isolation parent id
  intro hanswer
  cases hstart : answer (Engine.start isolation parent) db.engine with
  | ok handle =>
    rw [hstart] at hanswer
    cases hanswer
  | error cause =>
    rw [hstart] at hanswer
    cases hanswer
    exact hnever hstart

/-! ## The journal -/

variable {O : Registry → Prop} {C : Bytes → Prop}

/-- What is said of open registries holds of the database while it is open, and what is said of the
bytes of closed journals holds of its journal while it is closed. -/
def Holds (O : Registry → Prop) (C : Bytes → Prop) (s : DatabaseSite) : Prop :=
  match s.database with
  | some db => O db.engine.registry
  | none => C (s.closed.journal.content?.getD [])

theorem holds_of_some (h : s.database = some db) : Holds O C s ↔ O db.engine.registry := by
  rw [Holds, h]

theorem holds_of_none (h : s.database = none) :
    Holds O C s ↔ C (s.closed.journal.content?.getD []) := by
  rw [Holds, h]

theorem Holds.asked {α : Type} {act : Engine.Action DatabaseSource α} (h : Holds O C s)
    (hact : Engine.Upholds O act) : Holds O C (s.asked (Database.onEngine act)) := by
  cases hopen : s.database with
  | none =>
    rw [asked_of_none hopen]
    exact h
  | some db =>
    rw [holds_of_some hopen] at h
    exact (holds_of_some (database_asked_of_some hopen act)).2 (hact.after h)

theorem Holds.close (h : Holds O C s) (hlasting : Lasting O C) :
    C (s.close.closed.journal.content?.getD []) := by
  cases hopen : s.database with
  | none =>
    rw [close_of_none hopen]
    exact (holds_of_none hopen).1 h
  | some db =>
    rcases hlasting.closes ((holds_of_some hopen).1 h) with ⟨content, hclose, hcontent⟩
    rw [close_of_some hopen, Database.close, hclose]
    exact hcontent

theorem Holds.reopen (h : Holds O C s) (hlasting : Lasting O C) (config : DatabaseConfig) :
    Holds O C (s.turn (.reopen config)) := by
  rcases exists_turn_reopen s config with ⟨result, d, hopening, hturn⟩
  have hkept := hopening.lasting hlasting (h.close hlasting)
  rw [hturn]
  cases result <;> exact hkept

theorem content_edit_shorten (lost : Nat) (d : Directory) :
    ∃ m, (d.edit .journal (Node.shorten lost)).journal.content?.getD [] =
      (d.journal.content?.getD []).take m := by
  unfold Directory.edit
  split
  · exact ⟨_, (List.take_length ..).symm⟩
  · cases hnode : d.journal with
    | missing => exact ⟨0, rfl⟩
    | directory => exact ⟨0, rfl⟩
    | file content => exact ⟨content.length - lost, rfl⟩

/-- What is said of the bytes of a closed journal holds on if a change of the files spares it. -/
theorem Holds.damaged (h : Holds O C s) (file : DatabaseFile) (change : Node → Node)
    (hspared : C (s.closed.journal.content?.getD []) →
      C ((s.closed.edit file change).journal.content?.getD [])) :
    Holds O C (s.damaged file change) := by
  cases hopen : s.database with
  | none =>
    have hclosed : (s.damaged file change).database = none := by
      rw [damaged_of_none hopen, hopen]
    rw [holds_of_none hopen] at h
    rw [holds_of_none hclosed, damaged_of_none hopen]
    exact hspared h
  | some db =>
    rw [damaged_of_isSome (by rw [hopen]; rfl)]
    exact h

/-- Unless the journal loses bytes that matter, what lasts holds on. -/
theorem Holds.turn (h : Holds O C s) (hlasting : Lasting O C) (next : Turn)
    (hcut : (∀ lost, next ≠ .cutJournal lost) ∨ ∀ content m, C content → C (content.take m)) :
    Holds O C (s.turn next) := by
  cases next with
  | reopen config => exact h.reopen hlasting config
  | start isolation parent =>
    exact h.asked (Engine.upholds_start hlasting.invariant isolation parent)
  | commit txn => exact h.asked (Engine.upholds_commit hlasting.invariant txn)
  | rollback txn =>
    exact h.asked (Engine.upholds_onRegistry (hlasting.invariant.settle txn.id .rollback))
  | rememberWatermark => exact h.asked (Engine.preserves_rememberWatermark fun _ _ he => he)
  | close => exact (holds_of_none (database_close s)).2 (h.close hlasting)
  | loseWatermark =>
    refine h.damaged _ _ fun hkept => ?_
    rwa [journal_edit_watermark]
  | cutJournal lost =>
    have hcut : ∀ content m, C content → C (content.take m) := by
      rcases hcut with hcut | hcut
      · exact absurd rfl (hcut lost)
      · exact hcut
    refine h.damaged _ _ fun hkept => ?_
    rcases content_edit_shorten lost s.closed with ⟨m, hm⟩
    rw [hm]
    exact hcut _ m hkept

end DatabaseSite

end SnapshotIsolation
