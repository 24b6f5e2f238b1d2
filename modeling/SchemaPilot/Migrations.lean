import SchemaPilot.Ddl
import SchemaPilot.Runs

namespace SchemaPilot.Migrations

open Ddl Runs

structure MigrationFile where
  name : String
  statements : List Statement

/-- The objects of the database, and the rows of `runtime_schema_migrations`. -/
structure Db where
  objects : Finset DbObject
  recorded : List String

/-- The errors after which a file counts as applied. -/
def alreadyApplied (e : SqlError) : Bool := e = .DuplicateObject || e = .DuplicateTable

/-- One turn of the loop of `main`. -/
def applyFile (db : Db) (file : MigrationFile) : Except SqlError Db :=
  if file.name ∈ db.recorded then .ok db
  else
    match execute file.statements db.objects with
    | .ok objects => .ok { objects, recorded := db.recorded ++ [file.name] }
    | .error e =>
      -- the rollback undoes the statements before the one that failed
      if alreadyApplied e then .ok { db with recorded := db.recorded ++ [file.name] }
      else .error e

def main (db : Db) : List MigrationFile → Db × Option SqlError
  | [] => (db, none)
  | file :: files =>
    match applyFile db file with
    | .ok db => main db files
    | .error e => (db, some e)

section Machine

/-- The database, and the files that the run in progress has not come to. -/
structure State where
  db : Db
  pending : List MigrationFile

/-- A run starts with the files that it finds, takes the next one, or ends before the last one. -/
inductive Action where
  | start (files : List MigrationFile)
  | next
  | stop

def step (s : State) : Action → Option State
  | .start files => if s.pending.isEmpty then some { s with pending := files } else none
  | .next =>
    match s.pending with
    | [] => none
    | file :: files =>
      match applyFile s.db file with
      | .ok db => some { db, pending := files }
      | .error _ => some { s with pending := [] }
  | .stop => some { s with pending := [] }

/-- A row of `runtime_schema_migrations` when it is written. -/
structure Recording where
  file : MigrationFile
  before : Finset DbObject
  after : Finset DbObject
  executed : Bool

def recording (db : Db) (file : MigrationFile) : Option Recording :=
  if file.name ∈ db.recorded then none
  else
    match execute file.statements db.objects with
    | .ok objects => some { file, before := db.objects, after := objects, executed := true }
    | .error e =>
      if alreadyApplied e then some { file, before := db.objects, after := db.objects, executed := false }
      else none

def marks (s : State) : Action → List Recording
  | .next => (s.pending.head?.bind (recording s.db)).toList
  | .start _ | .stop => []

/-- A run of the script is a run of the machine. -/
theorem reachable_main {start : State} {db : Db} {files : List MigrationFile}
    (h : Reachable step always start { db, pending := files }) :
    Reachable step always start { db := (main db files).1, pending := [] } := by
  induction files generalizing db with
  | nil => exact h
  | cons file files ih =>
    rw [main]
    cases happly : applyFile db file with
    | ok db' =>
      refine ih (h.step (a := .next) trivial ?_)
      simp only [step, happly]
    | error e =>
      refine h.step (a := .next) trivial ?_
      simp only [step, happly]

end Machine

/-- The objects that the file creates exist when it is recorded. -/
def Recording.Backed (r : Recording) : Prop := ∀ o ∈ creates r.file.statements, o ∈ r.after

def executions (name : String) (rs : List Recording) : Nat :=
  rs.countP (fun r => r.executed && r.file.name == name)

/-- A file that runs through keeps what it creates, and one that does not finds all of it there. -/
def Fits (objects : Finset DbObject) (statements : List Statement) : Prop :=
  match execute statements objects with
  | .ok _ => ∀ o ∈ creates statements, Keeps (visits statements objects) o
  | .error _ => ∀ o ∈ creates statements, o ∈ objects

instance (objects : Finset DbObject) (statements : List Statement) : Decidable (Fits objects statements) :=
  match h : execute statements objects with
  | .ok _ => decidable_of_iff (∀ o ∈ creates statements, Keeps (visits statements objects) o) (by rw [Fits, h])
  | .error _ => decidable_of_iff (∀ o ∈ creates statements, o ∈ objects) (by rw [Fits, h])

instance (r : Recording) : Decidable r.Backed :=
  inferInstanceAs (Decidable (∀ o ∈ creates r.file.statements, o ∈ r.after))

theorem recording_cases {db : Db} {file : MigrationFile} {r : Recording}
    (h : recording db file = some r) :
    r.file = file ∧ r.before = db.objects ∧ file.name ∉ db.recorded ∧
      applyFile db file = .ok { objects := r.after, recorded := db.recorded ++ [file.name] } ∧
      (r.Backed ↔ Fits r.before file.statements) := by
  rw [recording] at h
  rw [applyFile]
  split at h
  · cases h
  · next hnew =>
    rw [if_neg hnew]
    cases hexecute : execute file.statements db.objects with
    | ok objects =>
      simp only [hexecute, Option.some.injEq] at h
      subst h
      refine ⟨rfl, rfl, hnew, rfl, ?_⟩
      simp only [Fits, hexecute]
      exact forall₂_congr fun o ho => mem_execute_iff hexecute ho
    | error e =>
      simp only [hexecute] at h
      split at h
      · next hdup =>
        obtain rfl := Option.some.inj h
        refine ⟨rfl, rfl, hnew, if_pos hdup, ?_⟩
        simp only [Fits, hexecute]
        rfl
      · cases h

/-- A file that leaves no recording leaves the database as it is. -/
theorem applyFile_of_recording_none {db db' : Db} {file : MigrationFile}
    (h : recording db file = none)
    (happly : applyFile db file = .ok db') : db' = db := by
  rw [recording] at h
  rw [applyFile] at happly
  split at h
  · next hold =>
    rw [if_pos hold] at happly
    exact (Except.ok.inj happly).symm
  · next hnew =>
    rw [if_neg hnew] at happly
    cases hexecute : execute file.statements db.objects with
    | ok objects =>
      simp only [hexecute] at h
      cases h
    | error e =>
      simp only [hexecute] at h happly
      split at h
      · cases h
      · next hno =>
        rw [if_neg hno] at happly
        cases happly

/-- The rows that the runs have written, and which of them are backed. -/
structure Written (start : Db) (p : State × List Recording) : Prop where
  recorded : p.1.db.recorded = start.recorded ++ p.2.map (fun r => r.file.name)
  nodup : (p.2.map (fun r => r.file.name)).Nodup
  backed : ∀ r ∈ p.2, r.Backed ↔ Fits r.before r.file.statements

theorem written_next {start : Db} {db : Db} {files : List MigrationFile} {rs : List Recording}
    {file : MigrationFile} (h : Written start ({ db, pending := file :: files }, rs)) {s' : State}
    (hs : step { db, pending := file :: files } .next = some s') :
    Written start (s', rs ++ (recording db file).toList) := by
  simp only [step] at hs
  cases hr : recording db file with
  | none =>
    rw [Option.toList_none, List.append_nil]
    cases happly : applyFile db file with
    | ok db' =>
      rw [happly] at hs
      obtain rfl := Option.some.inj hs
      obtain rfl := applyFile_of_recording_none hr happly
      exact ⟨h.recorded, h.nodup, h.backed⟩
    | error e =>
      rw [happly] at hs
      obtain rfl := Option.some.inj hs
      exact ⟨h.recorded, h.nodup, h.backed⟩
  | some r =>
    obtain ⟨hfile, -, hnew, happly, hbacked⟩ := recording_cases hr
    rw [happly] at hs
    obtain rfl := Option.some.inj hs
    have hfresh : file.name ∉ rs.map (fun r => r.file.name) :=
      fun hmem => hnew (h.recorded ▸ List.mem_append_right _ hmem)
    refine ⟨?_, ?_, forall_mem_concat h.backed (hfile ▸ hbacked)⟩
    · have hold : db.recorded = start.recorded ++ rs.map (fun r => r.file.name) := h.recorded
      rw [Option.toList_some, List.map_append, List.map_singleton, hfile, ← List.append_assoc, ← hold]
    · rw [Option.toList_some, List.map_append, List.map_singleton, hfile, ← List.concat_eq_append]
      exact h.nodup.concat hfresh

theorem written_reachable {db : Db} {p : State × List Recording}
    (h : Reachable (traced step marks) always ({ db, pending := [] }, []) p) : Written db p := by
  refine h.invariant ⟨(List.append_nil _).symm, List.nodup_nil, nofun⟩ ?_
  rintro ⟨s, rs⟩ a p' hw - hs
  obtain ⟨s', hstep, rfl⟩ := Option.map_eq_some_iff.mp hs
  cases a with
  | start files =>
    rw [step] at hstep
    split at hstep
    · obtain rfl := Option.some.inj hstep
      rw [marks, List.append_nil]
      exact ⟨hw.recorded, hw.nodup, hw.backed⟩
    · cases hstep
  | next =>
    obtain ⟨db', _ | ⟨file, files⟩⟩ := s
    · cases hstep
    · exact written_next hw hstep
  | stop =>
    obtain rfl := Option.some.inj hstep
    rw [marks, List.append_nil]
    exact ⟨hw.recorded, hw.nodup, hw.backed⟩

theorem executions_le_one {rs : List Recording} (h : (rs.map (fun r => r.file.name)).Nodup)
    (name : String) :
    executions name rs ≤ 1 := by
  have hcount : executions name rs ≤ (rs.map (fun r => r.file.name)).count name := by
    rw [executions, List.count, List.countP_map]
    exact List.countP_mono_left fun r _ hr => (Bool.and_eq_true_iff.mp hr).2
  exact hcount.trans (List.nodup_iff_count_le_one.mp h name)

/-- The recordings of any sequence of runs are the rows that it adds. No file is executed twice, and
what a file creates exists when it is recorded, exactly if every file that is recorded fits. -/
theorem recorded_backed_iff (db : Db) (p : State × List Recording)
    (h : Reachable (traced step marks) always ({ db, pending := [] }, []) p) :
    p.1.db.recorded = db.recorded ++ p.2.map (fun r => r.file.name) ∧
      (((∀ r ∈ p.2, r.Backed) ∧ ∀ name, executions name p.2 ≤ 1) ↔
        ∀ r ∈ p.2, Fits r.before r.file.statements) := by
  have hw := written_reachable h
  refine ⟨hw.recorded, ?_⟩
  rw [and_iff_left (executions_le_one hw.nodup)]
  exact forall₂_congr hw.backed

/-- A database with the snapshot table, and one constraint on it. -/
def snapshotTable (constraint : String) : Db where
  objects := {⟨.relation, "schema_snapshots"⟩, ⟨.column, "schema_snapshots.fingerprint"⟩,
    ⟨.relation, constraint⟩}
  recorded := []

/-- The statements of migration 002. -/
def fingerprintUnique : MigrationFile where
  name := "002_runtime_snapshot_endpoint_fingerprint_unique.sql"
  statements :=
    let table : DbObject := ⟨.relation, "schema_snapshots"⟩
    let id : DbObject := ⟨.column, "schema_snapshots.id"⟩
    let fingerprint : DbObject := ⟨.column, "schema_snapshots.fingerprint"⟩
    [.drop ⟨.relation, "schema_snapshots_pkey"⟩ true [table] [], .create id [] true [table] [], .alter [table, id],
      .alter [table, id], .create ⟨.relation, "schema_snapshots_pkey"⟩ [] false [table, id] [],
      .alter [table, fingerprint],
      .create ⟨.relation, "uq_schema_snapshots_endpoint_fingerprint"⟩ [] false [table, fingerprint] []]

theorem recorded_backed_iff_002 :
    ∃ p, Reachable (traced step marks) always
        ({ db := snapshotTable "schema_snapshots_pkey", pending := [] }, []) p ∧
      p.1.db.recorded = [fingerprintUnique.name] ∧ executions fingerprintUnique.name p.2 = 1 ∧
      ∀ r ∈ p.2, r.Backed := by
  obtain ⟨p, hp⟩ : ∃ p, run (traced step marks) always
      ({ db := snapshotTable "schema_snapshots_pkey", pending := [] }, [])
      [.start [fingerprintUnique], .next] = some p := ⟨_, rfl⟩
  have hreachable := reachable_run (traced step marks) always .start hp
  obtain rfl := Option.some.inj hp
  refine ⟨_, hreachable, by decide +kernel, by decide +kernel, ?_⟩
  exact ((recorded_backed_iff _ _ hreachable).2.mpr (by decide +kernel)).1

/-- A table of migration 001, with what is made with it. -/
def createSnapshots : Statement :=
  .create ⟨.relation, "schema_snapshots"⟩
    [⟨.column, "schema_snapshots.id"⟩, ⟨.column, "schema_snapshots.endpoint_id"⟩,
      ⟨.column, "schema_snapshots.fingerprint"⟩, ⟨.column, "schema_snapshots.normalized_schema"⟩,
      ⟨.column, "schema_snapshots.is_active_baseline"⟩, ⟨.column, "schema_snapshots.created_at"⟩,
      ⟨.relation, "schema_snapshots_pkey"⟩, ⟨.relation, "schema_snapshots_endpoint_id_fingerprint_key"⟩]
    true [] [⟨.relation, "api_endpoints"⟩]

/-- The file makes the table with all its parts, and is skipped as a whole where the table is there
without them. -/
example :
    Fits {⟨.relation, "api_endpoints"⟩} [createSnapshots] ∧
      ¬Fits (snapshotTable "schema_snapshots_pkey").objects [createSnapshots] := by
  decide +kernel

/-- The unique constraint of migration 002 exists, and the rest of what it creates does not. -/
theorem recorded_without_objects :
    ∃ p, Reachable (traced step marks) always
        ({ db := snapshotTable "uq_schema_snapshots_endpoint_fingerprint", pending := [] }, []) p ∧
      p.1.db.recorded = [fingerprintUnique.name] ∧
      ⟨.relation, "schema_snapshots_pkey"⟩ ∈ creates fingerprintUnique.statements ∧
      ⟨.relation, "schema_snapshots_pkey"⟩ ∉ p.1.db.objects ∧ ¬∀ r ∈ p.2, r.Backed := by
  obtain ⟨p, hp⟩ : ∃ p, run (traced step marks) always
      ({ db := snapshotTable "uq_schema_snapshots_endpoint_fingerprint", pending := [] }, [])
      [.start [fingerprintUnique], .next] = some p := ⟨_, rfl⟩
  have hreachable := reachable_run (traced step marks) always .start hp
  obtain rfl := Option.some.inj hp
  exact ⟨_, hreachable, by decide +kernel⟩

end SchemaPilot.Migrations
