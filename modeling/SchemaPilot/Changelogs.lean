import SchemaPilot.Fetcher

namespace SchemaPilot.Changelogs

open JsonText SchemaDiff SchemaInfer
open MonitorRunner (SchemaSnapshot)
open Fetcher (isIn)

structure Settings where
  sha256 : ByteArray → String
  anthropicApiKey : Option String
  llmModel : String

/-- A row of `schema_diffs`; its id as text. -/
structure DiffRow where
  id : String
  newSnapshotId : Nat
  diff : Diff
  deriving DecidableEq

structure Changelog where
  id : Nat
  endpointId : Nat
  snapshotId : Nat
  diffIds : List String
  diffSetHash : String
  generatedText : String
  modelName : Option String
  createdAt : Nat
  deriving DecidableEq

/-- The committed changelogs, with `uq_changelog_snapshot_diffset`. -/
structure ChangelogTable where
  rows : List Changelog
  unique : (rows.map (fun c => (c.snapshotId, c.diffSetHash))).Nodup

def hashDiffSet (sha256 : ByteArray → String) (diffs : List DiffRow) : String :=
  sha256 (dumpsSorted (.arr ((sortedStrings (diffs.map DiffRow.id)).map .str))).toUTF8

def diffsToCore (diffs : List DiffRow) : List Diff := diffs.map DiffRow.diff

/-- `str.title` of a severity. -/
def title : Severity → String
  | .breaking => "Breaking"
  | .risky => "Risky"
  | .safe => "Safe"

def severitySection (diffs : List Diff) (sev : Severity) : List String :=
  match diffs.filter (fun d => d.severity = sev) with
  | [] => []
  | ds => s!"## {title sev} ({ds.length})" :: ds.map (fun d => s!"- `{d.path}` — {d.message}")

def templateChangelog (diffs : List Diff) : String :=
  "\n".intercalate ([.breaking, .risky, .safe].flatMap (severitySection diffs))

def backtick : Char := Char.ofNat 96

/-- The groups of "`([^`]+)`" from left to right. Inside a match stands what has been read of it;
a backtick that follows another one begins the match anew. -/
def findBackticked : Option (List Char) → List Char → List String
  | _, [] => []
  | none, ch :: text => findBackticked (if ch = backtick then some [] else none) text
  | some [], ch :: text => findBackticked (some (if ch = backtick then [] else [ch])) text
  | some (c :: cs), ch :: text =>
    if ch = backtick then String.ofList (c :: cs) :: findBackticked none text
    else findBackticked (some (c :: cs ++ [ch])) text

def validateLlmOutput (text : String) (diffs : List Diff) : Bool :=
  if text = "" ∨ 4000 < text.length then false
  else if isIn "##" text then
    (findBackticked none text.toList).all fun fp =>
      !(isIn "." fp || isIn "[" fp) || fp ∈ diffs.map Diff.path
  else false

/-- The text of a new changelog with the model that wrote it, given what the language model
answers if it is called. -/
def generatedText (settings : Settings) (diffs : List Diff) (llmText : Option String) :
    String × Option String :=
  if settings.anthropicApiKey.any (· ≠ "") then
    match llmText with
    | some text =>
      if validateLlmOutput text diffs then (text, some settings.llmModel) else (templateChangelog diffs, none)
    | none => (templateChangelog diffs, none)
  else (templateChangelog diffs, none)

/-- A text of the language model names no path that its input does not have. -/
theorem path_of_generatedText {settings : Settings} {diffs : List Diff} {llmText : Option String}
    (h : (generatedText settings diffs llmText).2.isSome) {fp : String}
    (hfp : fp ∈ findBackticked none (generatedText settings diffs llmText).1.toList)
    (hpath : isIn "." fp || isIn "[" fp) : fp ∈ diffs.map Diff.path := by
  unfold generatedText at h hfp
  split at h
  · next hkey =>
    rw [if_pos hkey] at hfp
    split at h
    · next text =>
      split at h
      · next hvalid =>
        dsimp only at hfp
        rw [if_pos hvalid] at hfp
        unfold validateLlmOutput at hvalid
        split at hvalid
        · cases hvalid
        · split at hvalid
          · have hknown := List.all_eq_true.mp hvalid fp hfp
            rw [hpath] at hknown
            exact of_decide_eq_true hknown
          · cases hvalid
      · cases h
    · cases h
  · cases h

/-- The session of a request: the committed changelogs, and those that it has flushed. -/
structure Session where
  committed : ChangelogTable
  flushed : List Changelog := []

def Session.cached (s : Session) (snapshotId : Nat) (diffSetHash : String) : Option Changelog :=
  (s.committed.rows ++ s.flushed).find? (fun c => c.snapshotId = snapshotId ∧ c.diffSetHash = diffSetHash)

/-- `get_session` closes the session, which rolls back what is not committed. -/
def Session.close (s : Session) : ChangelogTable := s.committed

/-- The row, whether the language model was called, and the session. -/
def generateChangelog (settings : Settings) (s : Session) (id now : Nat) (snapshot : SchemaSnapshot)
    (diffRows : List DiffRow) (llmText : Option String) : Changelog × Bool × Session :=
  let diffSetHash := hashDiffSet settings.sha256 diffRows
  match s.cached snapshot.id diffSetHash with
  | some cached => (cached, false, s)
  | none =>
    let (text, modelName) := generatedText settings (diffsToCore diffRows) llmText
    let changelog : Changelog :=
      { id
        endpointId := snapshot.endpointId
        snapshotId := snapshot.id
        diffIds := diffRows.map DiffRow.id
        diffSetHash
        generatedText := text
        modelName
        createdAt := now }
    (changelog, settings.anthropicApiKey.any (· ≠ ""), { s with flushed := s.flushed ++ [changelog] })

def listChangelogs (changelogs : List Changelog) (endpointId limit : Nat) : List Changelog :=
  ((changelogs.filter (fun c => c.endpointId = endpointId)).insertionSort
    (fun c c' => c'.createdAt ≤ c.createdAt)).take limit

/-- A POST with the rows its query gave, whether it called the language model, and its answer. -/
structure Reply where
  snapshotId : Nat
  diffs : List DiffRow
  called : Bool
  result : Except (Nat × String) Changelog

structure World where
  snapshots : List SchemaSnapshot
  diffs : List DiffRow
  changelogs : ChangelogTable
  nextId : Nat
  clock : Nat
  replies : List Reply

def start (snapshots : List SchemaSnapshot) (diffs : List DiffRow) (changelogs : ChangelogTable)
    (nextId clock : Nat) :
    World :=
  ⟨snapshots, diffs, changelogs, nextId, clock, []⟩

inductive Action where
  | generate (snapshotId : Nat) (diffRows : List DiffRow) (llmText : Option String)
  | store (snapshots : List SchemaSnapshot) (diffs : List DiffRow)
  | tick

def World.fail (w : World) (snapshotId : Nat) (diffRows : List DiffRow) (status : Nat)
    (detail : String) : World :=
  { w with replies := w.replies ++ [⟨snapshotId, diffRows, false, .error (status, detail)⟩] }

/-- The handler of the POST. The rows of its query come in any order. -/
def generate (settings : Settings) (w : World) (snapshotId : Nat) (diffRows : List DiffRow)
    (llmText : Option String) : Option World :=
  match w.snapshots.find? (fun r => r.id = snapshotId) with
  | none => some (w.fail snapshotId [] 404 "snapshot not found")
  | some snapshot =>
    if snapshot.nodes = [] then some (w.fail snapshotId [] 422 "snapshot has no schema (fetch failed)")
    else if diffRows.Perm (w.diffs.filter (fun d => d.newSnapshotId = snapshot.id)) then
      if diffRows = [] then some (w.fail snapshotId [] 422 "no diffs found for snapshot")
      else
        let (changelog, called, session) :=
          generateChangelog settings { committed := w.changelogs } w.nextId w.clock snapshot diffRows llmText
        some { w with
          changelogs := session.close
          nextId := w.nextId + 1
          replies := w.replies ++ [⟨snapshotId, diffRows, called, .ok changelog⟩] }
    else none

/-- The monitor stores snapshots and diffs in between. -/
def step (settings : Settings) (w : World) : Action → Option World
  | .generate snapshotId diffRows llmText => generate settings w snapshotId diffRows llmText
  | .store snapshots diffs =>
    some { w with snapshots := w.snapshots ++ snapshots, diffs := w.diffs ++ diffs }
  | .tick => some { w with clock := w.clock + 1 }

end SchemaPilot.Changelogs
