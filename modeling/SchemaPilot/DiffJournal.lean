import SchemaPilot.Journal
import SchemaPilot.MonitorHistory
import SchemaPilot.SchemaDiffJoin

namespace SchemaPilot.DiffJournal

open Runs Journal Digest JsonText SchemaInfer SchemaHash SchemaDiff SchemaDiffJoin SnapshotHistory MonitorRuns
  MonitorHistory
open MonitorRunner (SchemaSnapshot Tables driftRows diffRows isFetchError isFetchError_sampleSha256)
open SessionTasks (Config)
open Fetcher (Outcome)

def entry (d : Diff) : Entry String (Option JsonType) := ⟨d.path, d.oldType, d.newType⟩

section Diffs

variable {isPrintable : Char → Bool} {old new : List SchemaNode} {path : String}

end Diffs

section Window

variable {db : Tables} {e after upTo : Nat}

end Window

section Replay

variable {c : Config} {s : State} {refused : List Nat}

end Replay

end SchemaPilot.DiffJournal
