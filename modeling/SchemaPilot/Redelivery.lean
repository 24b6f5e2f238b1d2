import SchemaPilot.Track

namespace SchemaPilot.Redelivery

open JsonText Digest Canonical Registry Track

variable (sha256 : ByteArray → String) (isPrintable : Char → Bool) (jsonb : Schema → Option Schema)

/-- The call adds a version to the registry. -/
def adds (db : Db) (call : Call) : Bool :=
  match trackContract sha256 isPrintable jsonb db call with
  | .ok (_, result) => result.inserted
  | .error _ => false

/-- The calls that added a version, in their order. -/
def kept (calls : List Call) : List Call :=
  calls.foldl (fun before call =>
    if adds sha256 isPrintable jsonb (runCalls sha256 isPrintable jsonb before) call then before ++ [call]
    else before) []

theorem runCalls_concat (calls : List Call) (call : Call) :
    runCalls sha256 isPrintable jsonb (calls ++ [call]) =
      trackPayload sha256 isPrintable jsonb (runCalls sha256 isPrintable jsonb calls) call :=
  List.foldl_concat _ _ _ _

end SchemaPilot.Redelivery
