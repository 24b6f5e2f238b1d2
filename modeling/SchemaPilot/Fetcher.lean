import SchemaPilot.MonitorRunner
import Mathlib.Data.List.Infix

namespace SchemaPilot.Fetcher

open MonitorRunner (FetchResult)

/-- What comes of the request to an endpoint. The body is what `response.json()` returns, if it
does not raise. -/
inductive Outcome where
  | response (elapsedMs statusCode size : Nat) (contentType : String) (body : Option Json)
  | timeout (elapsedMs : Nat)
  | requestError (elapsedMs : Nat) (exc text : String)
  deriving DecidableEq

/-- Python's `in` on strings. -/
def isIn (sub text : String) : Bool := sub.toList <:+: text.toList

def fetchEndpoint (timeoutSec : Nat) : Outcome → FetchResult
  | .response elapsedMs statusCode size contentType body =>
    let isJsonCt := isIn "json" contentType || isIn "javascript" contentType
    match body with
    | none =>
      if !isJsonCt && statusCode < 300 then
        { statusCode
          responseTimeMs := elapsedMs
          responseSizeBytes := size
          error := some s!"response is not valid JSON (content-type: {contentType})" }
      else
        { statusCode
          responseTimeMs := elapsedMs
          responseSizeBytes := size
          error := some s!"JSON decode error (status {statusCode})" }
    | some body =>
      if 400 ≤ statusCode then
        { statusCode
          responseTimeMs := elapsedMs
          responseSizeBytes := size
          error := some s!"HTTP {statusCode}" }
      else { statusCode, responseTimeMs := elapsedMs, responseSizeBytes := size, body }
  | .timeout elapsedMs =>
    { statusCode := 0
      responseTimeMs := elapsedMs
      responseSizeBytes := 0
      error := some s!"timeout after {timeoutSec}s" }
  | .requestError elapsedMs exc text =>
    { statusCode := 0
      responseTimeMs := elapsedMs
      responseSizeBytes := 0
      error := some s!"request error: {exc}: {text}" }

/-- The request fails, the body does not parse, or the status is an error. -/
def Outcome.isError : Outcome → Bool
  | .response _ statusCode _ _ (some _) => 400 ≤ statusCode
  | _ => true

/-- The endpoint answers with the JSON value null. -/
def Outcome.isNull : Outcome → Bool
  | .response _ statusCode _ _ (some .null) => statusCode < 400
  | _ => false

theorem append_ne_empty {text text' : String} (h : text ≠ "") : text ++ text' ≠ "" := by
  intro heq
  exact h (String.append_eq_empty_iff.mp heq).1

/-- Every failure comes with a text. -/
theorem error_fetchEndpoint (timeoutSec : Nat) (o : Outcome) :
    (o.isError = false ∧ (fetchEndpoint timeoutSec o).error = none) ∨
      (o.isError = true ∧ ∃ text, (fetchEndpoint timeoutSec o).error = some text ∧ text ≠ "") := by
  cases o with
  | response elapsedMs statusCode size contentType body =>
    cases body with
    | none =>
      refine .inr ⟨rfl, ?_⟩
      simp only [fetchEndpoint]
      split
      · exact ⟨_, rfl, append_ne_empty (append_ne_empty (by decide))⟩
      · exact ⟨_, rfl, append_ne_empty (append_ne_empty (by decide))⟩
    | some body =>
      by_cases h : 400 ≤ statusCode
      · refine .inr ⟨decide_eq_true h, ?_⟩
        simp only [fetchEndpoint, h, if_true]
        exact ⟨_, rfl, append_ne_empty (by decide)⟩
      · exact .inl ⟨decide_eq_false h, by simp only [fetchEndpoint, h, if_false]⟩
  | timeout elapsedMs => exact .inr ⟨rfl, _, rfl, append_ne_empty (append_ne_empty (by decide))⟩
  | requestError elapsedMs exc text =>
    exact .inr ⟨rfl, _, rfl, append_ne_empty (append_ne_empty (append_ne_empty (by decide)))⟩

theorem ok_fetchEndpoint (timeoutSec : Nat) (o : Outcome) :
    (fetchEndpoint timeoutSec o).ok = (!o.isError && !o.isNull) := by
  obtain ⟨hno, herror⟩ | ⟨hyes, text, herror, -⟩ := error_fetchEndpoint timeoutSec o
  · cases o with
    | response elapsedMs statusCode size contentType body =>
      cases body with
      | none => cases hno
      | some body =>
        have hlt : ¬400 ≤ statusCode := of_decide_eq_false hno
        have hbody : (fetchEndpoint timeoutSec
            (.response elapsedMs statusCode size contentType (some body))).body = body := by
          simp only [fetchEndpoint, hlt, if_false]
        rw [FetchResult.ok, herror, hbody, hno]
        cases body <;> simp [Outcome.isNull, not_le.mp hlt]
    | timeout => cases hno
    | requestError => cases hno
  · simp [FetchResult.ok, herror, hyes]

end SchemaPilot.Fetcher
