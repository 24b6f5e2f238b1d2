import SchemaPilot.DiffReport
import SchemaPilot.Enqueue

namespace SchemaPilot.SubscriptionRouting

open Classifier DiffReport Webhook Enqueue

/-- The name of a member of `SeverityRank`. -/
def Compatibility.name : Compatibility → String
  | .SAFE => "SAFE"
  | .BACKWARD_COMPATIBLE => "BACKWARD_COMPATIBLE"
  | .FORWARD_COMPATIBLE => "FORWARD_COMPATIBLE"
  | .RISKY => "RISKY"
  | .BREAKING => "BREAKING"

/-- The table that `summarize_classification` orders by is the rank of the names. -/
theorem severityRank_name (c : Compatibility) : severityRank (Compatibility.name c) = c.rank := by
  cases c <;> rfl

/-- The summary reaches a rank exactly if some item does, or the rank is that of `SAFE`. -/
theorem le_summarize_iff (r : Nat) (diffs : List DiffItem) :
    r ≤ (summarizeClassification diffs).rank ↔
      r = 0 ∨ ∃ d ∈ diffs, r ≤ d.classification.rank := by
  constructor
  · intro h
    by_cases hne : diffs = []
    · subst hne
      exact .inl (Nat.le_zero.mp h)
    · obtain ⟨d, hd, hc⟩ := (summarize_spec hne).1
      exact .inr ⟨d, hd, hc ▸ h⟩
  · rintro (rfl | ⟨d, hd, hle⟩)
    · exact Nat.zero_le _
    · exact hle.trans ((summarize_spec (List.ne_nil_of_mem hd)).2 d hd)

/-- A subscription that an event with these changes concerns. -/
structure Concerned (endpointId : Nat) (newVersion : Int) (diffs : List DiffItem)
    (s : Subscription) : Prop where
  endpoint : s.endpointId = endpointId
  active : s.active = true
  version : s.schemaVersion = none ∨ ∃ w, s.schemaVersion = some w ∧ w ≤ newVersion
  threshold : severityRank s.severityThreshold = 0 ∨
    ∃ d ∈ diffs, severityRank s.severityThreshold ≤ severityRank (Compatibility.name d.classification)

variable {subscriptions : List Subscription} {endpointId : Nat} {newVersion : Int}
  {diffs : List DiffItem}

theorem all_le_iff (version : Option Int) (newVersion : Int) :
    version.all (· ≤ newVersion) = true ↔
      version = none ∨ ∃ w, version = some w ∧ w ≤ newVersion := by
  cases version <;> simp

theorem mem_selectAffected {s : Subscription} :
    s ∈ selectAffectedSubscriptions subscriptions endpointId newVersion
        (summarizeClassification diffs) ↔
      s ∈ subscriptions ∧ Concerned endpointId newVersion diffs s := by
  rw [selectAffectedSubscriptions, List.mem_filter, Bool.and_eq_true, Bool.and_eq_true,
    Bool.and_eq_true, decide_eq_true_iff, decide_eq_true_iff, all_le_iff, le_summarize_iff]
  refine and_congr_right fun _ => ⟨?_, ?_⟩
  · rintro ⟨⟨⟨hendpoint, hactive⟩, hversion⟩, hthreshold⟩
    refine ⟨hendpoint, hactive, hversion, ?_⟩
    simpa only [severityRank_name] using hthreshold
  · rintro ⟨hendpoint, hactive, hversion, hthreshold⟩
    refine ⟨⟨⟨hendpoint, hactive⟩, hversion⟩, ?_⟩
    simpa only [severityRank_name] using hthreshold

/-- The summary of the changes routes an event as its items do, to each subscription once. -/
theorem selectAffected_summary (hids : (subscriptions.map Subscription.id).Nodup) :
    let affected := selectAffectedSubscriptions subscriptions endpointId newVersion
      (summarizeClassification diffs)
    (∀ s, s ∈ affected ↔ s ∈ subscriptions ∧ Concerned endpointId newVersion diffs s) ∧
      (affected.map Subscription.id).Nodup :=
  ⟨fun _ => mem_selectAffected, hids.sublist (List.filter_sublist.map _)⟩

def riskyItem : DiffItem where
  path := "score"
  oldType := some "integer"
  newType := some "number"
  oldNullable := some false
  newNullable := some false
  classification := .RISKY
  reason := "int->float widening"

def subscriber (id : Nat) (threshold : String) (version : Option Int) : Subscription where
  id := id
  consumerId := "c1"
  endpointId := 1
  targetUrl := "http://test/webhook"
  severityThreshold := threshold
  schemaVersion := version
  active := true

theorem selectAffected_summary_risky :
    let subscriptions := [subscriber 1 "RISKY" none, subscriber 2 "BREAKING" none,
      subscriber 3 "unheard of" (some (-1)), subscriber 4 "SAFE" (some 3)]
    (selectAffectedSubscriptions subscriptions 1 2
      (summarizeClassification [riskyItem])).map Subscription.id = [1, 3] ∧
    let affected := selectAffectedSubscriptions subscriptions 1 2 (summarizeClassification [riskyItem])
    (∀ s, s ∈ affected ↔ s ∈ subscriptions ∧ Concerned 1 2 [riskyItem] s) ∧
      (affected.map Subscription.id).Nodup :=
  ⟨by decide, selectAffected_summary (by decide)⟩

end SchemaPilot.SubscriptionRouting
