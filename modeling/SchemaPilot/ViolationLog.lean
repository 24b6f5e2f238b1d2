import SchemaPilot.BreakageVerdicts
import SchemaPilot.TrackPayload

namespace SchemaPilot.ViolationLog

open StructuralType Engine BreakageVerdicts TrackPayload Runs

/-- The rows of a report: an item without a severity is passed over. -/
def logDriftViolations (endpointId : Nat) (fingerprint : String) (diffs : List DriftItem) :
    List Violation :=
  diffs.filterMap fun item =>
    match item.severity with
    | none => none
    | some severity => some ⟨endpointId, fingerprint, severity, item.path, item.old, item.new⟩

/-- The item that a row has been stored for. -/
def Violation.item (v : Violation) : DriftItem := ⟨v.path, v.old, v.new, some v.severity⟩

section Severity

/-- The passes leave out the exchanges of a null or an array. -/
theorem classified_none_iff {old new : Option String} (path : String)
    (hold : ∀ t ∈ old, t ∈ names) (hnew : ∀ t ∈ new, t ∈ names) (hne : old ≠ new) :
    (classifyBreakingChange (classifyRiskyMutation (classifySafeChange ⟨path, old, new, none⟩))).severity =
      none ↔ exchanges old new = true := by
  cases old with
  | none =>
    cases new with
    | none => exact absurd rfl hne
    | some new => simp [classifySafeChange, classifyRiskyMutation, classifyBreakingChange, exchanges]
  | some old =>
    cases new with
    | none => simp [classifySafeChange, classifyRiskyMutation, classifyBreakingChange, exchanges]
    | some new =>
      have hsafe : classifySafeChange ⟨path, some old, some new, none⟩ = ⟨path, some old, some new, none⟩ := rfl
      rw [hsafe, classifyRiskyMutation_some, classifyBreakingChange_some (hold old rfl)]
      have hpairs : ∀ a ∈ names, ∀ b ∈ names, a ≠ b →
          ((if a ∈ primitiveTypes ∧ b ∈ primitiveTypes ∧ a ≠ b then
              if a = "int" ∧ b = "float" then some ChangeSeverity.RISKY else some .BREAKING
            else none) = none ↔ exchanges (some a) (some b) = true) := by decide
      exact hpairs old (hold old rfl) new (hnew new rfl) fun h => hne (congrArg some h)

/-- A pass over an item changes its severity at most. -/
def Grades (f : DriftItem → DriftItem) : Prop :=
  ∀ item, f item = { item with severity := (f item).severity }

theorem Grades.comp {f g : DriftItem → DriftItem} (hf : Grades f) (hg : Grades g) : Grades (f ∘ g) := by
  intro item
  rw [Function.comp_apply, hf (g item), hg item]

theorem grades_safe : Grades classifySafeChange := by
  intro item
  rw [classifySafeChange]
  split <;> rfl

theorem grades_risky : Grades classifyRiskyMutation := by
  intro item
  unfold classifyRiskyMutation
  split
  · split_ifs <;> rfl
  · rfl

theorem grades_breaking : Grades classifyBreakingChange := by
  intro item
  unfold classifyBreakingChange
  split
  · rfl
  · split <;> rfl
  · rfl

def report (p q : Payload) : List DriftItem :=
  classifyContractDrift (structuralDiff (normalizeTypes p.json) (normalizeTypes q.json))

theorem severity_none_iff {p q : Payload} {item : DriftItem} (h : item ∈ report p q) :
    item.severity = none ↔ exchanges item.old item.new = true := by
  simp only [report, classifyContractDrift, List.map_map, List.mem_map] at h
  obtain ⟨item, hitem, rfl⟩ := h
  obtain ⟨path, hne, rfl⟩ := (mem_structuralDiff _ _ _).mp hitem
  have hgrades := ((grades_breaking.comp grades_risky).comp grades_safe) ⟨path, named p path, named q path, none⟩
  have hold := congrArg DriftItem.old hgrades
  have hnew := congrArg DriftItem.new hgrades
  dsimp only at hold hnew
  exact hold ▸ hnew ▸ classified_none_iff path (fun _ ht => mem_names_of_named ht)
    (fun _ ht => mem_names_of_named ht) hne

end Severity

section Log

variable (endpointId : Nat) (fingerprint : String)

/-- A row is stored for each item that has a severity, in order. -/
theorem logDriftViolations_items (diffs : List DriftItem) :
    (logDriftViolations endpointId fingerprint diffs).map Violation.item =
      diffs.filter (fun item => item.severity.isSome) := by
  induction diffs with
  | nil => rfl
  | cons item diffs ih =>
    obtain ⟨path, old, new, severity⟩ := item
    cases severity with
    | none => exact ih
    | some severity => exact congrArg (List.cons _) ih

theorem mem_logDriftViolations {diffs : List DriftItem} {v : Violation}
    (h : v ∈ logDriftViolations endpointId fingerprint diffs) :
    v.endpointId = endpointId ∧ v.observedFingerprint = fingerprint := by
  obtain ⟨item, -, hv⟩ := List.mem_filterMap.mp h
  split at hv
  · cases hv
  · cases hv
    exact ⟨rfl, rfl⟩

variable {ι : Type} [Fintype ι] [DecidableEq ι] {c : Config ι} {i : ι}

/-- The statement about one item of a report. -/
theorem advance_logViolations {e : Nat} {inserted : Bool} {legacyDiffs todo : List DriftItem}
    {item : DriftItem} {s : State ι}
    (hpc : (s.call i).pc = .logViolations e inserted legacyDiffs (item :: todo)) :
    ∃ w, advance c s i = some (s.set s.db i w) ∧ w.pc = .logViolations e inserted legacyDiffs todo ∧
      w.session.violations = (s.call i).session.violations ++
        logDriftViolations e (c.request i).fingerprint [item] := by
  obtain ⟨path, old, new, severity⟩ := item
  cases severity with
  | none =>
    refine ⟨{ s.call i with pc := .logViolations e inserted legacyDiffs todo }, ?_, rfl,
      (List.append_nil _).symm⟩
    simp only [advance, hpc]
  | some severity =>
    let row : Violation := ⟨e, (c.request i).fingerprint, severity, path, old, new⟩
    refine ⟨{ s.call i with
      pc := .logViolations e inserted legacyDiffs todo
      session := { (s.call i).session with
        violations := (s.call i).session.violations ++ [row] } }, ?_, rfl, rfl⟩
    simp only [advance, hpc, row]

/-- A request that logs a report writes these rows, with a statement for each item. -/
theorem leads_logDriftViolations {e : Nat} {inserted : Bool} {legacyDiffs todo : List DriftItem}
    {s : State ι} (hpc : (s.call i).pc = .logViolations e inserted legacyDiffs todo) :
    Leads (fun s (_ : Unit) => advance c s i) always todo.length s
      (fun t => t.db = s.db ∧ (t.call i).pc = .logViolations e inserted legacyDiffs [] ∧
        (t.call i).session.violations = (s.call i).session.violations ++
          logDriftViolations e (c.request i).fingerprint todo) := by
  induction todo generalizing s with
  | nil => exact .refl ⟨rfl, hpc, (List.append_nil _).symm⟩
  | cons item todo ih =>
    obtain ⟨w, hs, hw, hrows⟩ := advance_logViolations (c := c) hpc
    have hcall : (s.set s.db i w).call i = w := Function.update_self _ _ _
    refine .cons (fun _ => trivial) fun _ => ⟨_, hs, ?_⟩
    refine (ih (hcall.symm ▸ hw)).mono fun t ⟨hdb, hpct, hviolations⟩ => ⟨hdb, hpct, ?_⟩
    have hsplit : logDriftViolations e (c.request i).fingerprint (item :: todo) =
        logDriftViolations e (c.request i).fingerprint [item] ++
          logDriftViolations e (c.request i).fingerprint todo :=
      List.filterMap_append (l := [item])
    rw [hviolations, hcall, hrows, hsplit, List.append_assoc]

end Log

/-- Of a report, the exchanges of a null or an array stay without a severity and are not stored;
every other item has one and is stored once. -/
theorem report_logged (p q : Payload) (endpointId : Nat) (fingerprint : String) :
    (∀ item ∈ report p q, item.severity = none ↔ exchanges item.old item.new = true) ∧
      (logDriftViolations endpointId fingerprint (report p q)).map Violation.item =
        (report p q).filter (fun item => !exchanges item.old item.new) ∧
      ∀ v ∈ logDriftViolations endpointId fingerprint (report p q),
        v.endpointId = endpointId ∧ v.observedFingerprint = fingerprint := by
  refine ⟨fun item => severity_none_iff, ?_, fun v => mem_logDriftViolations endpointId fingerprint⟩
  rw [logDriftViolations_items]
  apply List.filter_congr
  intro item hitem
  rw [Bool.eq_iff_iff, Option.isSome_iff_ne_none, ne_eq, severity_none_iff hitem, Bool.not_eq_true',
    Bool.not_eq_true]

/-- An integer that turns null is reported without a severity, and no row is stored of it. -/
theorem unclassified_null_member :
    ¬∀ (p q : Payload) (endpointId : Nat) (fingerprint : String),
      (∀ item ∈ report p q, item.severity ≠ none) ∧
        (logDriftViolations endpointId fingerprint (report p q)).length = (report p q).length := by
  intro h
  let p : Payload := ⟨[("a", .num (.int 1))], by decide⟩
  let q : Payload := ⟨[("a", .null)], by decide⟩
  obtain ⟨hseverity, -⟩ := h p q 1 ""
  have hitem : ⟨"a", some "int", some "null", none⟩ ∈ report p q := by decide
  exact hseverity _ hitem rfl

end SchemaPilot.ViolationLog
