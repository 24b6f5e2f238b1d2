import SchemaPilot.OpenapiDiff

namespace SchemaPilot.ContractReview

open Keyed OuterJoin OpenapiDiff DiffReport
open Fetcher (isIn)

/-- `set(schema.get("required", []) or []) if isinstance(schema, dict) else set()`. -/
def requiredOf : SchemaEntry → List String
  | .bool _ => []
  | .dict _ required => required.getD []

structure Review where
  breaking : Bool
  breakingChanges : List String
  nonBreakingChanges : List String
  deriving DecidableEq

def breakingOf (schemaName : String) (old new : SchemaEntry) : List String :=
  (onlyKeys old.props new.props).map (fun field => schemaName ++ "." ++ field ++ " removed") ++
    (((onlyKeys new.props old.props).filter (· ∈ requiredOf new)).map
        (fun field => schemaName ++ "." ++ field ++ " added as required") ++
      ((retypedFields old new).map
          (fun p => schemaName ++ "." ++ p.1 ++ " type " ++ p.2.1 ++ " -> " ++ p.2.2) ++
        (sortedDifference (requiredOf new) (requiredOf old)).map
          (fun field => schemaName ++ "." ++ field ++ " became required")))

def nonBreakingOf (schemaName : String) (old new : SchemaEntry) : List String :=
  ((onlyKeys new.props old.props).filter (· ∉ requiredOf new)).map
      (fun field => schemaName ++ "." ++ field ++ " added as optional") ++
    (sortedDifference (requiredOf old) (requiredOf new)).map
      (fun field => schemaName ++ "." ++ field ++ " no longer required")

def diffOpenapiDocuments (oldPayload newPayload : Document) : Review :=
  let old := oldPayload.schemas
  let new := newPayload.schemas
  let breakingChanges := (onlyKeys old new).map ("schema removed: " ++ ·) ++
    (commonEntries old new).flatMap (fun (name, a, b) => breakingOf name a b)
  let nonBreakingChanges := (onlyKeys new old).map ("schema added: " ++ ·) ++
    (commonEntries old new).flatMap (fun (name, a, b) => nonBreakingOf name a b)
  { breaking := breakingChanges ≠ [], breakingChanges, nonBreakingChanges }

section Changes

def isDict : SchemaEntry → Bool
  | .bool _ => false
  | .dict _ _ => true

/-- A field goes, or its type changes. -/
def Loses (old new : SchemaEntry) : Prop :=
  (∃ field ∈ keys old.props, field ∉ keys new.props) ∨
    ∃ field a b, old.props.lookup field = some a ∧ new.props.lookup field = some b ∧ Retyped a b

/-- A field that is required on the new side was not, or it is a new field. -/
def Gains (old new : SchemaEntry) (field : String) : Prop :=
  field ∈ requiredOf new ∧ (field ∉ requiredOf old ∨ field ∈ keys new.props ∧ field ∉ keys old.props)

variable (old new : Document)

def DocumentLoses : Prop :=
  (∃ name ∈ keys old.schemas, name ∉ keys new.schemas) ∨
    ∃ name a b, old.schemas.lookup name = some a ∧ new.schemas.lookup name = some b ∧ Loses a b

def DocumentGains (field : String) : Prop :=
  ∃ name a b, old.schemas.lookup name = some a ∧ new.schemas.lookup name = some b ∧ Gains a b field

/-- No schema of both documents is a boolean, and if required fields are all that breaks, then the
name of some of them does not contain the words that the classification looks for. -/
def Agreeing : Prop :=
  (∀ name a b, old.schemas.lookup name = some a → new.schemas.lookup name = some b →
    isDict a = true ∧ isDict b = true) ∧
    (DocumentLoses old new ∨ (∀ field, ¬DocumentGains old new field) ∨
      ∃ field, DocumentGains old new field ∧ isIn "no longer" field = false)

end Changes

section Lists

theorem append_ne_nil {α : Type} {xs ys : List α} : xs ++ ys ≠ [] ↔ xs ≠ [] ∨ ys ≠ [] := by
  rw [ne_eq, List.append_eq_nil_iff, not_and_or]

theorem map_ne_nil {α β : Type} {f : α → β} {xs : List α} : xs.map f ≠ [] ↔ xs ≠ [] :=
  not_congr List.map_eq_nil_iff

theorem ne_nil_iff {α : Type} {xs : List α} : xs ≠ [] ↔ ∃ x, x ∈ xs := by
  rw [ne_eq, List.eq_nil_iff_forall_not_mem, not_forall_not]

theorem ne_nil_onlyKeys {α β : Type} {d : List (String × α)} {e : List (String × β)} :
    onlyKeys d e ≠ [] ↔ ∃ k ∈ keys d, k ∉ keys e := by
  rw [ne_nil_iff]
  exact exists_congr fun k => mem_onlyKeys d e

theorem mem_sortedDifference {xs ys : List String} {x : String} :
    x ∈ sortedDifference xs ys ↔ x ∈ xs ∧ x ∉ ys := by
  rw [sortedDifference, List.mem_insertionSort, List.mem_dedup, List.mem_filter, decide_eq_true_eq]

theorem ne_nil_retypedFields {old new : SchemaEntry} :
    retypedFields old new ≠ [] ↔
      ∃ field a b, old.props.lookup field = some a ∧ new.props.lookup field = some b ∧ Retyped a b := by
  rw [retypedFields, map_ne_nil, ne_nil_iff]
  simp only [Prod.exists, List.mem_filter, mem_commonEntries, decide_eq_true_eq, and_assoc]

/-- What a field adds to the required changes that break. -/
theorem gains_iff {old new : SchemaEntry} {field : String} :
    Gains old new field ↔
      field ∈ (onlyKeys new.props old.props).filter (· ∈ requiredOf new) ∨
        field ∈ sortedDifference (requiredOf new) (requiredOf old) := by
  rw [List.mem_filter, mem_onlyKeys, mem_sortedDifference, decide_eq_true_eq, Gains]
  tauto

end Lists

section Review

theorem breakingOf_ne_nil {schemaName : String} {old new : SchemaEntry} :
    breakingOf schemaName old new ≠ [] ↔ Loses old new ∨ ∃ field, Gains old new field := by
  have hgains : (∃ field, Gains old new field) ↔
      (onlyKeys new.props old.props).filter (· ∈ requiredOf new) ≠ [] ∨
        sortedDifference (requiredOf new) (requiredOf old) ≠ [] := by
    simp only [gains_iff, exists_or, ne_nil_iff]
  rw [breakingOf, append_ne_nil, map_ne_nil, ne_nil_onlyKeys, append_ne_nil, map_ne_nil, append_ne_nil,
    map_ne_nil, ne_nil_retypedFields, map_ne_nil, hgains, Loses, ← or_assoc]
  exact or_or_or_comm

theorem breaking_review (old new : Document) :
    (diffOpenapiDocuments old new).breaking = true ↔
      DocumentLoses old new ∨ ∃ field, DocumentGains old new field := by
  have hentries :
      (commonEntries old.schemas new.schemas).flatMap (fun (name, a, b) => breakingOf name a b) ≠ [] ↔
      ∃ name a b, old.schemas.lookup name = some a ∧ new.schemas.lookup name = some b ∧
        (Loses a b ∨ ∃ field, Gains a b field) := by
    rw [ne_eq, List.flatMap_eq_nil_iff]
    simp only [Prod.forall, not_forall, exists_prop, mem_commonEntries, ← ne_eq, breakingOf_ne_nil, and_assoc]
  simp only [diffOpenapiDocuments, decide_eq_true_eq]
  rw [append_ne_nil, map_ne_nil, ne_nil_onlyKeys, hentries, DocumentLoses, or_assoc]
  refine or_congr_right ?_
  constructor
  · rintro ⟨name, a, b, ha, hb, hloses | ⟨field, hgains⟩⟩
    · exact .inl ⟨name, a, b, ha, hb, hloses⟩
    · exact .inr ⟨field, name, a, b, ha, hb, hgains⟩
  · rintro (⟨name, a, b, ha, hb, hloses⟩ | ⟨field, name, a, b, ha, hb, hgains⟩)
    · exact ⟨name, a, b, ha, hb, .inl hloses⟩
    · exact ⟨name, a, b, ha, hb, .inr ⟨field, hgains⟩⟩

end Review

section Classified

/-- No part of the words begins where a prefix of the message ends. -/
theorem isIn_append {sub text : String} (field : String)
    (hno : isIn sub text = false) (hsplit : ∀ l ∈ sub.toList.inits, l ≠ [] → ¬l <:+ text.toList) :
    isIn sub (text ++ field) = isIn sub field := by
  rw [Bool.eq_iff_iff]
  simp only [isIn, decide_eq_false_iff_not] at hno
  simp only [isIn, decide_eq_true_eq, String.toList_append, List.infix_append_iff_ne_nil]
  constructor
  · rintro (h | h | ⟨l, r, hl, -, hsub, hsuffix, -⟩)
    · exact absurd h hno
    · exact h
    · exact absurd hsuffix (hsplit l ((List.mem_inits _ _).mpr ⟨r, hsub.symm⟩) hl)
  · exact fun h => .inr (.inl h)

theorem isIn_append_left {sub text : String} (h : isIn sub text = true) (field : String) :
    isIn sub (text ++ field) = true := by
  simp only [isIn, decide_eq_true_eq, String.toList_append] at h ⊢
  exact List.infix_append_of_infix_left h

/-- Whether a required change counts as breaking. -/
def counts (item : String) : Bool := isIn "required" item && !isIn "no longer" item

theorem counts_added (field : String) :
    counts ("added required field: " ++ field) = !isIn "no longer" field := by
  rw [counts, isIn_append_left (by decide), isIn_append field (by decide) (by decide), Bool.true_and]

theorem counts_became (field : String) :
    counts ("field became required: " ++ field) = !isIn "no longer" field := by
  rw [counts, isIn_append_left (by decide), isIn_append field (by decide) (by decide), Bool.true_and]

theorem counts_noLonger (field : String) :
    counts ("field no longer required: " ++ field) = false := by
  have hlonger : isIn "no longer" ("field no longer required: " ++ field) = true :=
    isIn_append_left (by decide) field
  rw [counts, hlonger, Bool.not_true, Bool.and_false]

theorem diffSchemas_eq_ok_iff {old new : SchemaEntry} {d : SchemaChanges} :
    diffSchemas old new = .ok d ↔ (isDict old = true ∧ isDict new = true) ∧
      fieldChanges old new (requiredOf old) (requiredOf new) = d := by
  cases old with
  | bool b => exact iff_of_false nofun fun h => Bool.false_ne_true h.1.1
  | dict oldProps oldRequired =>
    cases new with
    | bool b => exact iff_of_false nofun fun h => Bool.false_ne_true h.1.2
    | dict newProps newRequired =>
      rw [and_iff_right ⟨rfl, rfl⟩]
      exact Iff.of_eq (Except.ok.injEq _ _)

theorem counts_fieldChanges (old new : SchemaEntry) :
    (fieldChanges old new (requiredOf old) (requiredOf new)).requiredChanges.any counts = true ↔
      ∃ field, Gains old new field ∧ isIn "no longer" field = false := by
  have hadded : counts ∘ ("added required field: " ++ ·) = fun field => !isIn "no longer" field :=
    funext counts_added
  have hbecame : counts ∘ ("field became required: " ++ ·) = fun field => !isIn "no longer" field :=
    funext counts_became
  have hnoLonger : counts ∘ ("field no longer required: " ++ ·) = fun _ => false := funext counts_noLonger
  simp only [fieldChanges, List.any_append, List.any_map, hadded, hbecame, hnoLonger]
  simp only [gains_iff, or_and_right, exists_or, Bool.or_eq_true, List.any_eq_true, Bool.not_eq_true',
    Bool.false_eq_true, and_false, exists_false, or_false]

theorem loses_iff (old new : SchemaEntry) :
    Loses old new ↔ (fieldChanges old new (requiredOf old) (requiredOf new)).removedFields ≠ [] ∨
      (fieldChanges old new (requiredOf old) (requiredOf new)).typeChanges ≠ [] := by
  rw [fieldChanges, ne_nil_onlyKeys, map_ne_nil, ne_nil_retypedFields, Loses]

theorem flatMap_ne_nil {α β : Type} {f : α → List β} {xs : List α} :
    xs.flatMap f ≠ [] ↔ ∃ x ∈ xs, f x ≠ [] := by
  rw [ne_eq, List.flatMap_eq_nil_iff]
  simp only [not_forall, exists_prop, ne_eq]

variable {old new : Document}

/-- The schemas that both documents have are objects. -/
theorem diff_succeeds_iff :
    (∃ v, OpenapiDiff.diffOpenapiDocuments old new = .ok v) ↔
      ∀ name a b, old.schemas.lookup name = some a → new.schemas.lookup name = some b →
        isDict a = true ∧ isDict b = true := by
  have hdiffs : (∃ v, OpenapiDiff.diffOpenapiDocuments old new = .ok v) ↔
      ∃ diffs, (commonEntries old.schemas new.schemas).mapM (fun (_, a, b) => diffSchemas a b) = .ok diffs := by
    rw [OpenapiDiff.diffOpenapiDocuments]
    cases (commonEntries old.schemas new.schemas).mapM (fun (_, a, b) => diffSchemas a b) with
    | error e => exact iff_of_false nofun nofun
    | ok diffs => exact iff_of_true ⟨_, rfl⟩ ⟨diffs, rfl⟩
  rw [hdiffs, mapM_succeeds_iff]
  simp only [Prod.forall, mem_commonEntries, diffSchemas_eq_ok_iff, exists_and_left, exists_eq', and_true,
    and_imp]

theorem breaking_classified {v : Classified}
    (h : OpenapiDiff.diffOpenapiDocuments old new = .ok v) :
    v.breaking = true ↔ DocumentLoses old new ∨
      ∃ field, DocumentGains old new field ∧ isIn "no longer" field = false := by
  have hdict := diff_succeeds_iff.mp ⟨v, h⟩
  rw [OpenapiDiff.diffOpenapiDocuments] at h
  cases hdiffs : (commonEntries old.schemas new.schemas).mapM (fun (_, a, b) => diffSchemas a b) with
  | error e =>
    rw [hdiffs] at h
    cases h
  | ok diffs =>
    rw [hdiffs] at h
    obtain rfl := Except.ok.inj h
    have hmem : ∀ P : SchemaChanges → Prop, (∃ d ∈ diffs, P d) ↔ ∃ name a b,
        old.schemas.lookup name = some a ∧ new.schemas.lookup name = some b ∧
          P (fieldChanges a b (requiredOf a) (requiredOf b)) := by
      intro P
      constructor
      · rintro ⟨d, hd, hP⟩
        obtain ⟨⟨name, a, b⟩, hentry, hd⟩ := (mem_mapM hdiffs d).mp hd
        obtain ⟨ha, hb⟩ := (mem_commonEntries _ _).mp hentry
        obtain ⟨-, rfl⟩ := diffSchemas_eq_ok_iff.mp hd
        exact ⟨name, a, b, ha, hb, hP⟩
      · rintro ⟨name, a, b, ha, hb, hP⟩
        refine ⟨_, (mem_mapM hdiffs _).mpr ⟨(name, a, b), (mem_commonEntries _ _).mpr ⟨ha, hb⟩, ?_⟩, hP⟩
        exact diffSchemas_eq_ok_iff.mpr ⟨hdict name a b ha hb, rfl⟩
    have hcounts : (diffs.flatMap (·.requiredChanges)).any counts = true ↔
        ∃ field, DocumentGains old new field ∧ isIn "no longer" field = false := by
      rw [List.any_flatMap, List.any_eq_true, hmem]
      simp only [counts_fieldChanges, DocumentGains]
      constructor
      · rintro ⟨name, a, b, ha, hb, field, hgains, hno⟩
        exact ⟨field, ⟨name, a, b, ha, hb, hgains⟩, hno⟩
      · rintro ⟨field, ⟨name, a, b, ha, hb, hgains⟩, hno⟩
        exact ⟨name, a, b, ha, hb, field, hgains, hno⟩
    have hloses : ((onlyKeys old.schemas new.schemas).map ("schema:" ++ ·) ++
          diffs.flatMap (·.removedFields) ≠ [] ∨ diffs.flatMap (·.typeChanges) ≠ []) ↔
        DocumentLoses old new := by
      rw [append_ne_nil, map_ne_nil, ne_nil_onlyKeys, flatMap_ne_nil, flatMap_ne_nil, or_assoc,
        hmem (·.removedFields ≠ []), hmem (·.typeChanges ≠ []), DocumentLoses]
      simp only [loses_iff, and_or_left, exists_or]
    rw [← hloses, ← hcounts, classifyDiff]
    simp only [Bool.or_eq_true, decide_eq_true_eq]
    rfl

end Classified

section Agreement

/-- The two scripts return, with the same verdict, exactly for these documents. -/
theorem same_breaking_iff (old new : Document) :
    (∃ v, OpenapiDiff.diffOpenapiDocuments old new = .ok v ∧
      v.breaking = (diffOpenapiDocuments old new).breaking) ↔ Agreeing old new := by
  have hreview := breaking_review old new
  rw [Agreeing, ← diff_succeeds_iff]
  constructor
  · rintro ⟨v, hv, hsame⟩
    refine ⟨⟨v, hv⟩, ?_⟩
    have hclassified := breaking_classified hv
    rw [hsame, hreview] at hclassified
    by_cases hgains : ∃ field, DocumentGains old new field
    · exact (hclassified.mp (.inr hgains)).imp_right .inr
    · exact .inr (.inl (not_exists.mp hgains))
  · rintro ⟨⟨v, hv⟩, hagree⟩
    refine ⟨v, hv, ?_⟩
    rw [Bool.eq_iff_iff, breaking_classified hv, hreview]
    constructor
    · exact Or.imp_right fun ⟨field, hgains, _⟩ => ⟨field, hgains⟩
    · rintro (hloses | hgains)
      · exact .inl hloses
      · exact hagree.imp_right fun h => h.elim (fun hnone => (hnone _ hgains.choose_spec).elim) id

/-- A schema that is a boolean stops one script, and a name with the words `no longer` hides a
required field from it. -/
theorem verdicts_differ :
    (∃ old : Document, old.schemas.map Prod.fst = ["Any"] ∧
      OpenapiDiff.diffOpenapiDocuments old old =
        .error (.AttributeError "'bool' object has no attribute 'get'") ∧
      (diffOpenapiDocuments old old).breaking = false) ∧
    ∃ (old new : Document) (v : Classified),
      OpenapiDiff.diffOpenapiDocuments old new = .ok v ∧ v.breaking = false ∧
      v.diff.requiredChanges =
        ["added required field: no longer used", "field became required: no longer used"] ∧
      (diffOpenapiDocuments old new).breaking = true := by
  refine ⟨⟨⟨.obj [("components", .obj [("schemas", .obj [("Any", .bool true)])])], by decide +kernel,
    by decide +kernel, [("Any", .bool true)], rfl⟩, rfl, rfl, by decide +kernel⟩, ?_⟩
  refine ⟨⟨.obj [("components", .obj [("schemas", .obj [("Event", .obj [])])])], by decide +kernel,
    by decide +kernel, [("Event", .dict none none)], rfl⟩, ⟨.obj [("components", .obj [("schemas", .obj [("Event", .obj [
      ("properties", .obj [("no longer used", .obj [])]), ("required", .arr [.str "no longer used"])])])])],
    by decide +kernel, by decide +kernel, [("Event", .dict (some [("no longer used", .obj [])])
      (some ["no longer used"]))], rfl⟩, _, rfl, ?_⟩
  decide +kernel

end Agreement

end SchemaPilot.ContractReview
