import SchemaPilot.SchemaDiffJoin

namespace SchemaPilot.DiffSeverity

open Keyed OuterJoin SchemaInfer SchemaHash SchemaDiff SchemaDiffJoin

def typeChange (old new : SchemaNode) : Option ChangeType :=
  if old.type = new.type then none
  else if old.type = .integer ∧ new.type = .number then some .int_to_number
  else if old.type = .number ∧ new.type = .integer then some .number_to_int
  else some .type_changed

def nullableChange (old new : SchemaNode) : Option ChangeType :=
  if old.nullable = new.nullable then none
  else some (if new.nullable then .nullable_added else .nullable_removed)

def itemChange (old new : SchemaNode) : Option ChangeType :=
  if old.type = .array ∧ new.type = .array ∧ old.arrayItemType ≠ new.arrayItemType then
    some .array_item_type_changed
  else none

/-- Everything that has changed between two nodes of a path, each attribute by itself. -/
def singleChanges (old new : SchemaNode) : List ChangeType :=
  (typeChange old new).toList ++ (nullableChange old new).toList ++
    (enumChange old.enumValues new.enumValues).toList ++ (itemChange old new).toList

/-- A graver change is reported as a lighter one: the item type of an array changes along with
its nullability or its enum, or the enum gets new values where null goes. -/
def Masked (old new : SchemaNode) : Prop :=
  old.type = new.type ∧
    (old.type = .array ∧ old.arrayItemType ≠ new.arrayItemType ∧
        (old.nullable ≠ new.nullable ∨
          ∃ a ∈ old.enumValues, ∃ b ∈ new.enumValues, ¬(a ⊆ b ∧ b ⊆ a)) ∨
      old.nullable = true ∧ new.nullable = false ∧
        ∃ a ∈ old.enumValues, ∃ b ∈ new.enumValues, ¬b ⊆ a)

section Chain

variable {old new : SchemaNode}

/-- The first of the single changes is the one that is reported. -/
theorem pickChangeType_eq_head : pickChangeType old new = (singleChanges old new).head? := by
  rw [pickChangeType, singleChanges, typeChange, nullableChange, itemChange]
  by_cases htype : old.type = new.type
  · rw [if_neg (not_not.mpr htype), if_pos htype]
    by_cases hnull : old.nullable = new.nullable
    · rw [if_neg (not_not.mpr hnull), if_pos hnull]
      cases enumChange old.enumValues new.enumValues with
      | some change => rfl
      | none =>
        dsimp only
        split <;> rfl
    · rw [if_pos hnull, if_neg hnull]
      rfl
  · rw [if_pos htype, if_neg htype]
    split_ifs <;> rfl

theorem typeChange_eq_none_iff : typeChange old new = none ↔ old.type = new.type := by
  rw [typeChange]
  split_ifs with h <;> simp [h]

theorem rank_typeChange {change : ChangeType} (h : typeChange old new = some change) :
    1 ≤ (classify change).rank ∧ itemChange old new = none := by
  have htype : old.type ≠ new.type := fun he => by
    rw [typeChange_eq_none_iff.mpr he] at h
    cases h
  refine ⟨?_, if_neg fun hitem => htype (hitem.1.trans hitem.2.1.symm)⟩
  rw [typeChange, if_neg htype] at h
  split_ifs at h <;> cases h <;> decide

theorem nullableChange_cases (old new : SchemaNode) :
    nullableChange old new = none ∧ old.nullable = new.nullable ∨
      nullableChange old new = some .nullable_added ∧ old.nullable = false ∧ new.nullable = true ∨
      nullableChange old new = some .nullable_removed ∧ old.nullable = true ∧ new.nullable = false := by
  rw [nullableChange]
  cases old.nullable <;> cases new.nullable <;> simp

/-- The enum of the new node has a value that the old one lacks. -/
def EnumGrows (old new : Option (List String)) : Prop := ∃ a ∈ old, ∃ b ∈ new, ¬b ⊆ a

theorem enumChange_cases (old new : Option (List String)) :
    (enumChange old new = none ∨ enumChange old new = some .enum_narrowed) ∧ ¬EnumGrows old new ∨
      (enumChange old new = some .enum_expanded ∨ enumChange old new = some .enum_changed) ∧
        EnumGrows old new := by
  cases old with
  | none => exact .inl ⟨.inl rfl, by simp [EnumGrows]⟩
  | some a =>
    cases new with
    | none => exact .inl ⟨.inl rfl, by simp [EnumGrows]⟩
    | some b =>
      simp only [enumChange, EnumGrows, Option.mem_def, Option.some.injEq, exists_eq_left']
      by_cases hab : a ⊆ b <;> by_cases hba : b ⊆ a <;> simp [hab, hba]

theorem enumChange_ne_none_iff (old new : Option (List String)) :
    enumChange old new ≠ none ↔ ∃ a ∈ old, ∃ b ∈ new, ¬(a ⊆ b ∧ b ⊆ a) := by
  rw [ne_eq, enumChange_eq_none_iff]
  simp only [not_forall, exists_prop]

theorem itemChange_cases (old new : SchemaNode) :
    itemChange old new = none ∨ itemChange old new = some .array_item_type_changed := by
  rw [itemChange]
  split
  · exact .inr rfl
  · exact .inl rfl

theorem itemChange_ne_none_iff (htype : old.type = new.type) :
    itemChange old new ≠ none ↔ old.type = .array ∧ old.arrayItemType ≠ new.arrayItemType := by
  rw [itemChange, ne_eq, ite_eq_right_iff, not_forall]
  simp [← htype]

end Chain

/-- The same in terms of the single changes. -/
theorem masked_iff {old new : SchemaNode} : Masked old new ↔
    typeChange old new = none ∧
      (itemChange old new ≠ none ∧
          (nullableChange old new ≠ none ∨ enumChange old.enumValues new.enumValues ≠ none) ∨
        nullableChange old new = some .nullable_removed ∧ EnumGrows old.enumValues new.enumValues) := by
  rw [Masked, typeChange_eq_none_iff, enumChange_ne_none_iff]
  refine and_congr_right fun htype => or_congr ?_ ?_
  · rw [itemChange_ne_none_iff htype, and_assoc, ne_eq (nullableChange old new), nullableChange,
      ite_eq_left_iff]
    simp
  · rw [← and_assoc]
    refine and_congr_left fun _ => ?_
    obtain ⟨h, hnull⟩ | ⟨h, hold, hnew⟩ | ⟨h, hold, hnew⟩ := nullableChange_cases old new
    · simp [h, hnull]
    · simp [h, hold]
    · simp [h, hold, hnew]

/-- The first change is at least as grave as all of them unless it masks one. -/
theorem head_dominates_iff {old new : SchemaNode} :
    (∀ first ∈ (singleChanges old new).head?, ∀ change ∈ singleChanges old new,
      (classify change).rank ≤ (classify first).rank) ↔ ¬Masked old new := by
  rw [masked_iff, singleChanges]
  cases htype : typeChange old new with
  | some t =>
    obtain ⟨hrank, hitem⟩ := rank_typeChange htype
    have hle : ∀ change, (classify change).rank ≤ 1 →
        (classify change).rank ≤ (classify t).rank := fun _ h => h.trans hrank
    simp only [hitem, reduceCtorEq, false_and, not_false_eq_true, iff_true, Option.toList_some,
      Option.toList_none, List.append_nil, List.cons_append, List.nil_append, List.head?_cons,
      Option.mem_def, Option.some.injEq, forall_eq', List.forall_mem_cons, List.forall_mem_append]
    refine ⟨le_rfl, fun change h => hle change ?_, fun change h => hle change ?_⟩
    · obtain ⟨hn, -⟩ | ⟨hn, -⟩ | ⟨hn, -⟩ := nullableChange_cases old new <;>
        simp only [hn, Option.toList_none, Option.toList_some, List.not_mem_nil, List.mem_singleton] at h
      · subst h; decide
      · subst h; decide
    · obtain ⟨he | he, -⟩ | ⟨he | he, -⟩ := enumChange_cases old.enumValues new.enumValues <;>
        simp only [he, Option.toList_none, Option.toList_some, List.not_mem_nil, List.mem_singleton] at h
      · subst h; decide
      · subst h; decide
      · subst h; decide
  | none =>
    obtain ⟨hn, -⟩ | ⟨hn, -⟩ | ⟨hn, -⟩ := nullableChange_cases old new <;>
    obtain ⟨he | he, hg⟩ | ⟨he | he, hg⟩ := enumChange_cases old.enumValues new.enumValues <;>
    obtain hi | hi := itemChange_cases old new <;>
    simp [hn, he, hg, hi, classify, Severity.rank]

/-- The severity reported at a path dominates that of every change there, unless one is masked. -/
theorem severity_dominates_iff (isPrintable : Char → Bool) (old new : List SchemaNode)
    (path : String)
    (o n : SchemaNode) (ho : (byPath old).lookup path = some o)
    (hn : (byPath new).lookup path = some n) :
    (∀ change ∈ singleChanges o n, ∃ d,
      (diffSchemas isPrintable old new).filter (fun d => d.path = path) = [d] ∧
        (classify change).rank ≤ d.severity.rank) ↔ ¬Masked o n := by
  have hat : (diffSchemas isPrintable old new).filter (fun d => d.path = path) =
      (changedDiff isPrintable path o n).toList := by
    rw [filter_diffSchemas, diffAt, ho, hn]
    rfl
  rw [hat, ← head_dominates_iff, changedDiff, pickChangeType_eq_head]
  cases hchanges : singleChanges o n with
  | nil => simp
  | cons first rest => simp

/-- One value seen twice, the second time with a null in place of the array. -/
def tagsBefore : Json := .obj [("users", .arr [.obj [("tags", .arr [.num (.int 1)])], .obj [("tags", .null)]])]

def tagsAfter : Json := .obj [("users", .arr [.obj [("tags", .arr [.str "x"])]])]

theorem severity_dominates_iff_tags_gain :
    let node : SchemaNode := { path := "tags", type := .array, arrayItemType := some "integer" }
    let node' : SchemaNode := { node with nullable := true }
    ∀ change ∈ singleChanges node node', ∃ d,
      (diffSchemas (fun _ => true) [node] [node']).filter (fun d => d.path = "tags") = [d] ∧
        (classify change).rank ≤ d.severity.rank := by
  intro node node'
  exact (severity_dominates_iff (fun _ => true) [node] [node'] "tags" node node' rfl rfl).mpr
    (by simp [Masked, node, node'])

/-- The items of an array are of another type, and only that no null comes any more is reported. -/
theorem item_change_masked :
    let old := inferSchema tagsBefore
    let new := inferSchema tagsAfter
    ∃ o n, (byPath old).lookup "users[*].tags" = some o ∧ (byPath new).lookup "users[*].tags" = some n ∧
      ¬∀ change ∈ singleChanges o n, ∃ d,
        (diffSchemas (fun _ => true) old new).filter (fun d => d.path = "users[*].tags") = [d] ∧
          (classify change).rank ≤ d.severity.rank := by
  intro old new
  refine ⟨_, _, rfl, rfl, fun h => ?_⟩
  have hreported : ((diffSchemas (fun _ => true) old new).filter (fun d => d.path = "users[*].tags")).map
      Diff.severity = [.safe] := by decide +kernel
  obtain ⟨d, hd, hrank⟩ := h .array_item_type_changed (by decide +kernel)
  rw [hd, List.map_singleton, List.singleton_inj] at hreported
  rw [hreported] at hrank
  exact absurd hrank (by decide)

end SchemaPilot.DiffSeverity
