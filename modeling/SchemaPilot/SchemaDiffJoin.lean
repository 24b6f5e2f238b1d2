import SchemaPilot.OuterJoin
import SchemaPilot.SchemaDiff

namespace SchemaPilot.SchemaDiffJoin

open Keyed OuterJoin SchemaInfer SchemaHash SchemaDiff

/-- The diff of two node lists is a join by path. -/
def nodeJoin (isPrintable : Char → Bool) : Join String SchemaNode SchemaNode Diff where
  left path node := some (removedDiff isPrintable path node)
  right path node := some (addedDiff isPrintable path node)
  both path old new := changedDiff isPrintable path old new

section Join

variable (isPrintable : Char → Bool) (old new : List SchemaNode)

theorem diffSchemas_eq :
    diffSchemas isPrintable old new = (nodeJoin isPrintable).join (byPath old) (byPath new) := by
  have hbind : ∀ (o : Option SchemaNode) (f : SchemaNode → Diff), o.map f = o.bind fun n => some (f n) :=
    fun o f => Option.map_eq_bind
  simp only [diffSchemas, hbind]
  rfl

theorem nodup_byPath (nodes : List SchemaNode) : (keys (byPath nodes)).Nodup :=
  nodup_update (d := []) List.nodup_nil _

theorem files_nodeJoin : (nodeJoin isPrintable).Files Diff.path where
  left path node c hc := by
    cases hc
    rfl
  right path node c hc := by
    cases hc
    rfl
  both path old new c hc := by
    obtain ⟨changeType, -, rfl⟩ := Option.map_eq_some_iff.mp hc
    rfl

/-- The diff of one path, from what the two lists hold there. -/
def diffAt (path : String) : Option Diff :=
  (nodeJoin isPrintable).entry path ((byPath old).lookup path) ((byPath new).lookup path)

theorem filter_diffSchemas (path : String) :
    (diffSchemas isPrintable old new).filter (fun d => d.path = path) =
      (diffAt isPrintable old new path).toList := by
  rw [diffSchemas_eq]
  exact Join.filter_join (files_nodeJoin isPrintable) (nodup_byPath old) (nodup_byPath new) path

theorem mem_diffSchemas (d : Diff) :
    d ∈ diffSchemas isPrintable old new ↔ diffAt isPrintable old new d.path = some d := by
  rw [diffSchemas_eq]
  exact Join.mem_join (files_nodeJoin isPrintable) (nodup_byPath old) (nodup_byPath new) d

theorem nodup_paths_diffSchemas : ((diffSchemas isPrintable old new).map Diff.path).Nodup := by
  rw [diffSchemas_eq]
  exact Join.nodup_join (files_nodeJoin isPrintable) (nodup_byPath old) (nodup_byPath new)

end Join

section Mirror

/-- The change that takes a change back; what was added is removed, with the type it has. -/
def reverse (newType : Option JsonType) : ChangeType → ChangeType
  | .removed_field => .added_field
  | .nested_object_removed => .added_field
  | .added_field => if newType = some .object then .nested_object_removed else .removed_field
  | .int_to_number => .number_to_int
  | .number_to_int => .int_to_number
  | .nullable_added => .nullable_removed
  | .nullable_removed => .nullable_added
  | .enum_expanded => .enum_narrowed
  | .enum_narrowed => .enum_expanded
  | .type_changed => .type_changed
  | .enum_changed => .enum_changed
  | .array_item_type_changed => .array_item_type_changed

/-- One diff reports the way back of the other. -/
structure Mirror (d d' : Diff) : Prop where
  path : d'.path = d.path
  oldType : d'.oldType = d.newType
  newType : d'.newType = d.oldType
  oldValue : d'.oldValue = d.newValue
  newValue : d'.newValue = d.oldValue
  forth : d'.changeType = reverse d.newType d.changeType
  back : d.changeType = reverse d'.newType d'.changeType

theorem enumChange_swap (t : Option JsonType) (a b : Option (List String)) :
    enumChange b a = (enumChange a b).map (reverse t) := by
  cases a with
  | none => cases b <;> rfl
  | some a =>
    cases b with
    | none => rfl
    | some b =>
      simp only [enumChange]
      by_cases hab : a ⊆ b <;> by_cases hba : b ⊆ a <;> simp [hab, hba, reverse]

theorem pickChangeType_swap (t : Option JsonType) (old new : SchemaNode) :
    pickChangeType new old = (pickChangeType old new).map (reverse t) := by
  unfold pickChangeType
  by_cases htype : old.type = new.type
  · rw [if_neg (not_not.mpr htype), if_neg (not_not.mpr htype.symm)]
    by_cases hnull : old.nullable = new.nullable
    · rw [if_neg (not_not.mpr hnull), if_neg (not_not.mpr hnull.symm), enumChange_swap t old.enumValues]
      cases enumChange old.enumValues new.enumValues with
      | some change => rfl
      | none =>
        simp only [Option.map_none, htype, ne_comm (a := old.arrayItemType)]
        split <;> rfl
    · rw [if_pos hnull, if_pos (Ne.symm hnull)]
      cases hn : new.nullable with
      | true =>
        have ho : old.nullable = false := Bool.eq_false_iff.mpr fun ho => hnull (ho.trans hn.symm)
        rw [ho]
        rfl
      | false =>
        have ho : old.nullable = true := by
          rw [← Bool.not_eq_false]
          exact fun ho => hnull (ho.trans hn.symm)
        rw [ho]
        rfl
  · rw [if_pos htype, if_pos (Ne.symm htype)]
    split_ifs with h₁ h₂ h₃ h₄ h₅ h₆ <;> first | rfl | simp_all

theorem mirror_removed (isPrintable : Char → Bool) (path : String) (node : SchemaNode) :
    Mirror (removedDiff isPrintable path node) (addedDiff isPrintable path node) := by
  refine ⟨rfl, rfl, rfl, rfl, rfl, ?_, ?_⟩
  · simp only [removedDiff, addedDiff]
    split <;> rfl
  · simp only [removedDiff, addedDiff, reverse, Option.some.injEq]

theorem mirror_added (isPrintable : Char → Bool) (path : String) (node : SchemaNode) :
    Mirror (addedDiff isPrintable path node) (removedDiff isPrintable path node) :=
  have h := mirror_removed isPrintable path node
  ⟨h.path.symm, h.newType.symm, h.oldType.symm, h.newValue.symm, h.oldValue.symm, h.back, h.forth⟩

theorem mirror_changed (isPrintable : Char → Bool) (path : String) (old new : SchemaNode) :
    Option.Rel Mirror (changedDiff isPrintable path old new) (changedDiff isPrintable path new old) := by
  rw [changedDiff, changedDiff]
  cases hpick : pickChangeType old new with
  | none =>
    rw [pickChangeType_swap none old new, hpick]
    exact .none
  | some change =>
    have hback : pickChangeType new old = some (reverse (some new.type) change) := by
      rw [pickChangeType_swap (some new.type) old new, hpick]
      rfl
    have hforth : change = reverse (some old.type) (reverse (some new.type) change) := by
      have htwice := pickChangeType_swap (some old.type) new old
      rw [hback, hpick] at htwice
      exact Option.some.inj htwice
    rw [hback]
    exact .some ⟨rfl, rfl, rfl, rfl, rfl, rfl, hforth⟩

/-- The diffs of the exchanged lists are the diffs for the way back. -/
theorem diffSchemas_swap (isPrintable : Char → Bool) (old new : List SchemaNode) :
    ∃ back, back.Perm (diffSchemas isPrintable new old) ∧
      List.Forall₂ Mirror (diffSchemas isPrintable old new) back := by
  rw [diffSchemas_eq, diffSchemas_eq]
  have hmirrors : Join.Mirrors Mirror (nodeJoin isPrintable) (nodeJoin isPrintable) :=
    ⟨fun path node => .some (mirror_removed isPrintable path node),
      fun path node => .some (mirror_added isPrintable path node), mirror_changed isPrintable⟩
  exact hmirrors.join (nodup_byPath old) (nodup_byPath new)

end Mirror

end SchemaPilot.SchemaDiffJoin
