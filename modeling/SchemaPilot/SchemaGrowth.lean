import Mathlib.Logic.Relation
import SchemaPilot.ItemTypes
import SchemaPilot.JsonContext
import SchemaPilot.SchemaDiffJoin

namespace SchemaPilot.SchemaGrowth

open Keyed JsonContext SchemaInfer SchemaNotes NodeSummary Occurrences NodeTypes ItemTypes SchemaHash SchemaDiff
  SchemaDiffJoin

section Growth

/-- An object gets one more member, or an array one more element. -/
inductive Gains : Json → Json → Prop
  | member (l r : List (String × Json)) (k : String) (x : Json) :
    Gains (.obj (l ++ r)) (.obj (l ++ (k, x) :: r))
  | element (l r : List Json) (x : Json) : Gains (.arr (l ++ r)) (.arr (l ++ x :: r))

/-- Members and elements are added, at any places and any number of times. -/
def Grows : Json → Json → Prop := Relation.ReflTransGen (Inside Gains)

/-- What is visited in one body is visited in another, at the same path: a scalar or null as it is,
an object or array with whatever it holds there. -/
def Keeps (ps qs : List (String × Json)) : Prop := ∀ p ∈ ps, ∃ q ∈ qs, q.1 = p.1 ∧ noteOf q.2 = noteOf p.2

variable {ps qs ps' qs' : List (String × Json)} {v w : Json}

theorem keeps_of_subset (h : ps ⊆ qs) : Keeps ps qs := fun p hp => ⟨p, h hp, rfl, rfl⟩

theorem Keeps.trans {rs : List (String × Json)} (h : Keeps ps qs) (h' : Keeps qs rs) : Keeps ps rs := by
  intro p hp
  obtain ⟨q, hq, hqp, hqn⟩ := h p hp
  obtain ⟨r, hr, hrq, hrn⟩ := h' q hq
  exact ⟨r, hr, hrq.trans hqp, hrn.trans hqn⟩

theorem Keeps.append (h : Keeps ps qs) (h' : Keeps ps' qs') : Keeps (ps ++ ps') (qs ++ qs') := by
  intro p hp
  obtain hp | hp := List.mem_append.mp hp
  · obtain ⟨q, hq, hkeep⟩ := h p hp
    exact ⟨q, List.mem_append_left _ hq, hkeep⟩
  · obtain ⟨q, hq, hkeep⟩ := h' p hp
    exact ⟨q, List.mem_append_right _ hq, hkeep⟩

theorem Keeps.cons (h : Keeps ps qs) (path : String) (hnote : noteOf w = noteOf v) :
    Keeps ((path, v) :: ps) ((path, w) :: qs) := by
  intro p hp
  obtain rfl | hp := List.mem_cons.mp hp
  · exact ⟨(path, w), List.mem_cons_self, rfl, hnote⟩
  · obtain ⟨q, hq, hkeep⟩ := h p hp
    exact ⟨q, List.mem_cons_of_mem _ hq, hkeep⟩

/-- One of several parts changes. -/
theorem Keeps.replace {α : Type} {f : α → List (String × Json)} {a b : α} (h : Keeps (f a) (f b)) (l r : List α) :
    Keeps ((l ++ a :: r).flatMap f) ((l ++ b :: r).flatMap f) := by
  simp only [List.flatMap_append, List.flatMap_cons]
  exact (keeps_of_subset (List.Subset.refl _)).append (h.append (keeps_of_subset (List.Subset.refl _)))

theorem keeps_insert {α : Type} (f : α → List (String × Json)) (l r : List α) (a : α) :
    Keeps ((l ++ r).flatMap f) ((l ++ a :: r).flatMap f) := by
  apply keeps_of_subset
  intro p hp
  simp only [List.flatMap_append, List.flatMap_cons, List.mem_append] at hp ⊢
  exact hp.imp_right .inr

theorem isObject_of_inside (h : Inside Gains v w) : isObject w = isObject v := by
  cases h with
  | here h => cases h <;> rfl
  | item | entry => rfl

/-- The members of objects are visited whether or not the objects are. -/
theorem memberVisits_subset (itemPath : String) (items : List Json) :
    memberVisits itemPath items ⊆ itemVisits itemPath items := by
  intro p hp
  rw [memberVisits_eq, List.mem_flatMap] at hp
  obtain ⟨x, hx, hp⟩ := hp
  rw [itemVisits_eq, List.mem_flatMap]
  refine ⟨x, hx, ?_⟩
  cases x with
  | obj fields => exact List.mem_cons_of_mem _ hp
  | null | bool b | num n | str s | arr xs => cases hp

/-- The visits of two arrays, from those of their elements. -/
theorem keeps_arr {items items' : List Json} (path : String)
    (hall : items'.all isObject = true → items.all isObject = true)
    (hmembers : Keeps (memberVisits (arrayPath path) items) (memberVisits (arrayPath path) items'))
    (hitems : Keeps (itemVisits (arrayPath path) items) (itemVisits (arrayPath path) items')) :
    Keeps (visits path (.arr items)) (visits path (.arr items')) := by
  rw [visits, visits]
  refine Keeps.cons ?_ _ rfl
  by_cases hobjects : items.all isObject = true
  · rw [if_pos hobjects]
    split
    · exact hmembers
    · exact (keeps_of_subset (memberVisits_subset _ items)).trans hitems
  · rw [if_neg hobjects, if_neg fun h => hobjects (hall h)]
    exact hitems

theorem keeps_visits (h : Inside Gains v w) (path : String) :
    Keeps (visits path v) (visits path w) ∧
      Keeps (fieldVisits path (members v)) (fieldVisits path (members w)) := by
  induction h generalizing path with
  | here h =>
    cases h with
    | member l r k x =>
      have hfields : Keeps (fieldVisits path (l ++ r)) (fieldVisits path (l ++ (k, x) :: r)) := by
        rw [fieldVisits_eq, fieldVisits_eq]
        exact keeps_insert _ l r (k, x)
      exact ⟨hfields.cons path rfl, hfields⟩
    | element l r x =>
      refine ⟨keeps_arr path (fun h => ?_) ?_ ?_, fun p hp => ⟨p, hp, rfl, rfl⟩⟩
      · simp only [List.all_append, List.all_cons, Bool.and_eq_true] at h ⊢
        exact ⟨h.1, h.2.2⟩
      · rw [memberVisits_eq, memberVisits_eq]
        exact keeps_insert _ l r x
      · rw [itemVisits_eq, itemVisits_eq]
        exact keeps_insert _ l r x
  | item l r h ih =>
    refine ⟨keeps_arr path (fun hall => ?_) ?_ ?_, fun p hp => ⟨p, hp, rfl, rfl⟩⟩
    · rw [List.all_append, List.all_cons, isObject_of_inside h] at hall
      rwa [List.all_append, List.all_cons]
    · rw [memberVisits_eq, memberVisits_eq]
      exact Keeps.replace (f := fun x : Json => fieldVisits (arrayPath path) (members x)) (ih (arrayPath path)).2 l r
    · rw [itemVisits_eq, itemVisits_eq]
      exact (ih (arrayPath path)).1.replace l r
  | @entry l r k v w _ ih =>
    have hfields : Keeps (fieldVisits path (l ++ (k, v) :: r)) (fieldVisits path (l ++ (k, w) :: r)) := by
      rw [fieldVisits_eq, fieldVisits_eq]
      exact Keeps.replace (f := fun p : String × Json => visits (joinPath path p.1) p.2)
        (ih (joinPath path k)).1 l r
    exact ⟨hfields.cons path rfl, hfields⟩

theorem keeps_occurrences (h : Grows v w) : Keeps (occurrences v) (occurrences w) := by
  induction h with
  | refl => exact keeps_of_subset (List.Subset.refl _)
  | tail _ hstep ih =>
    refine ih.trans ?_
    cases hstep with
    | here h =>
      cases h with
      | member l r k x => exact (keeps_visits (.here (.member l r k x)) "").2
      | element l r x => exact (keeps_visits (.here (.element l r x)) "").1
    | item l r h => exact (keeps_visits (.item l r h) "").1
    | entry l r k h => exact (keeps_visits (.entry l r k h) "").2

end Growth

section Nodes

variable {v w : Json} {m n : SchemaNode}

def scalars : Finset JsonType := {.string, .integer, .number, .boolean}

theorem valuesAt_ne_nil (hm : m ∈ inferSchema v) : valuesAt v m.path ≠ [] := by
  intro hnil
  obtain ⟨s, -, hne, -⟩ := summary_of_mem hm
  have hhead := head?_notesAt v m.path
  rw [hnil, List.head?_nil, Option.map_none, List.head?_eq_none_iff] at hhead
  exact hne hhead

theorem exists_value_of_keeps (h : Keeps (occurrences v) (occurrences w)) {path : String} {x : Json}
    (hx : x ∈ valuesAt v path) : ∃ y ∈ valuesAt w path, noteOf y = noteOf x := by
  obtain ⟨⟨q, y⟩, hy, rfl, hnote⟩ := h (path, x) (mem_valuesAt.mp hx)
  exact ⟨y, mem_valuesAt.mpr hy, hnote⟩

theorem eq_of_noteOf {x y : Json} (h : noteOf y = noteOf x) (hx : isContainer x = false) : y = x := by
  cases x <;> cases y <;> simp_all [noteOf, isContainer]

theorem kindOf_of_noteOf {x y : Json} (h : noteOf y = noteOf x) : kindOf y = kindOf x := by
  by_cases hx : isContainer x = true
  · cases x <;> cases y <;> simp_all [noteOf, kindOf, isContainer]
  · rw [eq_of_noteOf h (Bool.eq_false_iff.mpr hx)]

theorem scalarKinds_of_keeps (h : Keeps (occurrences v) (occurrences w)) (path : String) :
    scalarKinds (valuesAt v path) ⊆ scalarKinds (valuesAt w path) := by
  intro t ht
  obtain ⟨⟨x, hx, hkind⟩, hnot⟩ := mem_scalarKinds.mp ht
  obtain ⟨y, hy, hnote⟩ := exists_value_of_keeps h hx
  exact mem_scalarKinds.mpr ⟨⟨y, hy, (kindOf_of_noteOf hnote).trans hkind⟩, hnot⟩

theorem textsAt_of_keeps (h : Keeps (occurrences v) (occurrences w)) (path : String) :
    textsAt v path ⊆ textsAt w path := by
  intro text htext
  obtain ⟨x, hx, hasText⟩ := List.mem_filterMap.mp (List.mem_toFinset.mp htext)
  obtain ⟨y, hy, hnote⟩ := exists_value_of_keeps h hx
  refine List.mem_toFinset.mpr (List.mem_filterMap.mpr ⟨y, hy, ?_⟩)
  cases x with
  | str s => rwa [eq_of_noteOf hnote rfl]
  | null | bool b | num n | arr items | obj fields => cases hasText

/-- A scalar type means that scalars of this type occur and no others. -/
theorem scalarKinds_of_type (hm : m ∈ inferSchema v) (ht : m.type ∈ scalars) :
    scalarKinds (valuesAt v m.path) = {m.type} := by
  by_cases hopened : Opened v m.path
  · obtain ⟨t, hcontainer, -, htype⟩ := type_of_opened hm hopened
    rw [htype] at ht
    split at ht
    · simp only [containers, Finset.mem_insert, Finset.mem_singleton] at hcontainer
      obtain rfl | rfl := hcontainer <;> exact absurd ht (by decide)
    · exact absurd ht (by decide)
  · obtain ⟨-, hnull⟩ | hone | ⟨-, hmixed⟩ := (isJoin_scalarKinds hm hopened).cases
    · exact absurd (hnull ▸ ht) (by decide)
    · exact hone
    · exact absurd (hmixed ▸ ht) (by decide)

/-- A scalar type stays, unless other values come to its path. -/
theorem type_of_keeps (h : Keeps (occurrences v) (occurrences w)) (hm : m ∈ inferSchema v)
    (hn : n ∈ inferSchema w) (hpath : n.path = m.path) (ht : m.type ∈ scalars) :
    n.type = m.type ∨ n.type = .mixed := by
  have hmem : m.type ∈ scalarKinds (valuesAt w n.path) := by
    rw [hpath]
    refine scalarKinds_of_keeps h m.path ?_
    rw [scalarKinds_of_type hm ht]
    exact Finset.mem_singleton_self _
  by_cases hopened : Opened w n.path
  · exact .inr ((type_eq_mixed_iff hn ⟨_, hmem⟩).mpr (.inl hopened))
  · obtain ⟨hempty, -⟩ | hone | ⟨-, hmixed⟩ := (isJoin_scalarKinds hn hopened).cases
    · rw [hempty] at hmem
      cases hmem
    · rw [hone] at hmem
      exact .inl (Finset.mem_singleton.mp hmem).symm
    · exact .inr hmixed

theorem nullable_of_keeps (h : Keeps (occurrences v) (occurrences w)) (hm : m ∈ inferSchema v)
    (hn : n ∈ inferSchema w) (hpath : n.path = m.path) (hnull : m.nullable = true) : n.nullable = true := by
  rw [(nullable_enum_of_occurrences w n hn).1, hpath]
  obtain ⟨y, hy, hnote⟩ := exists_value_of_keeps h ((nullable_enum_of_occurrences v m hm).1.mp hnull)
  exact eq_of_noteOf hnote rfl ▸ hy

theorem mem_of_enumValues (hm : m ∈ inferSchema v) {values : List String} (he : m.enumValues = some values)
    (text : String) : text ∈ values ↔ text ∈ textsAt v m.path := by
  rw [(nullable_enum_of_occurrences v m hm).2] at he
  split at he
  · cases he
    exact Finset.mem_sort _
  · cases he

theorem enumValues_of_keeps (h : Keeps (occurrences v) (occurrences w)) (hm : m ∈ inferSchema v)
    (hn : n ∈ inferSchema w) (hpath : n.path = m.path) {a b : List String} (ha : m.enumValues = some a)
    (hb : n.enumValues = some b) : a ⊆ b := by
  intro text htext
  rw [mem_of_enumValues hn hb, hpath]
  exact textsAt_of_keeps h m.path ((mem_of_enumValues hm ha text).mp htext)

theorem enumChange_of_subset {old new : Option (List String)} (h : ∀ a ∈ old, ∀ b ∈ new, a ⊆ b)
    {change : ChangeType} (he : enumChange old new = some change) : change = .enum_expanded := by
  cases old with
  | none => cases he
  | some a =>
    cases new with
    | none => cases he
    | some b =>
      have hsub : a ⊆ b := h a rfl b rfl
      simp only [enumChange] at he
      split_ifs at he
      exact (Option.some.inj he).symm

/-- What may be reported of a path that both schemas have. -/
theorem pickChangeType_of_keeps (h : Keeps (occurrences v) (occurrences w)) (hm : m ∈ inferSchema v)
    (hn : n ∈ inferSchema w) (hpath : n.path = m.path) {change : ChangeType}
    (hpick : pickChangeType m n = some change) :
    change ∈ [.nullable_added, .enum_expanded, .array_item_type_changed] ∨
      change = .type_changed ∧ (n.type = .mixed ∨ m.type ∉ scalars) := by
  have hscalar := type_of_keeps h hm hn hpath
  rw [pickChangeType] at hpick
  split at hpick
  · next hne =>
    have hmixed : n.type = .mixed ∨ m.type ∉ scalars := by
      by_cases ht : m.type ∈ scalars
      · exact .inl ((hscalar ht).resolve_left (Ne.symm hne))
      · exact .inr ht
    split_ifs at hpick with hint hnum
    · obtain hmixed | hout := hmixed
      · cases hint.2.symm.trans hmixed
      · exact absurd (hint.1 ▸ by decide) hout
    · obtain hmixed | hout := hmixed
      · cases hnum.2.symm.trans hmixed
      · exact absurd (hnum.1 ▸ by decide) hout
    · exact .inr ⟨(Option.some.inj hpick).symm, hmixed⟩
  · split at hpick
    · next hne =>
      cases hnull : n.nullable with
      | true =>
        rw [hnull] at hpick
        cases hpick
        exact .inl (by decide)
      | false =>
        have hold : m.nullable = true := by
          rw [← Bool.not_eq_false]
          exact fun hold => hne (hold.trans hnull.symm)
        cases (nullable_of_keeps h hm hn hpath hold).symm.trans hnull
    · cases henum : enumChange m.enumValues n.enumValues with
      | some change' =>
        rw [henum] at hpick
        cases hpick
        rw [enumChange_of_subset (fun a ha b hb => enumValues_of_keeps h hm hn hpath ha hb) henum]
        exact .inl (by decide)
      | none =>
        rw [henum] at hpick
        dsimp only at hpick
        split at hpick
        · cases hpick
          exact .inl (by decide)
        · cases hpick

/-- When members and elements are only added, no diff reports a loss: nothing is removed or narrowed,
and a scalar type can only become `mixed`. -/
theorem growth_reports_no_loss (isPrintable : Char → Bool) (v w : Json) (h : Grows v w) (d : Diff)
    (hd : d ∈ diffSchemas isPrintable (inferSchema v) (inferSchema w)) :
    d.changeType ∈ [.added_field, .nullable_added, .enum_expanded, .array_item_type_changed] ∨
      d.changeType = .type_changed ∧
        (d.newType = some .mixed ∨ ∃ t ∈ d.oldType, t ∈ [.object, .array, .null, .mixed]) := by
  have hkeeps := keeps_occurrences h
  have hat := (mem_diffSchemas isPrintable _ _ d).mp hd
  rw [diffAt] at hat
  cases ho : (byPath (inferSchema v)).lookup d.path with
  | none =>
    cases hw : (byPath (inferSchema w)).lookup d.path with
    | none =>
      rw [ho, hw] at hat
      cases hat
    | some n =>
      rw [ho, hw] at hat
      rw [← Option.some.inj hat]
      exact .inl List.mem_cons_self
  | some m =>
    obtain ⟨hm, hmpath⟩ := lookup_byPath_inferSchema ho
    cases hw : (byPath (inferSchema w)).lookup d.path with
    | none =>
      obtain ⟨x, hx⟩ := List.exists_mem_of_ne_nil _ (valuesAt_ne_nil hm)
      obtain ⟨y, hy, -⟩ := exists_value_of_keeps hkeeps hx
      obtain ⟨n, hn, hnpath⟩ := exists_node hy
      rw [(lookup_byPath_eq_some_iff (nodup_inferSchema w)).mpr ⟨hn, hnpath.trans hmpath⟩] at hw
      cases hw
    | some n =>
      obtain ⟨hn, hnpath⟩ := lookup_byPath_inferSchema hw
      rw [ho, hw] at hat
      obtain ⟨change, hpick, hd⟩ := Option.map_eq_some_iff.mp hat
      rw [← hd]
      obtain hin | ⟨rfl, hmixed⟩ := pickChangeType_of_keeps hkeeps hm hn (hnpath.trans hmpath.symm) hpick
      · exact .inl (List.mem_cons_of_mem _ hin)
      · refine .inr ⟨rfl, hmixed.imp (congrArg some) fun hout => ⟨m.type, rfl, ?_⟩⟩
        have hunknown := type_ne_unknown hm
        revert hout hunknown
        cases m.type <;> decide

theorem growth_reports_no_loss_users :
    let v : Json := .obj [("users", .arr [.obj [("id", .num (.int 1))]])]
    let w : Json := .obj [("users", .arr [.obj [("id", .num (.int 1))], .obj [("id", .str "x")]]), ("total", .null)]
    ∃ d ∈ diffSchemas (fun _ => true) (inferSchema v) (inferSchema w), d.changeType = .type_changed ∧
      (d.newType = some .mixed ∨ ∃ t ∈ d.oldType, t ∈ [.object, .array, .null, .mixed]) := by
  intro v w
  obtain ⟨d, hd, hchange⟩ :
      ∃ d ∈ diffSchemas (fun _ => true) (inferSchema v) (inferSchema w), d.changeType = .type_changed := by
    decide +kernel
  have hitem : Inside Gains v (.obj [("users", .arr [.obj [("id", .num (.int 1))], .obj [("id", .str "x")]])]) :=
    .entry [] [] "users" (.here (.element [.obj [("id", .num (.int 1))]] [] _))
  have hgrows : Grows v w := .tail (.single hitem) (.here (.member [_] [] "total" .null))
  refine ⟨d, hd, (growth_reports_no_loss _ v w hgrows d hd).resolve_left fun hin => ?_⟩
  rw [hchange] at hin
  exact absurd hin (by decide)

end Nodes

end SchemaPilot.SchemaGrowth
