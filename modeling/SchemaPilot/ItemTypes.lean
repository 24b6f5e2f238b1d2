import SchemaPilot.NodeTypes

namespace SchemaPilot.ItemTypes

open Keyed SchemaInfer SchemaNotes NodeSummary Occurrences NodeTypes

def isArray : Json → Bool
  | .arr _ => true
  | _ => false

/-- A value around a place whose path is `q` where the path of the value is given. -/
inductive Around (q : String) : String → (Json → Json) → Prop
  | here : Around q q id
  | item {path : String} (l r : List Json) {c : Json → Json} :
    Around q (arrayPath path) c → Around q path (fun x => .arr (l ++ c x :: r))
  | entry {path : String} (l r : List (String × Json)) (k : String) {c : Json → Json} :
    Around q (joinPath path k) c → Around q path (fun x => .obj (l ++ (k, c x) :: r))

def arraysAt (data : Json) (path : String) : List Json := (valuesAt data path).filter isArray

section Noted

/-- The item type that the walk gives to an array. -/
def noted (items : List Json) : JsonType :=
  if items = [] then .unknown else if items.all isObject then .object else itemType items

def Notes (path : String) (t : JsonType) (p : String × Json) : Prop :=
  ∃ items, p = (path, .arr items) ∧ noted items = t

theorem items_mem_notes_iff (v : Json) (parent path : String) (t : JsonType) :
    ((path, .items t) ∈ notes parent v ↔ ∃ p ∈ visits parent v, Notes path t p) ∧
      ((path, .items t) ∈ fieldNotes parent (members v) ↔
        ∃ p ∈ fieldVisits parent (members v), Notes path t p) := by
  have hnone : ((path, .items t) ∈ ([] : List (String × Note)) ↔
      ∃ p ∈ ([] : List (String × Json)), Notes path t p) := by simp
  induction v using JsonOf.induct generalizing parent with
  | null | bool b | num n | str s => exact ⟨by simp [notes, visits, Notes], hnone⟩
  | obj fields ih =>
    have hf : (path, .items t) ∈ fieldNotes parent fields ↔
        ∃ p ∈ fieldVisits parent fields, Notes path t p := by
      rw [fieldNotes_eq, fieldVisits_eq]
      exact mem_flatMap_iff fun p hp => (ih p hp _).1
    refine ⟨?_, hf⟩
    have hself : ¬Notes path t (parent, .obj fields) := by rintro ⟨items, heq, -⟩; cases heq
    rw [notes, visits, List.exists_mem_cons_iff, or_iff_right hself, ← hf]
    split <;> simp
  | arr items ih =>
    refine ⟨?_, hnone⟩
    have hself : Notes path t (orItems parent, .arr items) ↔ path = orItems parent ∧ t = noted items := by
      simp only [Notes, Prod.mk.injEq, JsonOf.arr.injEq]
      constructor
      · rintro ⟨xs, ⟨rfl, rfl⟩, rfl⟩
        exact ⟨rfl, rfl⟩
      · rintro ⟨rfl, rfl⟩
        exact ⟨items, ⟨rfl, rfl⟩, rfl⟩
    rw [notes, visits, List.exists_mem_cons_iff, hself, noted]
    split_ifs with hnil hall hall
    · subst hnil
      simp [memberVisits]
    · subst hnil
      exact absurd rfl hall
    · have hmembers : (path, .items t) ∈ memberNotes (arrayPath parent) items ↔
          ∃ p ∈ memberVisits (arrayPath parent) items, Notes path t p := by
        rw [memberNotes_eq, memberVisits_eq]
        exact mem_flatMap_iff fun x hx => (ih x hx _).2
      have hrelax : (path, Note.items t) ∉ relaxNotes (arrayPath parent) items := by simp [relaxNotes]
      rw [List.mem_cons, List.mem_cons, List.mem_append, hmembers, or_iff_left hrelax]
      simp
    · have hitems : (path, .items t) ∈ itemNotes (arrayPath parent) items ↔
          ∃ p ∈ itemVisits (arrayPath parent) items, Notes path t p := by
        rw [itemNotes_eq, itemVisits_eq]
        exact mem_flatMap_iff fun x hx => (ih x hx _).1
      rw [List.mem_cons, List.mem_append, hitems]
      simp [or_comm]

theorem items_mem_notesAt_iff (data : Json) (path : String) (t : JsonType) :
    .items t ∈ notesAt path (walkNotes data) ↔
      ∃ items, .arr items ∈ valuesAt data path ∧ noted items = t := by
  have hwalk : (path, .items t) ∈ walkNotes data ↔ ∃ p ∈ occurrences data, Notes path t p := by
    cases data with
    | obj fields => exact (items_mem_notes_iff (.obj fields) "" path t).2
    | arr items => exact (items_mem_notes_iff (.arr items) "" path t).1
    | null | bool b | num n | str s => exact (items_mem_notes_iff _ "[root]" path t).1
  rw [mem_notesAt, hwalk]
  constructor
  · rintro ⟨p, hp, items, rfl, ht⟩
    exact ⟨items, mem_valuesAt.mpr hp, ht⟩
  · rintro ⟨items, hmem, ht⟩
    exact ⟨_, mem_valuesAt.mp hmem, items, rfl, ht⟩

/-- A node where one array is filed has the item type of that array. -/
theorem arrayItemType_of_only {data : Json} {n : SchemaNode} (hn : n ∈ inferSchema data)
    {items : List Json} (honly : arraysAt data n.path = [.arr items]) :
    n.arrayItemType = some (noted items).text := by
  obtain ⟨s, rfl, -, hs⟩ := summary_of_mem hn
  have hmem : ∀ xs, .arr xs ∈ valuesAt data (finalize s).path ↔ xs = items := by
    intro xs
    have harrays : .arr xs ∈ valuesAt data (finalize s).path ↔
        .arr xs ∈ arraysAt data (finalize s).path := by
      rw [arraysAt, List.mem_filter]
      exact (and_iff_left rfl).symm
    rw [harrays, honly, List.mem_singleton, JsonOf.arr.injEq]
  have hall : ∀ t, t ∈ itemTypes (notesAt (finalize s).path (walkNotes data)) ↔ t = noted items := by
    intro t
    have hnote : t ∈ itemTypes (notesAt (finalize s).path (walkNotes data)) ↔
        .items t ∈ notesAt (finalize s).path (walkNotes data) := by
      simp only [itemTypes, List.mem_filterMap]
      constructor
      · rintro ⟨m, hm, heq⟩
        cases m with
        | items u => exact Option.some.inj heq ▸ hm
        | container u | null | scalar v | optional => cases heq
      · exact fun hm => ⟨_, hm, rfl⟩
    rw [hnote, items_mem_notesAt_iff]
    constructor
    · rintro ⟨xs, hxs, rfl⟩
      rw [(hmem xs).mp hxs]
    · exact fun ht => ⟨items, (hmem items).mpr rfl, ht.symm⟩
  have hitem : (finalize s).arrayItemType = _ := hs.item
  rw [hitem]
  cases hlast : (itemTypes (notesAt (finalize s).path (walkNotes data))).getLast? with
  | none =>
    rw [List.getLast?_eq_none_iff] at hlast
    have hin := (hall _).mpr rfl
    rw [hlast] at hin
    cases hin
  | some t => rw [(hall t).mp (List.mem_of_getLast? hlast), Option.map_some]

theorem exists_node {data v : Json} {path : String} (h : v ∈ valuesAt data path) :
    ∃ n ∈ inferSchema data, n.path = path := by
  have hvalue : isValue (noteOf v) = true := by cases v <;> rfl
  have hnote : noteOf v ∈ notesAt path (walkNotes data) :=
    (mem_notesAt_iff data path hvalue).mpr ⟨v, h, rfl⟩
  exact exists_node_of_note hnote

end Noted

section Places

/-- The arrays of a value, whatever they hold, with their paths. -/
def arrayVisits (path : String) (v : Json) : List (String × Json) :=
  (visits path v).filter (fun p => isArray p.2)

theorem arrayVisits_obj (path : String) (fields : List (String × Json)) :
    arrayVisits path (.obj fields) = fields.flatMap (fun p => arrayVisits (joinPath path p.1) p.2) := by
  rw [arrayVisits, visits, fieldVisits_eq]
  exact List.filter_flatMap ..

/-- Whether the objects of an array are visited themselves is not seen among the arrays. -/
theorem arrayVisits_arr (path : String) (items : List Json) :
    arrayVisits path (.arr items) =
      (orItems path, .arr items) :: items.flatMap (arrayVisits (arrayPath path)) := by
  rw [arrayVisits, visits, List.filter_cons_of_pos rfl]
  congr 1
  split
  · next hall =>
    rw [memberVisits_eq, List.filter_flatMap]
    apply List.flatMap_congr
    intro x hx
    have hobject := List.all_eq_true.mp hall x hx
    cases x with
    | obj fields => exact (List.filter_cons_of_neg Bool.false_ne_true).symm
    | null | bool b | num n | str s | arr xs => cases hobject
  · rw [itemVisits_eq, List.filter_flatMap]
    rfl

theorem filter_occurrences (data : Json) :
    (occurrences data).filter (fun p => isArray p.2) = arrayVisits "" data := by
  cases data with
  | obj fields => exact (List.filter_cons_of_neg Bool.false_ne_true).symm
  | arr items | null | bool b | num n | str s => rfl

theorem length_arraysAt (data : Json) (path : String) :
    (arraysAt data path).length = ((arrayVisits "" data).map Prod.fst).count path := by
  rw [← filter_occurrences, arraysAt, valuesAt]
  induction occurrences data with
  | nil => rfl
  | cons p ps ih =>
    obtain ⟨q, v⟩ := p
    by_cases hq : q = path <;> cases hv : isArray v <;> simp [hq, hv, ih]

variable {q path : String} {c : Json → Json}

/-- The paths of the arrays around a place depend on those of the arrays in it. -/
theorem Around.paths (h : Around q path c) {x y : Json}
    (heq : (arrayVisits q x).map Prod.fst = (arrayVisits q y).map Prod.fst) :
    (arrayVisits path (c x)).map Prod.fst = (arrayVisits path (c y)).map Prod.fst := by
  induction h with
  | here => exact heq
  | item l r _ ih => simp [arrayVisits_arr, ih]
  | entry l r k _ ih => simp [arrayVisits_obj, ih]

/-- What is visited in an array is visited in all that is around it. -/
theorem Around.visits_subset (h : Around q path c) {items : List Json} {p : String × Json}
    (hp : p ∈ visits q (.arr items)) :
    p ∈ visits path (c (.arr items)) ∧
      (isObject (c (.arr items)) = true → p ∈ fieldVisits path (members (c (.arr items)))) := by
  induction h with
  | here => exact ⟨hp, fun hobject => absurd hobject Bool.false_ne_true⟩
  | @item path l r c _ ih =>
    refine ⟨?_, fun hobject => absurd hobject Bool.false_ne_true⟩
    have hmem : c (.arr items) ∈ l ++ c (.arr items) :: r := List.mem_append_right _ List.mem_cons_self
    rw [visits]
    refine List.mem_cons_of_mem _ ?_
    split
    · next hall =>
      rw [memberVisits_eq]
      exact List.mem_flatMap.mpr ⟨_, hmem, ih.2 (List.all_eq_true.mp hall _ hmem)⟩
    · rw [itemVisits_eq]
      exact List.mem_flatMap.mpr ⟨_, hmem, ih.1⟩
  | @entry path l r k c _ ih =>
    have hfields : p ∈ fieldVisits path (l ++ (k, c (.arr items)) :: r) := by
      rw [fieldVisits_eq]
      exact List.mem_flatMap.mpr ⟨_, List.mem_append_right _ List.mem_cons_self, ih.1⟩
    exact ⟨List.mem_cons_of_mem _ hfields, fun _ => hfields⟩

theorem Around.occurs (h : Around q "" c) {items : List Json} {p : String × Json}
    (hp : p ∈ visits q (.arr items)) : p ∈ occurrences (c (.arr items)) := by
  obtain ⟨hvisits, hfields⟩ := h.visits_subset hp
  cases h with
  | here | item l r h => exact hvisits
  | entry l r k h => exact hfields rfl

theorem Around.mem_array (h : Around q "" c) (items : List Json) :
    .arr items ∈ valuesAt (c (.arr items)) (orItems q) :=
  mem_valuesAt.mpr (h.occurs List.mem_cons_self)

/-- The elements of an array that has not objects alone occur at the path of its items. -/
theorem Around.mem_item (h : Around q "" c) {items : List Json} (hall : items.all isObject = false)
    {x : Json} (hx : x ∈ items) : x ∈ valuesAt (c (.arr items)) (arrayPath q) := by
  refine mem_valuesAt.mpr (h.occurs ?_)
  rw [visits, hall, if_neg Bool.false_ne_true, itemVisits_eq]
  refine List.mem_cons_of_mem _ (List.mem_flatMap.mpr ⟨x, hx, ?_⟩)
  cases x with
  | null | bool b | num n | str s | obj fields => exact List.mem_cons_self
  | arr xs =>
    rw [visits, orItems, if_neg (arrayPath_ne_empty q)]
    exact List.mem_cons_self

/-- An array stays the only one at its path when a null comes into it. -/
theorem Around.only_with_null (h : Around q "" c) {l r : List Json}
    (honly : arraysAt (c (.arr (l ++ r))) (orItems q) = [.arr (l ++ r)]) :
    arraysAt (c (.arr (l ++ .null :: r))) (orItems q) = [.arr (l ++ .null :: r)] := by
  have hpaths : (arrayVisits q (.arr (l ++ r))).map Prod.fst =
      (arrayVisits q (.arr (l ++ .null :: r))).map Prod.fst := by
    have hnull : arrayVisits (arrayPath q) .null = [] := rfl
    simp [arrayVisits_arr, hnull]
  have hlen : (arraysAt (c (.arr (l ++ .null :: r))) (orItems q)).length = 1 := by
    rw [length_arraysAt, ← h.paths hpaths, ← length_arraysAt, honly]
    rfl
  have hmem : .arr (l ++ .null :: r) ∈ arraysAt (c (.arr (l ++ .null :: r))) (orItems q) :=
    List.mem_filter.mpr ⟨h.mem_array _, rfl⟩
  obtain ⟨v, hv⟩ := List.length_eq_one_iff.mp hlen
  rw [hv, List.mem_singleton] at hmem
  rw [hv, hmem]

end Places

section Types

def scalarKinds (vs : List Json) : Finset JsonType := (vs.filterMap kindOf).toFinset \ containers

/-- The first value at the path is an object or an array. -/
def Opened (data : Json) (path : String) : Prop :=
  ∃ first ∈ (valuesAt data path).head?, isContainer first = true

theorem mem_scalarKinds {vs : List Json} {t : JsonType} :
    t ∈ scalarKinds vs ↔ (∃ v ∈ vs, kindOf v = some t) ∧ t ∉ containers := by
  rw [scalarKinds, Finset.mem_sdiff, List.mem_toFinset, List.mem_filterMap]

theorem scalarKinds_subset {vs ws : List Json} (h : vs ⊆ ws) : scalarKinds vs ⊆ scalarKinds ws := by
  intro t ht
  obtain ⟨⟨v, hv, hkind⟩, hnot⟩ := mem_scalarKinds.mp ht
  exact mem_scalarKinds.mpr ⟨⟨v, h hv, hkind⟩, hnot⟩

theorem proper_scalarKinds {vs : List Json} {t : JsonType} (h : t ∈ scalarKinds vs) :
    t ≠ .null ∧ t ≠ .mixed ∧ t ≠ .unknown := by
  obtain ⟨⟨v, -, hkind⟩, hnot⟩ := mem_scalarKinds.mp h
  cases v with
  | null => cases hkind
  | obj fields | arr items =>
    cases hkind
    exact absurd (by decide) hnot
  | bool b | str s =>
    cases hkind
    simp [scalarType]
  | num x =>
    cases hkind
    cases x <;> simp [scalarType]

/-- Scalar kinds are known from their join, unless there are several. -/
theorem scalarKinds_eq_of_isJoin {vs ws : List Json} {t : JsonType} (hv : IsJoin (scalarKinds vs) t)
    (hw : IsJoin (scalarKinds ws) t) (hmany : ¬1 < (scalarKinds ws).card) :
    scalarKinds vs = scalarKinds ws := by
  have hproper : ∀ us, scalarKinds us = {t} → t ≠ .null ∧ t ≠ .mixed := by
    intro us hus
    have ht := proper_scalarKinds (hus ▸ Finset.mem_singleton_self t)
    exact ⟨ht.1, ht.2.1⟩
  obtain ⟨hempty, rfl⟩ | hone | ⟨hcard, -⟩ := hw.cases
  · obtain ⟨hvs, -⟩ | hvs | ⟨-, ht⟩ := hv.cases
    · rw [hvs, hempty]
    · exact absurd rfl (hproper _ hvs).1
    · cases ht
  · obtain ⟨-, rfl⟩ | hvs | ⟨-, rfl⟩ := hv.cases
    · exact absurd rfl (hproper _ hone).1
    · rw [hvs, hone]
    · exact absurd rfl (hproper _ hone).2
  · exact absurd hcard hmany

/-- What the walk counts for an array that has not objects alone. -/
def counted (items : List Json) : List JsonType := (items.map scalarType).filter (· ≠ .null)

theorem isJoin_itemType (items : List Json) : IsJoin (counted items).toFinset (itemType items) := by
  have hset : (counted items).toFinset = (counted items).dedup.toFinset := by
    ext t
    rw [List.mem_toFinset, List.mem_toFinset, List.mem_dedup]
  have hmerged : itemType items = merged (counted items).dedup := by
    have hnodup := List.nodup_dedup (counted items)
    rw [itemType]
    rw [counted] at hnodup ⊢
    generalize ((items.map scalarType).filter (· ≠ .null)).dedup = ts at hnodup ⊢
    obtain _ | ⟨t, _ | ⟨u, ts⟩⟩ := ts
    · rfl
    · rfl
    · have hne : t ≠ u := fun he => (List.nodup_cons.mp hnodup).1 (he ▸ List.mem_cons_self)
      exact (merged_of_ne List.mem_cons_self (List.mem_cons_of_mem _ List.mem_cons_self) hne).symm
  rw [hset, hmerged]
  exact isJoin_merged

/-- Objects and arrays are counted as unknown. -/
theorem toFinset_counted (items : List Json) :
    (counted items).toFinset = scalarKinds items ∪ if items.any isContainer then {.unknown} else ∅ := by
  ext t
  have hcounted : t ∈ (counted items).toFinset ↔ ∃ x ∈ items, scalarType x = t ∧ t ≠ .null := by
    simp only [counted, List.mem_toFinset, List.mem_filter, List.mem_map, decide_eq_true_eq,
      ← exists_and_right, and_assoc]
  have hunknown : (t ∈ if items.any isContainer then ({.unknown} : Finset JsonType) else ∅) ↔
      ∃ x ∈ items, isContainer x = true ∧ t = .unknown := by
    by_cases h : items.any isContainer
    · rw [if_pos h, Finset.mem_singleton]
      obtain ⟨x, hx, hc⟩ := List.any_eq_true.mp h
      exact ⟨fun ht => ⟨x, hx, hc, ht⟩, fun ⟨_, _, _, ht⟩ => ht⟩
    · rw [if_neg h]
      refine iff_of_false (Finset.notMem_empty t) ?_
      rintro ⟨x, hx, hc, -⟩
      exact h (List.any_eq_true.mpr ⟨x, hx, hc⟩)
  rw [hcounted, Finset.mem_union, mem_scalarKinds, hunknown]
  constructor
  · rintro ⟨x, hx, rfl, hnull⟩
    cases x with
    | null => exact absurd rfl hnull
    | obj fields | arr xs => exact .inr ⟨_, hx, rfl, rfl⟩
    | bool b | str s => exact .inl ⟨⟨_, hx, rfl⟩, by simp [scalarType, containers]⟩
    | num n => exact .inl ⟨⟨_, hx, rfl⟩, by cases n <;> simp [scalarType, containers]⟩
  · rintro (⟨⟨x, hx, hkind⟩, hnot⟩ | ⟨x, hx, hc, rfl⟩)
    · refine ⟨x, hx, ?_, (proper_scalarKinds (mem_scalarKinds.mpr ⟨⟨x, hx, hkind⟩, hnot⟩)).1⟩
      cases x with
      | null => cases hkind
      | obj fields | arr xs =>
        cases hkind
        exact absurd (by decide) hnot
      | bool b | str s | num n => exact Option.some.inj hkind
    · cases x with
      | obj fields | arr xs => exact ⟨_, hx, rfl, by decide⟩
      | null | bool b | str s | num n => cases hc

theorem isJoin_scalarKinds {data : Json} {n : SchemaNode} (hn : n ∈ inferSchema data)
    (h : ¬Opened data n.path) : IsJoin (scalarKinds (valuesAt data n.path)) n.type :=
  isJoin_of_not_opened hn h

end Types

section ItemType

/-- All elements but the nulls are such, and some element is. -/
def AllBut (such : Json → Bool) (items : List Json) : Prop :=
  (∀ x ∈ items, x = .null ∨ such x = true) ∧ ∃ x ∈ items, such x = true

instance (such : Json → Bool) (items : List Json) : Decidable (AllBut such items) :=
  inferInstanceAs (Decidable (_ ∧ _))

/-- The item type that an array should have. -/
structure Fits (data : Json) (itemPath : String) (items : List Json) (type : Option String) : Prop where
  object : AllBut isObject items → type = some "object"
  array : AllBut isArray items → type = some "array"
  rest : ¬AllBut isObject items → ¬AllBut isArray items →
    ∃ m ∈ inferSchema data, m.path = itemPath ∧ type = some m.type.text

/-- The item type of the array fits it, and no null that comes into the array changes it. -/
def ItemTypeLaw (c : Json → Json) (q : String) (items : List Json) : Prop :=
  ∃ n ∈ inferSchema (c (.arr items)), n.path = orItems q ∧
    Fits (c (.arr items)) (arrayPath q) items n.arrayItemType ∧
    ∀ l r, items = l ++ r →
      ∃ m ∈ inferSchema (c (.arr (l ++ .null :: r))), m.path = orItems q ∧
        m.arrayItemType = n.arrayItemType

/-- Some element is no object. If none is an object or an array, there are scalars of two kinds, or the
values at the path of the items begin with no object or array and have no other scalar kinds than
the elements. Otherwise some element is a scalar, and the values at that path begin with an object
or an array or have two scalar kinds. -/
def Uniform (data : Json) (itemPath : String) (items : List Json) : Prop :=
  items.all isObject = false ∧
    if items.any isContainer then
      (scalarKinds items).Nonempty ∧
        (Opened data itemPath ∨ 1 < (scalarKinds (valuesAt data itemPath)).card)
    else
      1 < (scalarKinds items).card ∨
        ¬Opened data itemPath ∧ scalarKinds (valuesAt data itemPath) = scalarKinds items

theorem text_inj {t u : JsonType} : t.text = u.text ↔ t = u := by
  cases t <;> cases u <;> decide

theorem itemType_with_null (l r : List Json) : itemType (l ++ .null :: r) = itemType (l ++ r) := by
  have hcounted : counted (l ++ .null :: r) = counted (l ++ r) := by
    simp [counted, scalarType]
  exact (isJoin_itemType _).unique (hcounted ▸ isJoin_itemType _)

/-- The type of a node where a scalar occurs. -/
theorem type_eq_mixed_iff {data : Json} {n : SchemaNode} (hn : n ∈ inferSchema data)
    (h : (scalarKinds (valuesAt data n.path)).Nonempty) :
    n.type = .mixed ↔ Opened data n.path ∨ 1 < (scalarKinds (valuesAt data n.path)).card := by
  by_cases hopened : Opened data n.path
  · obtain ⟨t, -, -, ht⟩ := type_of_opened hn hopened
    exact iff_of_true (ht.trans (if_neg h.ne_empty)) (.inl hopened)
  · rw [or_iff_right hopened]
    obtain ⟨hempty, -⟩ | hone | ⟨hmany, ht⟩ := (isJoin_scalarKinds hn hopened).cases
    · exact absurd hempty h.ne_empty
    · have hmem : n.type ∈ scalarKinds (valuesAt data n.path) := hone ▸ Finset.mem_singleton_self _
      rw [hone, Finset.card_singleton]
      exact iff_of_false (proper_scalarKinds hmem).2.1 (lt_irrefl 1)
    · exact iff_of_true ht hmany

theorem type_ne_unknown {data : Json} {n : SchemaNode} (hn : n ∈ inferSchema data) : n.type ≠ .unknown := by
  by_cases hopened : Opened data n.path
  · obtain ⟨t, ht, -, heq⟩ := type_of_opened hn hopened
    rw [heq]
    split
    · rintro rfl
      exact absurd ht (by decide)
    · decide
  · obtain ⟨-, ht⟩ | hone | ⟨-, ht⟩ := (isJoin_scalarKinds hn hopened).cases
    · rw [ht]
      decide
    · have hmem : n.type ∈ scalarKinds (valuesAt data n.path) := hone ▸ Finset.mem_singleton_self _
      exact (proper_scalarKinds hmem).2.2
    · rw [ht]
      decide

section Items

variable {data : Json} {n : SchemaNode} {items : List Json}

theorem not_allBut_of_scalar {such : Json → Bool} (hsuch : ∀ x, such x = true → isContainer x = true)
    (h : (scalarKinds items).Nonempty) : ¬AllBut such items := by
  rintro ⟨hall, -⟩
  obtain ⟨t, ht⟩ := h
  obtain ⟨⟨x, hx, hkind⟩, hnot⟩ := mem_scalarKinds.mp ht
  obtain rfl | hx := hall x hx
  · cases hkind
  · have hcontainer := hsuch x hx
    cases x <;> cases hcontainer <;> cases hkind <;> exact absurd (by decide) hnot

theorem isContainer_of_isObject (x : Json) (h : isObject x = true) : isContainer x = true := by
  cases x <;> first | rfl | cases h

theorem isContainer_of_isArray (x : Json) (h : isArray x = true) : isContainer x = true := by
  cases x <;> first | rfl | cases h

theorem fits_iff (hn : n ∈ inferSchema data) (t : JsonType) (hobject : ¬AllBut isObject items)
    (harray : ¬AllBut isArray items) : Fits data n.path items (some t.text) ↔ t = n.type := by
  constructor
  · intro h
    obtain ⟨m, hm, hpath, ht⟩ := h.rest hobject harray
    obtain rfl : m = n := List.inj_on_of_nodup_map (nodup_inferSchema data) hm hn hpath
    exact text_inj.mp (Option.some.inj ht)
  · rintro rfl
    exact ⟨fun h => absurd h hobject, fun h => absurd h harray, fun _ _ => ⟨n, hn, rfl, rfl⟩⟩

/-- The elements are scalars and nulls. -/
theorem itemType_eq_type_iff (hn : n ∈ inferSchema data) (hsub : items ⊆ valuesAt data n.path)
    (hcontainers : items.any isContainer = false) :
    itemType items = n.type ↔ 1 < (scalarKinds items).card ∨
      ¬Opened data n.path ∧ scalarKinds (valuesAt data n.path) = scalarKinds items := by
  have hjoin : IsJoin (scalarKinds items) (itemType items) := by
    have h := isJoin_itemType items
    rwa [toFinset_counted, hcontainers, if_neg Bool.false_ne_true, Finset.union_empty] at h
  have hkinds := scalarKinds_subset hsub
  by_cases hmany : 1 < (scalarKinds items).card
  · have hcard := hmany.trans_le (Finset.card_le_card hkinds)
    have hmixed := (type_eq_mixed_iff hn (Finset.card_pos.mp (by omega))).mpr (.inr hcard)
    exact iff_of_true ((hjoin.many hmany).trans hmixed.symm) (.inl hmany)
  · rw [or_iff_right hmany]
    constructor
    · intro heq
      have hopened : ¬Opened data n.path := by
        intro hopened
        obtain ⟨t, ht, -, htype⟩ := type_of_opened hn hopened
        have hne := ne_of_mem_containers ht
        obtain ⟨-, hnull⟩ | hone | ⟨hcard, -⟩ := hjoin.cases
        · rw [← heq, hnull] at htype
          split at htype
          · exact hne.2 htype.symm
          · cases htype
        · have hmem : itemType items ∈ scalarKinds items := hone ▸ Finset.mem_singleton_self _
          rw [← heq] at htype
          split at htype
          · exact (mem_scalarKinds.mp hmem).2 (htype ▸ ht)
          · exact (proper_scalarKinds hmem).2.1 htype
        · exact hmany hcard
      have hnode := isJoin_scalarKinds hn hopened
      exact ⟨hopened, scalarKinds_eq_of_isJoin hnode (heq ▸ hjoin) hmany⟩
    · rintro ⟨hopened, hsame⟩
      exact hjoin.unique (hsame ▸ isJoin_scalarKinds hn hopened)

/-- The item type fits an array of scalars, nulls, objects and arrays, not all of them objects. -/
theorem fits_itemType_iff (hn : n ∈ inferSchema data) (hsub : items ⊆ valuesAt data n.path)
    (hall : items.all isObject = false) :
    Fits data n.path items (some (itemType items).text) ↔ Uniform data n.path items := by
  rw [Uniform, and_iff_right hall]
  by_cases hcontainers : items.any isContainer
  · rw [if_pos hcontainers]
    have hjoin := isJoin_itemType items
    rw [toFinset_counted, if_pos hcontainers] at hjoin
    obtain hempty | hscalar := (scalarKinds items).eq_empty_or_nonempty
    · -- the elements count as unknown, which is the type of no node
      rw [hempty, Finset.empty_union] at hjoin
      refine iff_of_false (fun h => ?_) fun h => h.1.ne_empty hempty
      have htype := hjoin.one _ rfl
      by_cases hobject : AllBut isObject items
      · have ht := h.object hobject
        rw [htype] at ht
        exact absurd ht (by decide)
      · by_cases harray : AllBut isArray items
        · have ht := h.array harray
          rw [htype] at ht
          exact absurd ht (by decide)
        · exact type_ne_unknown hn (((fits_iff hn _ hobject harray).mp h).symm.trans htype)
    · have hmixed : itemType items = .mixed := by
        obtain ⟨t, ht⟩ := hscalar
        refine hjoin.many (one_lt_card_of_mem (Finset.mem_union_left _ ht)
          (Finset.mem_union_right _ (Finset.mem_singleton_self _)) (proper_scalarKinds ht).2.2)
      rw [fits_iff hn _ (not_allBut_of_scalar isContainer_of_isObject hscalar)
        (not_allBut_of_scalar isContainer_of_isArray hscalar), hmixed, eq_comm,
        type_eq_mixed_iff hn (hscalar.mono (scalarKinds_subset hsub)), and_iff_right hscalar]
  · have hno : ∀ such : Json → Bool, (∀ x, such x = true → isContainer x = true) →
        ¬AllBut such items :=
      fun such hsuch h => hcontainers (List.any_eq_true.mpr (h.2.imp fun x hx => ⟨hx.1, hsuch x hx.2⟩))
    rw [if_neg hcontainers, fits_iff hn _ (hno _ isContainer_of_isObject) (hno _ isContainer_of_isArray)]
    exact itemType_eq_type_iff hn hsub (Bool.eq_false_iff.mpr hcontainers)

end Items

section InContext

variable {c : Json → Json} {q : String}

theorem noted_of_not_all {items : List Json} (hall : items.all isObject = false) :
    noted items = itemType items := by
  have hne : items ≠ [] := by
    rintro rfl
    cases hall
  rw [noted, if_neg hne, hall, if_neg Bool.false_ne_true]

/-- A null among the elements keeps the item type from being `object`. -/
theorem noted_with_null (l r : List Json) : noted (l ++ .null :: r) = itemType (l ++ r) := by
  rw [noted_of_not_all (by simp [isObject]), itemType_with_null]

theorem item_with_null (hc : Around q "" c) {l r : List Json}
    (honly : arraysAt (c (.arr (l ++ r))) (orItems q) = [.arr (l ++ r)]) :
    ∃ m ∈ inferSchema (c (.arr (l ++ .null :: r))), m.path = orItems q ∧
      m.arrayItemType = some (itemType (l ++ r)).text := by
  obtain ⟨m, hm, hpath⟩ := exists_node (hc.mem_array (l ++ .null :: r))
  refine ⟨m, hm, hpath, ?_⟩
  rw [arrayItemType_of_only hm (hpath ▸ hc.only_with_null honly), noted_with_null]

theorem itemType_ne_object {items : List Json} : itemType items ≠ .object := by
  intro hobject
  obtain ⟨-, ht⟩ | hone | ⟨-, ht⟩ := (isJoin_itemType items).cases
  · cases ht.symm.trans hobject
  · have hmem : JsonType.object ∈ (counted items).toFinset :=
      hobject ▸ hone ▸ Finset.mem_singleton_self _
    obtain ⟨x, -, hx⟩ : ∃ x ∈ items, scalarType x = .object := by
      simpa [counted] using hmem
    cases x with
    | num n => cases n <;> cases hx
    | _ => cases hx
  · cases ht.symm.trans hobject

end InContext

/-- The only array at a path has a fitting item type that no null changes exactly in these cases. -/
theorem item_type_law_iff (c : Json → Json) (q : String) (items : List Json) (hc : Around q "" c)
    (hne : items ≠ []) (honly : arraysAt (c (.arr items)) (orItems q) = [.arr items]) :
    ItemTypeLaw c q items ↔ Uniform (c (.arr items)) (arrayPath q) items := by
  obtain ⟨n, hn, hpath⟩ := exists_node (hc.mem_array items)
  have hitem := arrayItemType_of_only hn (hpath ▸ honly)
  by_cases hall : items.all isObject
  · refine iff_of_false ?_ fun h => Bool.false_ne_true (h.1.symm.trans hall)
    rintro ⟨m, hm, hm', -, hnull⟩
    obtain rfl : m = n := List.inj_on_of_nodup_map (nodup_inferSchema _) hm hn (hm'.trans hpath.symm)
    obtain ⟨w, hw, hw', heq⟩ := hnull [] items rfl
    obtain ⟨w', hv, hv', hv''⟩ := item_with_null (l := []) hc honly
    obtain rfl : w = w' := List.inj_on_of_nodup_map (nodup_inferSchema _) hw hv (hw'.trans hv'.symm)
    rw [hv'', hitem, noted, if_neg hne, if_pos hall, Option.some.injEq, text_inj] at heq
    exact itemType_ne_object heq
  · rw [Bool.not_eq_true] at hall
    obtain ⟨x, hx⟩ := List.exists_mem_of_ne_nil _ hne
    obtain ⟨m, hm, hmpath⟩ := exists_node (hc.mem_item hall hx)
    have hsub : items ⊆ valuesAt (c (.arr items)) m.path := fun y hy => hmpath ▸ hc.mem_item hall hy
    rw [noted_of_not_all hall] at hitem
    rw [← hmpath, ← fits_itemType_iff hm hsub hall, hmpath, ← hitem]
    constructor
    · rintro ⟨n', hn', hn'', hfits, -⟩
      obtain rfl : n' = n := List.inj_on_of_nodup_map (nodup_inferSchema _) hn' hn (hn''.trans hpath.symm)
      exact hfits
    · refine fun hfits => ⟨n, hn, hpath, hfits, ?_⟩
      rintro l r rfl
      rw [hitem]
      exact item_with_null hc honly

theorem item_type_law_iff_scores :
    let c : Json → Json := fun x => .obj [("scores", x)]
    ItemTypeLaw c "scores" [.obj [], .null, .num (.int 1)] := by
  intro c
  have hc : Around "scores" "" c := .entry [] [] "scores" .here
  refine (item_type_law_iff c "scores" _ hc (List.cons_ne_nil _ _) (by decide +kernel)).mpr ⟨by decide, ?_⟩
  rw [if_pos (by decide)]
  exact ⟨⟨.integer, by decide⟩, .inl ⟨.obj [], by decide +kernel, rfl⟩⟩

/-- A null among objects makes their type unknown, and so it is with an array of arrays. -/
theorem item_type_unknown :
    let c : Json → Json := fun x => .obj [("users", x)]
    Around "users" "" c ∧ ∀ items ∈ [[.obj [], .null], [.arr []]],
      arraysAt (c (.arr items)) (orItems "users") = [.arr items] ∧ ¬ItemTypeLaw c "users" items := by
  intro c
  have hunknown : ∀ items ∈ [[.obj [], .null], [.arr []]], ∀ n ∈ inferSchema (c (.arr items)),
      n.path = orItems "users" → n.arrayItemType = some "unknown" := by decide +kernel
  refine ⟨.entry [] [] "users" .here, fun items hitems => ⟨?_, ?_⟩⟩
  · revert items
    decide +kernel
  · rintro ⟨n, hn, hpath, hfits, -⟩
    have hitem := hunknown items hitems n hn hpath
    rw [hitem] at hfits
    simp only [List.mem_cons, List.not_mem_nil, or_false] at hitems
    obtain rfl | rfl := hitems
    · have hobject : AllBut isObject [.obj [], .null] := by decide
      exact absurd (hfits.object hobject) (by decide)
    · have harray : AllBut isArray [.arr []] := by decide
      exact absurd (hfits.array harray) (by decide)

end ItemType

end SchemaPilot.ItemTypes
