import SchemaPilot.PayloadPaths
import Mathlib.Data.List.Dedup

namespace SchemaPilot.DiffReport

open Keyed Canonical Classifier PayloadPaths

section Except

variable {α β ε : Type}

theorem mapM_cons_eq_ok {f : α → Except ε β} {x : α} {xs : List α} {ys : List β} :
    (x :: xs).mapM f = .ok ys ↔ ∃ y zs, f x = .ok y ∧ xs.mapM f = .ok zs ∧ ys = y :: zs := by
  rw [List.mapM_cons]
  cases f x with
  | error e => simp [bind, Except.bind]
  | ok y =>
    cases xs.mapM f with
    | error e => simp [bind, Except.bind]
    | ok zs => simp [bind, Except.bind, pure, Except.pure, eq_comm]

/-- A traversal succeeds when every element does. -/
theorem mapM_succeeds_iff (f : α → Except ε β) (xs : List α) :
    (∃ ys, xs.mapM f = .ok ys) ↔ ∀ x ∈ xs, ∃ y, f x = .ok y := by
  induction xs with
  | nil => exact ⟨fun _ => by simp, fun _ => ⟨[], rfl⟩⟩
  | cons x xs ih =>
    simp only [mapM_cons_eq_ok, List.forall_mem_cons, ← ih]
    constructor
    · rintro ⟨ys, y, zs, hy, hz, -⟩
      exact ⟨⟨y, hy⟩, zs, hz⟩
    · rintro ⟨⟨y, hy⟩, zs, hz⟩
      exact ⟨y :: zs, y, zs, hy, hz, rfl⟩

theorem mem_mapM {f : α → Except ε β} {xs : List α} {ys : List β} (h : xs.mapM f = .ok ys) (y : β) :
    y ∈ ys ↔ ∃ x ∈ xs, f x = .ok y := by
  induction xs generalizing ys with
  | nil =>
    obtain rfl : [] = ys := Except.ok.inj h
    simp
  | cons x xs ih =>
    obtain ⟨z, zs, hz, hzs, rfl⟩ := mapM_cons_eq_ok.mp h
    simp [hz, ih hzs, eq_comm]

theorem mapM_exists_mem_iff (f : α → Except ε β) (xs : List α) (P : β → Prop) :
    (∃ ys, xs.mapM f = .ok ys ∧ ∃ y ∈ ys, P y) ↔
      (∀ x ∈ xs, ∃ y, f x = .ok y) ∧ ∃ x ∈ xs, ∃ y, f x = .ok y ∧ P y := by
  rw [← mapM_succeeds_iff]
  constructor
  · rintro ⟨ys, h, y, hy, hP⟩
    obtain ⟨x, hx, hxy⟩ := (mem_mapM h y).mp hy
    exact ⟨⟨ys, h⟩, x, hx, y, hxy, hP⟩
  · rintro ⟨⟨ys, h⟩, x, hx, y, hxy, hP⟩
    exact ⟨ys, h, y, (mem_mapM h y).mpr ⟨x, hx, hxy⟩, hP⟩

end Except

section Summary

theorem rank_injective {c d : Compatibility} (h : c.rank = d.rank) : c = d := by
  cases c <;> cases d <;> first | rfl | cases h

theorem foldl_rank (diffs : List DiffItem) (c : Compatibility) :
    let m := diffs.foldl
      (fun c e => if c.rank < e.classification.rank then e.classification else c) c
    (m = c ∨ ∃ d ∈ diffs, d.classification = m) ∧ c.rank ≤ m.rank ∧
      ∀ d ∈ diffs, d.classification.rank ≤ m.rank := by
  induction diffs generalizing c with
  | nil => simp
  | cons d diffs ih =>
    obtain ⟨hm, hc, hd⟩ := ih (if c.rank < d.classification.rank then d.classification else c)
    simp only [List.foldl_cons, List.mem_cons, exists_eq_or_imp, forall_eq_or_imp]
    split at hm <;> rename_i hlt <;> simp only [hlt, if_true, if_false] at hc hd ⊢
    · exact ⟨.inr (hm.imp Eq.symm id), by omega, hc, hd⟩
    · exact ⟨hm.imp id .inr, hc, by omega, hd⟩

/-- The summary of a report is the classification of one of its items, and none ranks higher. -/
theorem summarize_spec {diffs : List DiffItem} (h : diffs ≠ []) :
    (∃ d ∈ diffs, d.classification = summarizeClassification diffs) ∧
      ∀ d ∈ diffs, d.classification.rank ≤ (summarizeClassification diffs).rank := by
  obtain ⟨d, diffs, rfl⟩ := List.exists_cons_of_ne_nil h
  obtain ⟨hm, hc, hd⟩ := foldl_rank diffs d.classification
  simp only [List.mem_cons, exists_eq_or_imp, forall_eq_or_imp]
  exact ⟨hm.imp Eq.symm id, hc, hd⟩

theorem summarize_eq_breaking_iff (diffs : List DiffItem) :
    summarizeClassification diffs = .BREAKING ↔ ∃ d ∈ diffs, d.classification = .BREAKING := by
  constructor
  · intro h
    have hne : diffs ≠ [] := by rintro rfl; cases h
    exact h ▸ (summarize_spec hne).1
  · rintro ⟨d, hd, hc⟩
    have hr := (summarize_spec (List.ne_nil_of_mem hd)).2 d hd
    rw [hc] at hr
    refine rank_injective (le_antisymm ?_ hr)
    cases summarizeClassification diffs <;> simp [Compatibility.rank]

end Summary

section Report

variable (isPrintable : Char → Bool)

def becomesNullable (old new : Schema) : Bool :=
  nullableOf old = some false && nullableOf new = some true

def becomesRequired (old new : Schema) : Bool :=
  nullableOf old = some true && nullableOf new = some false

/-- Both nodes hold an `enum` list, and one of the lists has an element that no set can hold. -/
def enumsUnhashable (old new : Schema) : Bool :=
  match get old "enum", get new "enum" with
  | some (.arr oldEnum), some (.arr newEnum) => (oldEnum ++ newEnum).any (unhashable · |>.isSome)
  | _, _ => false

/-- Two nodes of one type and nullability whose enums cannot be compared. -/
def clash : Option Schema → Option Schema → Bool
  | some old, some new =>
    typeOf isPrintable old = typeOf isPrintable new && !becomesNullable old new &&
      !becomesRequired old new && enumsUnhashable old new
  | _, _ => false

/-- A removal of a node not marked optional, a change of type other than from integer
to number, or a change of nullability that leaves `null` out. -/
def breaking : Option Schema → Option Schema → Bool
  | some old, none => requiredOf old true
  | some old, some new =>
    if typeOf isPrintable old = typeOf isPrintable new then becomesRequired old new
    else !(typeOf isPrintable old = "integer" && typeOf isPrintable new = "number")
  | none, _ => false

theorem classifyTypes_eq_breaking_iff (oldT newT : String) :
    (classifyTypes oldT newT).1 = .BREAKING ↔ ¬(oldT = "integer" ∧ newT = "number") := by
  rw [classifyTypes]
  split
  · simpa
  · next h =>
    simp only [h, not_false_eq_true, iff_true]
    split_ifs <;> rfl

theorem toSet_isOk_iff (xs : List Schema) :
    (∃ s, toSet xs = .ok s) ↔ ∀ x ∈ xs, unhashable x = none := by
  rw [toSet]
  rw [← List.findSome?_eq_none_iff]
  cases xs.findSome? unhashable <;> simp

theorem compareEnums_isOk_iff (xs ys : List Schema) :
    (∃ r, compareEnums xs ys = .ok r) ↔ (xs ++ ys).any (unhashable · |>.isSome) = false := by
  have hok : (xs ++ ys).any (unhashable · |>.isSome) = false ↔
      (∃ s, toSet xs = .ok s) ∧ ∃ s, toSet ys = .ok s := by
    simp [toSet_isOk_iff]
  rw [hok, compareEnums]
  cases toSet xs with
  | error e => simp [bind, Except.bind]
  | ok s =>
    cases toSet ys with
    | error e => simp [bind, Except.bind]
    | ok t =>
      simp only [bind, Except.bind, Except.ok.injEq, exists_eq', and_self, iff_true]
      split_ifs <;> exact ⟨_, rfl⟩

theorem classifyEnum_cases (old new : Schema) :
    (∃ xs ys, get old "enum" = some (.arr xs) ∧ get new "enum" = some (.arr ys) ∧
      classifyEnum old new = compareEnums xs ys ∧
      enumsUnhashable old new = (xs ++ ys).any (unhashable · |>.isSome)) ∨
    classifyEnum old new = .ok (.SAFE, "no compatibility risk") ∧
      enumsUnhashable old new = false := by
  by_cases h : ∃ xs ys, get old "enum" = some (.arr xs) ∧ get new "enum" = some (.arr ys)
  · obtain ⟨xs, ys, hx, hy⟩ := h
    exact .inl ⟨xs, ys, hx, hy, by rw [classifyEnum, hx, hy], by rw [enumsUnhashable, hx, hy]⟩
  · right
    unfold classifyEnum enumsUnhashable
    constructor <;> split
    · next hx hy => exact absurd ⟨_, _, hx, hy⟩ h
    · rfl
    · next hx hy => exact absurd ⟨_, _, hx, hy⟩ h
    · rfl

theorem classifyEnum_isOk_iff (old new : Schema) :
    (∃ r, classifyEnum old new = .ok r) ↔ enumsUnhashable old new = false := by
  obtain ⟨xs, ys, -, -, hc, he⟩ | ⟨hc, he⟩ := classifyEnum_cases old new
  · rw [hc, he, compareEnums_isOk_iff]
  · simp [hc, he]

/-- The classification of one path fails on a clash of enums and on nothing else. -/
theorem classify_isOk_iff (old new : Option Schema) :
    (∃ r, classify isPrintable old new = .ok r) ↔ clash isPrintable old new = false := by
  cases old with
  | none =>
    cases new with
    | none => simp [classify, clash]
    | some new => simp only [classify, clash, iff_true]; split <;> exact ⟨_, rfl⟩
  | some old =>
    cases new with
    | none => simp only [classify, clash, iff_true]; split <;> exact ⟨_, rfl⟩
    | some new =>
      simp only [classify, clash, becomesNullable, becomesRequired]
      split
      · next h => simp [h]
      · next h =>
        split
        · next hn => simp [hn]
        · next hn =>
          split
          · next hr => simp [hr]
          · next hr =>
            rw [classifyEnum_isOk_iff]
            simp only [not_not] at h
            simp only [← Bool.decide_and, hn, hr, h, decide_true, decide_false, Bool.not_false,
              Bool.and_self, Bool.true_and]

/-- An `enum` list of the node holds nothing that a set can hold. -/
def EnumOpaque (node : Schema) : Prop :=
  ∀ xs, get node "enum" = some (.arr xs) → ∀ x ∈ xs, (unhashable x).isSome

theorem classifyEnum_ne_breaking {old new : Schema} {r : Compatibility × String}
    (hold : EnumOpaque old) (hnew : EnumOpaque new) (h : classifyEnum old new = .ok r) : r.1 ≠ .BREAKING := by
  have hnil : ∀ zs : List Schema, (∀ z ∈ zs, (unhashable z).isSome) →
      zs.any (unhashable · |>.isSome) = false → zs = [] := by
    intro zs h1 h2
    refine List.eq_nil_iff_forall_not_mem.mpr fun z hz => ?_
    exact List.any_eq_false.mp h2 z hz (h1 z hz)
  obtain ⟨xs, ys, hx, hy, hc, -⟩ | ⟨hc, -⟩ := classifyEnum_cases old new
  · rw [hc] at h
    have hs := (compareEnums_isOk_iff xs ys).mp ⟨r, h⟩
    rw [List.any_append, Bool.or_eq_false_iff] at hs
    obtain rfl := hnil xs (hold xs hx) hs.1
    obtain rfl := hnil ys (hnew ys hy) hs.2
    cases h
    decide
  · rw [hc] at h
    cases h
    decide

/-- Without comparable enums, a path is BREAKING by removal, type or nullability alone. -/
theorem classify_breaking_iff {old new : Option Schema} (hold : ∀ n ∈ old, EnumOpaque n)
    (hnew : ∀ n ∈ new, EnumOpaque n) :
    (∃ reason, classify isPrintable old new = .ok (.BREAKING, reason)) ↔
      breaking isPrintable old new := by
  cases old with
  | none =>
    cases new with
    | none => simp [classify, breaking]
    | some new => simp only [classify, breaking]; split <;> simp
  | some old =>
    cases new with
    | none => simp only [classify, breaking]; split <;> simp_all
    | some new =>
      simp only [classify, breaking, ite_not]
      split
      · simp only [becomesRequired, Bool.and_eq_true, decide_eq_true_eq]
        split
        · next hn => simp [hn.1]
        · split
          · next hr => simp [hr.1, hr.2]
          · next hr =>
            refine ⟨fun ⟨_, h⟩ => ?_, fun h => absurd h hr⟩
            exact absurd rfl (classifyEnum_ne_breaking (hold old rfl) (hnew new rfl) h)
      · have hb := classifyTypes_eq_breaking_iff (typeOf isPrintable old) (typeOf isPrintable new)
        simp only [Except.ok.injEq, Bool.not_eq_true', Bool.and_eq_false_iff, decide_eq_false_iff_not,
          ← not_and_or, ← hb]
        exact ⟨fun ⟨_, h⟩ => by rw [h], fun h => ⟨_, Prod.ext h rfl⟩⟩

theorem canonicalize_unhashable (j : Json) : (unhashable (canonicalize j)).isSome := by
  obtain ⟨k, -, hk⟩ | ⟨items, rfl⟩ | ⟨fields, rfl⟩ := payload_cases j
  · rw [hk]
    cases k <;> rfl
  · rfl
  · rfl

theorem enumOpaque_canonicalize (j : Json) : EnumOpaque (canonicalize j) := by
  intro xs hx x hm
  obtain ⟨k, -, hk⟩ | ⟨items, rfl⟩ | ⟨fields, rfl⟩ := payload_cases j
  · rw [hk] at hx
    cases k <;> cases hx
  · cases hx
  · have hl := (mem_sortByKey _ _).mp (mem_of_lookup hx)
    rw [canonicalizeFields_eq] at hl
    obtain ⟨⟨k, v⟩, -, he⟩ := List.mem_map.mp hl
    have hv : canonicalize v = .arr xs := (Prod.mk.inj he).2
    obtain ⟨k, -, hk⟩ | ⟨items, rfl⟩ | ⟨fields, rfl⟩ := payload_cases v
    · rw [hk] at hv
      cases k <;> cases hv
    · rw [canonicalize, canonicalizeItems_eq, JsonOf.arr.injEq] at hv
      rw [← hv] at hm
      obtain ⟨y, -, rfl⟩ := List.mem_map.mp hm
      exact canonicalize_unhashable y
    · cases hv

theorem enumOpaque_places (j : Json) (pre : String) :
    ∀ e ∈ places (canonicalize j) pre, EnumOpaque e.2 := by
  induction j using payload_induct generalizing pre with
  | scalar j k hs hc =>
    have hp : places (leafOf k) pre = [(orRoot pre, leafOf k)] := by cases k <;> rfl
    rw [hc, hp, List.forall_mem_singleton, ← hc]
    exact enumOpaque_canonicalize j
  | arr items ih =>
    intro e he
    rw [canonicalize, places, List.mem_cons, mem_placesItems, canonicalizeItems_eq] at he
    obtain rfl | ⟨n, s, hn, he⟩ := he
    · intro xs hx
      cases hx
    · obtain ⟨x, hx, rfl⟩ : ∃ x, items[n]? = some x ∧ canonicalize x = s := by simpa using hn
      exact ih x (List.mem_of_getElem? hx) _ e he
  | obj fields ih =>
    intro e he
    have hc := enumOpaque_canonicalize (.obj fields)
    rw [canonicalize] at he hc
    rw [places] at he
    split at he
    · rw [List.mem_singleton.mp he]
      exact hc
    · obtain ⟨p, hp, he⟩ := (mem_placesFields _ _ _).mp he
      rw [mem_sortByKey, canonicalizeFields_eq] at hp
      obtain ⟨q, hq, rfl⟩ := List.mem_map.mp hp
      exact ih q hq _ e he

theorem enumOpaque_shows (j : Json) (path : String) :
    ∀ node ∈ shows (canonicalize j) path, EnumOpaque node :=
  fun _ h => enumOpaque_places j "" _ (mem_places_of_shows h)

theorem mem_changedPaths (old new : Schema) (path : String) :
    path ∈ changedPaths (flatten old "") (flatten new "") ↔
      pyEqOption (shows old path) (shows new path) = false := by
  simp only [changedPaths, List.mem_filter, Bool.not_eq_true', List.mem_insertionSort,
    List.mem_dedup, List.mem_append, lookup_flatten_root]
  refine ⟨And.right, fun h => ⟨?_, h⟩⟩
  rw [← lookup_isSome_iff_mem_keys, ← lookup_isSome_iff_mem_keys, lookup_flatten_root,
    lookup_flatten_root]
  cases ho : shows old path with
  | some _ => exact .inl rfl
  | none =>
    cases hn : shows new path with
    | some _ => exact .inr rfl
    | none => rw [ho, hn] at h; cases h

/-- An item is classified by what the two schemas show at its path. -/
theorem diffItem_ok_iff (old new : Schema) (path : String) (c : Compatibility) :
    (∃ d, diffItem isPrintable (flatten old "") (flatten new "") path = .ok d ∧ d.classification = c) ↔
      ∃ r, classify isPrintable (shows old path) (shows new path) = .ok (c, r) := by
  simp only [diffItem, lookup_flatten_root]
  cases classify isPrintable (shows old path) (shows new path) with
  | error e => simp [bind, Except.bind]
  | ok cr =>
    constructor
    · rintro ⟨d, hd, rfl⟩
      cases hd
      exact ⟨cr.2, rfl⟩
    · rintro ⟨r, hr⟩
      cases hr
      exact ⟨_, rfl, rfl⟩

/-- The report of a diff, in terms of what the two schemas show: it comes out unless a
changed path clashes, and it has one item for each changed path. -/
theorem diffAndClassify_spec (old new : Schema) (P : Compatibility → Prop) :
    (∃ ds, diffAndClassify isPrintable old new = .ok ds ∧ ∃ d ∈ ds, P d.classification) ↔
      (∀ path, pyEqOption (shows old path) (shows new path) = false →
        clash isPrintable (shows old path) (shows new path) = false) ∧
      ∃ path, pyEqOption (shows old path) (shows new path) = false ∧
        ∃ c r, classify isPrintable (shows old path) (shows new path) = .ok (c, r) ∧ P c := by
  simp only [diffAndClassify, mapM_exists_mem_iff, mem_changedPaths, ← classify_isOk_iff]
  refine and_congr (forall₂_congr fun path _ => ?_) (exists_congr fun path =>
    and_congr_right fun _ => ?_)
  · constructor
    · rintro ⟨d, hd⟩
      obtain ⟨r, hr⟩ := (diffItem_ok_iff isPrintable old new path d.classification).mp ⟨d, hd, rfl⟩
      exact ⟨_, hr⟩
    · rintro ⟨⟨c, r⟩, h⟩
      obtain ⟨d, hd, -⟩ := (diffItem_ok_iff isPrintable old new path c).mpr ⟨r, h⟩
      exact ⟨d, hd⟩
  · constructor
    · rintro ⟨d, hd, hP⟩
      obtain ⟨r, hr⟩ := (diffItem_ok_iff isPrintable old new path d.classification).mp ⟨d, hd, rfl⟩
      exact ⟨_, r, hr, hP⟩
    · rintro ⟨c, r, h, hP⟩
      obtain ⟨d, hd, rfl⟩ := (diffItem_ok_iff isPrintable old new path c).mpr ⟨r, h⟩
      exact ⟨d, hd, hP⟩

/-- Where every changed path gets a classification of one sort, the report has items of that sort. -/
theorem diffAndClassify_all {old new : Schema} {P : Compatibility → Prop}
    (h : ∀ path, pyEqOption (shows old path) (shows new path) = false →
      ∃ c r, classify isPrintable (shows old path) (shows new path) = .ok (c, r) ∧ P c) :
    ∃ ds, diffAndClassify isPrintable old new = .ok ds ∧ (∀ d ∈ ds, P d.classification) ∧
      (ds = [] ↔ ∀ path, pyEqOption (shows old path) (shows new path) = true) := by
  have hitem : ∀ path, pyEqOption (shows old path) (shows new path) = false →
      ∃ d, diffItem isPrintable (flatten old "") (flatten new "") path = .ok d := by
    intro path hpath
    obtain ⟨c, r, hc, -⟩ := h path hpath
    obtain ⟨d, hd, -⟩ := (diffItem_ok_iff isPrintable old new path c).mpr ⟨r, hc⟩
    exact ⟨d, hd⟩
  obtain ⟨ds, hds⟩ := (mapM_succeeds_iff (diffItem isPrintable (flatten old "") (flatten new ""))
    (changedPaths (flatten old "") (flatten new ""))).mpr
      fun path hpath => hitem path ((mem_changedPaths old new path).mp hpath)
  refine ⟨ds, hds, fun d hd => ?_, fun hnil path => ?_, fun hsame => ?_⟩
  · obtain ⟨path, hpath, hdiff⟩ := (mem_mapM hds d).mp hd
    obtain ⟨c, r, hc, hP⟩ := h path ((mem_changedPaths old new path).mp hpath)
    obtain ⟨r', hr'⟩ := (diffItem_ok_iff isPrintable old new path d.classification).mp ⟨d, hdiff, rfl⟩
    rw [hc] at hr'
    cases hr'
    exact hP
  · by_contra hne
    rw [Bool.not_eq_true] at hne
    obtain ⟨d, hd⟩ := hitem path hne
    have hmem := (mem_mapM hds d).mpr ⟨path, (mem_changedPaths old new path).mpr hne, hd⟩
    rw [hnil] at hmem
    cases hmem
  · refine List.eq_nil_iff_forall_not_mem.mpr fun d hd => ?_
    obtain ⟨path, hpath, -⟩ := (mem_mapM hds d).mp hd
    have hne := (mem_changedPaths old new path).mp hpath
    rw [hsame path] at hne
    cases hne

end Report

end SchemaPilot.DiffReport
