import SchemaPilot.Coverage
import SchemaPilot.JsonContext

namespace SchemaPilot.ArrayGrowth

open Keyed Canonical Classifier PayloadPaths DiffReport Coverage JsonContext

def SameShape (x y : Json) : Prop := shape x = shape y

mutual

/-- The value is built of empty objects alone. -/
def hollow : Json → Bool
  | .obj fields => hollowFields fields
  | .arr _ | .null | .bool _ | .num _ | .str _ => false

def hollowFields : List (String × Json) → Bool
  | [] => true
  | (_, v) :: fields => hollow v && hollowFields fields

end

theorem hollow_obj_iff (fields : List (String × Json)) :
    hollow (.obj fields) ↔ ∀ p ∈ fields, hollow p.2 := by
  change hollowFields fields = true ↔ _
  induction fields with
  | nil => simp [hollowFields]
  | cons p fields ih => simp [hollowFields, ih]

/-- There is nothing for the flattening in a hollow value, and in no other. -/
theorem hollow_iff {j : Json} (hwf : j.wf) : hollow j ↔ ∀ loc, markAt j loc = none := by
  induction j using payload_induct with
  | scalar j k hs hc =>
    refine iff_of_false (fun h => ?_) fun h => ?_
    · cases j with
      | obj fields => cases hs
      | null | bool b | num n | str s | arr items => cases h
    · have hroot := h []
      rw [markAt_scalar hs] at hroot
      cases hroot
  | arr items ih => exact iff_of_false (fun h => by cases h) fun h => by cases h []
  | obj fields ih =>
    obtain ⟨hnodup, hws⟩ := (JsonOf.wf_obj_iff fields).mp hwf
    rw [hollow_obj_iff]
    constructor
    · intro h loc
      rw [markAt_obj]
      obtain _ | ⟨k | i, loc⟩ := loc
      · rfl
      · refine Option.bind_eq_none_iff.mpr fun v hv => ?_
        have hmem := mem_of_lookup hv
        exact (ih _ hmem (hws _ hmem)).mp (h _ hmem) loc
      · rfl
    · rintro h ⟨k, v⟩ hmem
      refine (ih _ hmem (hws _ hmem)).mpr fun loc => ?_
      have hloc := h (.key k :: loc)
      rw [markAt_obj] at hloc
      simpa [(lookup_eq_some_iff_mem hnodup).mpr hmem] using hloc

section Plain

variable {ok : String → Bool}

/-- Values of one shape have the same keys. -/
theorem keysAll_of_shape {v w : Json} (hw : w.wf) (h : shape w = shape v) (hv : keysAll ok v) :
    keysAll ok w := by
  induction w using payload_induct generalizing v with
  | scalar w k hs hc =>
    cases w with
    | obj fields | arr items => cases hs
    | null | bool b | num n | str s => rfl
  | arr items ih =>
    obtain ⟨k, hs, -⟩ | ⟨ys, rfl⟩ | ⟨fields, rfl⟩ := payload_cases v
    · cases hs.symm.trans h.symm
    · rw [shape, shape, shapeItems_eq, shapeItems_eq, Shape.array.injEq] at h
      rw [keysAll_arr_iff] at hv ⊢
      intro x hx
      obtain ⟨y, hy, hsame⟩ := List.mem_map.mp (h ▸ List.mem_map_of_mem hx)
      exact ih x hx ((JsonOf.wf_arr_iff _).mp hw x hx) hsame.symm (hv y hy)
    · cases h
  | obj fields ih =>
    obtain ⟨k, hs, -⟩ | ⟨ys, rfl⟩ | ⟨gs, rfl⟩ := payload_cases v
    · cases hs.symm.trans h.symm
    · cases h
    · rw [shape, shape, Shape.object.injEq, funext_iff] at h
      obtain ⟨hnodup, hws⟩ := (JsonOf.wf_obj_iff _).mp hw
      rw [keysAll_obj_iff] at hv ⊢
      rintro ⟨k, x⟩ hx
      have hk := h k
      rw [shapeFields_eq, shapeFields_eq, (lookup_eq_some_iff_mem hnodup).mpr hx, Option.map_some] at hk
      obtain ⟨y, hy, hsame⟩ := Option.map_eq_some_iff.mp hk.symm
      have hg := hv _ (mem_of_lookup hy)
      exact ⟨hg.1, ih _ hx (hws _ hx) hsame.symm hg.2⟩

theorem keysAll_of_inside {x v w : Json} (h : Inside (Appended SameShape x) v w) (hw : w.wf)
    (hv : keysAll ok v) : keysAll ok w := by
  induction h with
  | here happended =>
    obtain @⟨items, y, hy, hsame⟩ := happended
    have hx := (JsonOf.wf_arr_iff _).mp hw x (by simp)
    rw [keysAll_arr_iff] at hv ⊢
    rw [List.forall_mem_append, List.forall_mem_singleton]
    exact ⟨hv, keysAll_of_shape hx hsame (hv y hy)⟩
  | @item l r v w _ ih =>
    have hin := ih ((JsonOf.wf_arr_iff _).mp hw w (by simp))
    rw [keysAll_arr_iff, List.forall_mem_append, List.forall_mem_cons] at hv ⊢
    exact ⟨hv.1, hin hv.2.1, hv.2.2⟩
  | @entry l r k v w _ ih =>
    have hin := ih (((JsonOf.wf_obj_iff _).mp hw).2 (k, w) (by simp))
    rw [keysAll_obj_iff, List.forall_mem_append, List.forall_mem_cons] at hv ⊢
    exact ⟨hv.1, ⟨hv.2.1.1, hin hv.2.1.2⟩, hv.2.2⟩

end Plain

section Marks

/-- The second value has another one more at the place, and is otherwise marked as the first. -/
structure GrownAt (x v w : Json) (place : List Step) : Prop where
  absent : ∀ rest, markAt v (place ++ rest) = none
  present : ∀ rest, markAt w (place ++ rest) = markAt x rest
  elsewhere : ∀ loc, ¬place <+: loc → markAt v loc = markAt w loc

theorem GrownAt.cons {x v w v' w' : Json} {place : List Step} (h : GrownAt x v w place) {s : Step}
    (hv : ∀ loc, markAt v' (s :: loc) = markAt v loc) (hw : ∀ loc, markAt w' (s :: loc) = markAt w loc)
    (hroot : markAt v' [] = markAt w' [])
    (hother : ∀ t loc, t ≠ s → markAt v' (t :: loc) = markAt w' (t :: loc)) :
    GrownAt x v' w' (s :: place) := by
  refine ⟨fun rest => (hv _).trans (h.absent rest), fun rest => (hw _).trans (h.present rest), ?_⟩
  intro loc hloc
  cases loc with
  | nil => exact hroot
  | cons t loc =>
    by_cases ht : t = s
    · subst ht
      rw [hv, hw]
      exact h.elsewhere loc fun hprefix => hloc (List.cons_prefix_cons.mpr ⟨rfl, hprefix⟩)
    · exact hother t loc ht

theorem getElem?_middle {α : Type} (l r : List α) (x y : α) {i : Nat} (h : i ≠ l.length) :
    (l ++ x :: r)[i]? = (l ++ y :: r)[i]? := by
  by_cases hlt : i < l.length
  · rw [List.getElem?_append_left hlt, List.getElem?_append_left hlt]
  · obtain ⟨j, rfl⟩ := Nat.exists_eq_add_of_lt (show l.length < i by omega)
    rw [List.getElem?_append_right (by omega), List.getElem?_append_right (by omega),
      show l.length + j + 1 - l.length = j + 1 by omega]
    rfl

theorem lookup_middle {α : Type} (l r : List (String × α)) (k j : String) (x y : α) (h : j ≠ k) :
    (l ++ (k, x) :: r).lookup j = (l ++ (k, y) :: r).lookup j := by
  rw [List.lookup_append, List.lookup_append, lookup_cons_ite, lookup_cons_ite, if_neg h, if_neg h]

theorem grownAt_append (items : List Json) (x : Json) :
    GrownAt x (.arr items) (.arr (items ++ [x])) [.item items.length] := by
  refine ⟨fun rest => ?_, fun rest => ?_, fun loc hloc => ?_⟩
  · simp [markAt_arr]
  · simp [markAt_arr]
  · rw [markAt_arr, markAt_arr]
    obtain _ | ⟨k | i, loc⟩ := loc
    · rfl
    · rfl
    · have hi : i ≠ items.length := by
        rintro rfl
        exact hloc ⟨loc, rfl⟩
      have hget : items[i]? = (items ++ [x])[i]? := by
        by_cases hlt : i < items.length
        · rw [List.getElem?_append_left hlt]
        · rw [List.getElem?_eq_none (by omega), List.getElem?_eq_none (by simp; omega)]
      dsimp only
      rw [hget]

/-- One more element in an array is one more value at one place of all that is around it. -/
theorem exists_grownAt {x v w : Json} (h : Inside (Appended SameShape x) v w) (hwf : v.wf) :
    ∃ place, GrownAt x v w place := by
  induction h with
  | here happended =>
    obtain @⟨items, y, -, -⟩ := happended
    exact ⟨_, grownAt_append items x⟩
  | @item l r v w _ ih =>
    obtain ⟨place, hgrown⟩ := ih ((JsonOf.wf_arr_iff _).mp hwf v (by simp))
    refine ⟨.item l.length :: place, hgrown.cons (fun loc => ?_) (fun loc => ?_) rfl fun t loc ht => ?_⟩
    · simp [markAt_arr]
    · simp [markAt_arr]
    · rw [markAt_arr, markAt_arr]
      cases t with
      | key k => rfl
      | item i =>
        have hi : i ≠ l.length := fun he => ht (congrArg Step.item he)
        dsimp only
        rw [getElem?_middle l r v w hi]
  | @entry l r k v w _ ih =>
    obtain ⟨hnodup, hws⟩ := (JsonOf.wf_obj_iff _).mp hwf
    obtain ⟨place, hgrown⟩ := ih (hws (k, v) (by simp))
    have hfresh : l.lookup k = none := by
      rw [lookup_eq_none_iff_not_mem]
      intro hk
      rw [keys, List.map_append, List.nodup_append] at hnodup
      exact hnodup.2.2 k hk k List.mem_cons_self rfl
    refine ⟨.key k :: place, hgrown.cons (fun loc => ?_) (fun loc => ?_) rfl fun t loc ht => ?_⟩
    · simp [markAt_obj, List.lookup_append, hfresh]
    · simp [markAt_obj, List.lookup_append, hfresh]
    · rw [markAt_obj, markAt_obj]
      cases t with
      | key j =>
        have hj : j ≠ k := fun he => ht (congrArg Step.key he)
        dsimp only
        rw [lookup_middle l r k j v w hj]
      | item i => rfl

theorem wf_of_inside {x v w : Json} (h : Inside (Appended SameShape x) v w) (hw : w.wf) : x.wf := by
  induction h with
  | here happended =>
    obtain @⟨items, y, -, -⟩ := happended
    exact (JsonOf.wf_arr_iff _).mp hw x (by simp)
  | @item l r v w _ ih => exact ih ((JsonOf.wf_arr_iff _).mp hw w (by simp))
  | @entry l r k v w _ ih => exact ih (((JsonOf.wf_obj_iff _).mp hw).2 (k, w) (by simp))

end Marks

section Report

theorem requiredOf_mark {node : Schema} (h : IsMark node) : requiredOf node false = false := by
  obtain ⟨k, rfl⟩ | rfl := h
  · cases k <;> rfl
  · rfl

theorem pyEq_mark {node : Schema} (h : IsMark node) : pyEq node node = true := by
  obtain ⟨k, rfl⟩ | rfl := h
  · cases k <;> rfl
  · rfl

variable {p q : Payload} {x : Json} {place : List Step}

/-- Under a path text the two payloads show the same, or the grown one shows a part of the element. -/
theorem shown_grown (hp : plain p) (hq : plain q) (h : GrownAt x p.json q.json place) (path : String) :
    shown p path = shown q path ∨ shown p path = none ∧
      ∃ node rest, shown q path = some node ∧ markAt x rest = some node := by
  have hlocated : ∀ loc, PlainLocation loc → path = pathText loc → shown p path = shown q path ∨
      shown p path = none ∧ ∃ node rest, shown q path = some node ∧ markAt x rest = some node := by
    rintro loc hloc rfl
    rw [shown, shown, shows_pathText hp hloc, shows_pathText hq hloc]
    by_cases hprefix : place <+: loc
    · obtain ⟨rest, rfl⟩ := hprefix
      rw [h.absent, h.present]
      cases hmark : markAt x rest with
      | none => exact .inl rfl
      | some node => exact .inr ⟨rfl, node, rest, rfl, hmark⟩
    · exact .inl (h.elsewhere loc hprefix)
  obtain hold | ⟨node, hold⟩ := (shown p path).eq_none_or_eq_some
  · obtain hnew | ⟨node, hnew⟩ := (shown q path).eq_none_or_eq_some
    · exact .inl (hold.trans hnew.symm)
    · obtain ⟨loc, hloc, -, hpath⟩ := location_of_shows hq hnew
      exact hlocated loc hloc hpath
  · obtain ⟨loc, hloc, -, hpath⟩ := location_of_shows hp hold
    exact hlocated loc hloc hpath

theorem pyEqOption_shown (hp : plain p) (path : String) : pyEqOption (shown p path) (shown p path) = true := by
  cases hs : shown p path with
  | none => rfl
  | some node => exact pyEq_mark (isMark_of_shown hp hs)

/-- One more element of a known shape is SAFE for a plain payload. Taking it away again is BREAKING at
each of its places, and unless it is hollow it has one. -/
theorem report_of_growth (isPrintable : Char → Bool) (p q : Payload) (x : Json) (hp : plain p)
    (h : Inside (Appended SameShape x) p.json q.json) :
    (∃ ds, diffAndClassify isPrintable (canonicalize p.json) (canonicalize q.json) = .ok ds ∧
      ∀ d ∈ ds, d.classification = .SAFE) ∧
    ∃ ds, diffAndClassify isPrintable (canonicalize q.json) (canonicalize p.json) = .ok ds ∧
      (∀ d ∈ ds, d.classification = .BREAKING) ∧ (ds = [] ↔ hollow x) := by
  have hq : plain q := keysAll_of_inside h q.wf hp
  obtain ⟨place, hgrown⟩ := exists_grownAt h p.wf
  have hcases := shown_grown hp hq hgrown
  have hadded : ∀ path, pyEqOption (shown p path) (shown q path) = false →
      ∃ c r, classify isPrintable (shown p path) (shown q path) = .ok (c, r) ∧ c = .SAFE := by
    intro path hne
    obtain hsame | ⟨hold, node, rest, hnew, -⟩ := hcases path
    · rw [← hsame, pyEqOption_shown hp] at hne
      cases hne
    · rw [hold, hnew, classify, requiredOf_mark (isMark_of_shown hq hnew)]
      exact ⟨_, _, rfl, rfl⟩
  have hremoved : ∀ path, pyEqOption (shown q path) (shown p path) = false →
      ∃ c r, classify isPrintable (shown q path) (shown p path) = .ok (c, r) ∧ c = .BREAKING := by
    intro path hne
    obtain hsame | ⟨hold, node, rest, hnew, -⟩ := hcases path
    · rw [← hsame, pyEqOption_shown hp] at hne
      cases hne
    · rw [hold, hnew, classify, (isMark_of_shown hq hnew).required]
      exact ⟨_, _, rfl, rfl⟩
  obtain ⟨ds, hds, hsafe, -⟩ := diffAndClassify_all isPrintable hadded
  obtain ⟨es, hes, hbreaking, hnil⟩ := diffAndClassify_all isPrintable hremoved
  refine ⟨⟨ds, hds, hsafe⟩, es, hes, hbreaking, hnil.trans ?_⟩
  rw [hollow_iff (wf_of_inside h q.wf)]
  constructor
  · intro hsame rest
    by_contra hmark
    have hne : markAt q.json (place ++ rest) ≠ markAt p.json (place ++ rest) := by
      rw [hgrown.present, hgrown.absent]
      exact hmark
    have hdiffers := (differs_of_markAt hq hp hne).2
    rw [Differs, shown, shown, hsame] at hdiffers
    cases hdiffers
  · intro hnone path
    obtain hsame | ⟨-, node, rest, -, hmark⟩ := hcases path
    · change pyEqOption (shown q path) (shown p path) = true
      rw [← hsame, pyEqOption_shown hp]
    · rw [hnone rest] at hmark
      cases hmark

theorem report_of_growth_orders :
    let p : Payload := ⟨[("orders", .arr [.obj [("tags", .arr [.str "x"])]])], by decide⟩
    let q : Payload := ⟨[("orders", .arr [.obj [("tags", .arr [.str "x", .str "y"])]])], by decide⟩
    (∃ ds, diffAndClassify (fun _ => true) (canonicalize p.json) (canonicalize q.json) = .ok ds ∧
      ∀ d ∈ ds, d.classification = .SAFE) ∧
    ∃ ds, diffAndClassify (fun _ => true) (canonicalize q.json) (canonicalize p.json) = .ok ds ∧
      (∀ d ∈ ds, d.classification = .BREAKING) ∧ (ds = [] ↔ hollow (.str "y")) := by
  intro p q
  have hnew : Appended SameShape (.str "y") (.arr [.str "x"]) (.arr ([.str "x"] ++ [.str "y"])) :=
    .mk List.mem_cons_self rfl
  refine report_of_growth (fun _ => true) p q (.str "y") (by decide) ?_
  exact .entry [] [] "orders" (.item [] [] (.entry [] [] "tags" (.here hnew)))

/-- The report has a BREAKING or a RISKY item. -/
def Reported (p q : Payload) : Prop :=
  ∃ ds, diffAndClassify (fun _ => true) (canonicalize p.json) (canonicalize q.json) = .ok ds ∧
    ∃ d ∈ ds, d.classification = .BREAKING ∨ d.classification = .RISKY

theorem reported_of_summary {p q : Payload}
    (h : (diffAndClassify (fun _ => true) (canonicalize p.json) (canonicalize q.json)).map
      summarizeClassification = .ok .BREAKING) : Reported p q := by
  cases hd : diffAndClassify (fun _ => true) (canonicalize p.json) (canonicalize q.json) with
  | error e =>
    rw [hd] at h
    cases h
  | ok ds =>
    rw [hd] at h
    obtain ⟨d, hmem, hbreaking⟩ := (summarize_eq_breaking_iff ds).mp (Except.ok.inj h)
    exact ⟨ds, hd, d, hmem, .inl hbreaking⟩

/-- One element less is BREAKING. So is one more where a key is `type`, or a piece of path text. -/
theorem growth_reported :
    let few : Json := .arr [.num (.int 1)]
    let many : Json := .arr [.num (.int 1), .num (.int 2)]
    let p : Payload := ⟨[("a", few)], by decide⟩
    let q : Payload := ⟨[("a", many)], by decide⟩
    let p' : Payload := ⟨[("type", few)], by decide⟩
    let q' : Payload := ⟨[("type", many)], by decide⟩
    let p'' : Payload := ⟨[("b", .obj [("c[*1]", .str "")]), ("b.c", few)], by decide⟩
    let q'' : Payload := ⟨[("b", .obj [("c[*1]", .str "")]), ("b.c", many)], by decide⟩
    Inside (Appended SameShape (.num (.int 2))) p.json q.json ∧ Reported q p ∧
      Inside (Appended SameShape (.num (.int 2))) p'.json q'.json ∧ Reported p' q' ∧
      Inside (Appended SameShape (.num (.int 2))) p''.json q''.json ∧ Reported p'' q'' := by
  intro few many p q p' q' p'' q''
  have hnew : Appended SameShape (.num (.int 2)) few (.arr ([.num (.int 1)] ++ [.num (.int 2)])) :=
    .mk List.mem_cons_self rfl
  have hinside : ∀ k, Inside (Appended SameShape (.num (.int 2))) (.obj [(k, few)]) (.obj [(k, many)]) :=
    fun k => .entry [] [] k (.here hnew)
  refine ⟨hinside "a", reported_of_summary ?_, hinside "type", reported_of_summary ?_, ?_,
    reported_of_summary ?_⟩
  · decide +kernel
  · decide +kernel
  · exact .entry [("b", .obj [("c[*1]", .str "")])] [] "b.c" (.here hnew)
  · decide +kernel

end Report

end SchemaPilot.ArrayGrowth
