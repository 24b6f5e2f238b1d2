import SchemaPilot.Occurrences

namespace SchemaPilot.RequiredFields

open Keyed SchemaInfer SchemaNotes NodeSummary Occurrences

mutual

/-- The objects of a value, each with the path that its members' paths begin with. -/
def objects (path : String) : Json → List (String × List (String × Json))
  | .obj fields => (path, fields) :: fieldObjects path fields
  | .arr items => itemObjects (arrayPath path) items
  | .null | .bool _ | .num _ | .str _ => []

def fieldObjects (parent : String) : List (String × Json) → List (String × List (String × Json))
  | [] => []
  | (k, v) :: fields => objects (joinPath parent k) v ++ fieldObjects parent fields

def itemObjects (itemPath : String) : List Json → List (String × List (String × Json))
  | [] => []
  | x :: items => objects itemPath x ++ itemObjects itemPath items

end

mutual

/-- The arrays of a value, each with the path of its items. -/
def arrays (path : String) : Json → List (String × List Json)
  | .obj fields => fieldArrays path fields
  | .arr items => (arrayPath path, items) :: itemArrays (arrayPath path) items
  | .null | .bool _ | .num _ | .str _ => []

def fieldArrays (parent : String) : List (String × Json) → List (String × List Json)
  | [] => []
  | (k, v) :: fields => arrays (joinPath parent k) v ++ fieldArrays parent fields

def itemArrays (itemPath : String) : List Json → List (String × List Json)
  | [] => []
  | x :: items => arrays itemPath x ++ itemArrays itemPath items

end

/-- All elements are objects, some with the key and some without. -/
def Splits (items : List Json) (key : String) : Prop :=
  items.all isObject = true ∧ (∃ x ∈ items, key ∈ keys (members x)) ∧ ∃ x ∈ items, key ∉ keys (members x)

theorem fieldObjects_eq (parent : String) (fields : List (String × Json)) :
    fieldObjects parent fields = fields.flatMap (fun p => objects (joinPath parent p.1) p.2) := by
  induction fields with
  | nil => rfl
  | cons p fields ih => rw [fieldObjects, ih, List.flatMap_cons]

theorem itemObjects_eq (itemPath : String) (items : List Json) :
    itemObjects itemPath items = items.flatMap (objects itemPath) := by
  induction items with
  | nil => rfl
  | cons x items ih => rw [itemObjects, ih, List.flatMap_cons]

theorem fieldArrays_eq (parent : String) (fields : List (String × Json)) :
    fieldArrays parent fields = fields.flatMap (fun p => arrays (joinPath parent p.1) p.2) := by
  induction fields with
  | nil => rfl
  | cons p fields ih => rw [fieldArrays, ih, List.flatMap_cons]

theorem itemArrays_eq (itemPath : String) (items : List Json) :
    itemArrays itemPath items = items.flatMap (arrays itemPath) := by
  induction items with
  | nil => rfl
  | cons x items ih => rw [itemArrays, ih, List.flatMap_cons]

section Optional

/-- A path is noted as optional by an array of objects, some of which lack the key. -/
def Relaxed (path : String) (a : String × List Json) : Prop :=
  a.2.all isObject = true ∧ (path, .optional) ∈ relaxNotes a.1 a.2

theorem arrays_object {x : Json} (h : isObject x = true) (parent : String) :
    arrays parent x = fieldArrays parent (members x) := by
  cases x with
  | obj fields => rfl
  | null | bool b | num n | str s | arr items => cases h

theorem optional_mem_notes_iff (v : Json) (parent path : String) :
    ((path, .optional) ∈ notes parent v ↔ ∃ a ∈ arrays parent v, Relaxed path a) ∧
      ((path, .optional) ∈ fieldNotes parent (members v) ↔
        ∃ a ∈ fieldArrays parent (members v), Relaxed path a) := by
  have hnone : ((path, .optional) ∈ ([] : List (String × Note)) ↔
      ∃ a ∈ ([] : List (String × List Json)), Relaxed path a) := by simp
  induction v using JsonOf.induct generalizing parent with
  | null | bool b | num n | str s => exact ⟨by simp [notes, arrays], hnone⟩
  | obj fields ih =>
    have hf : (path, .optional) ∈ fieldNotes parent fields ↔
        ∃ a ∈ fieldArrays parent fields, Relaxed path a := by
      rw [fieldNotes_eq, fieldArrays_eq]
      exact mem_flatMap_iff fun p hp => (ih p hp _).1
    refine ⟨?_, hf⟩
    rw [notes, arrays, ← hf, List.mem_cons, List.mem_append]
    constructor
    · rintro (h | h | h)
      · cases h
      · split at h
        · cases h
        · cases List.mem_singleton.mp h
      · exact h
    · exact fun h => .inr (.inr h)
  | arr items ih =>
    refine ⟨?_, hnone⟩
    rw [notes, arrays, List.mem_cons, List.exists_mem_cons_iff]
    split_ifs with hnil hall
    · subst hnil
      simp [Relaxed, relaxNotes, itemArrays, keysSeen]
    · have hmembers : (path, .optional) ∈ memberNotes (arrayPath parent) items ↔
          ∃ a ∈ itemArrays (arrayPath parent) items, Relaxed path a := by
        rw [memberNotes_eq, itemArrays_eq]
        refine mem_flatMap_iff fun x hx => ?_
        rw [(ih x hx _).2, arrays_object (List.all_eq_true.mp hall x hx)]
      have hself : Relaxed path (arrayPath parent, items) ↔
          (path, .optional) ∈ relaxNotes (arrayPath parent) items := and_iff_right hall
      rw [hself, ← hmembers, List.mem_cons, List.mem_append]
      simp [or_comm]
    · have hitems : (path, .optional) ∈ itemNotes (arrayPath parent) items ↔
          ∃ a ∈ itemArrays (arrayPath parent) items, Relaxed path a := by
        rw [itemNotes_eq, itemArrays_eq]
        exact mem_flatMap_iff fun x hx => (ih x hx _).1
      have hself : ¬Relaxed path (arrayPath parent, items) := fun h => hall h.1
      rw [or_iff_right hself, ← hitems, List.mem_append]
      simp

theorem wf_of_mem_arrays {v : Json} (h : v.wf) {path : String} {a : String × List Json}
    (ha : a ∈ arrays path v) : ∀ x ∈ a.2, x.wf := by
  induction v using JsonOf.induct generalizing path with
  | null | bool b | num n | str s => cases ha
  | obj fields ih =>
    rw [arrays, fieldArrays_eq] at ha
    obtain ⟨p, hp, hmem⟩ := List.mem_flatMap.mp ha
    exact ih p hp (((JsonOf.wf_obj_iff _).mp h).2 p hp) hmem
  | arr items ih =>
    have hitems := (JsonOf.wf_arr_iff _).mp h
    rw [arrays, itemArrays_eq] at ha
    obtain rfl | ha := List.mem_cons.mp ha
    · exact hitems
    · obtain ⟨x, hx, hmem⟩ := List.mem_flatMap.mp ha
      exact ih x hx (hitems x hx) hmem

theorem nodup_keys_members {x : Json} (h : x.wf) : (keys (members x)).Nodup := by
  cases x with
  | obj fields => exact ((JsonOf.wf_obj_iff _).mp h).1
  | null | bool b | num n | str s | arr items => exact List.nodup_nil

/-- A key is counted once for each object that has it. -/
theorem count_keys_lt_iff {items : List Json} (h : ∀ x ∈ items, x.wf) (key : String) :
    (items.flatMap (fun x => keys (members x))).count key < items.length ↔
      ∃ x ∈ items, key ∉ keys (members x) := by
  have hcount : (items.flatMap (fun x => keys (members x))).count key =
      items.countP (fun x => decide (key ∈ keys (members x))) := by
    induction items with
    | nil => rfl
    | cons x items ih =>
      obtain ⟨hx, hitems⟩ := List.forall_mem_cons.mp h
      rw [List.flatMap_cons, List.count_append, ih hitems, List.countP_cons, Nat.add_comm,
        (nodup_keys_members hx).count]
      simp only [decide_eq_true_eq]
  rw [hcount, List.countP_lt_length_iff]
  simp

theorem relaxed_iff {path : String} {a : String × List Json} (h : ∀ x ∈ a.2, x.wf) :
    Relaxed path a ↔ ∃ key, Splits a.2 key ∧ joinPath a.1 key = path := by
  have hmem : ∀ key count, (key, count) ∈ keysSeen a.2 ↔
      (∃ x ∈ a.2, key ∈ keys (members x)) ∧
        (a.2.flatMap (fun x => keys (members x))).count key = count := by
    intro key count
    rw [← lookup_eq_some_iff_mem (nodup_keysSeen a.2), lookup_keysSeen]
    split
    · next hkey => rw [Option.some.injEq, and_iff_right (List.mem_flatMap.mp hkey)]
    · next hkey => exact iff_of_false nofun fun h => hkey (List.mem_flatMap.mpr h.1)
  simp only [Relaxed, relaxNotes, List.mem_map, List.mem_filter, decide_eq_true_eq, Prod.exists]
  constructor
  · rintro ⟨hall, key, count, ⟨hseen, hlt⟩, heq⟩
    obtain ⟨hsome, rfl⟩ := (hmem key count).mp hseen
    exact ⟨key, ⟨hall, hsome, (count_keys_lt_iff h key).mp hlt⟩, (Prod.mk.inj heq).1⟩
  · rintro ⟨key, ⟨hall, hsome, hlacks⟩, rfl⟩
    exact ⟨hall, key, _, ⟨(hmem key _).mpr ⟨hsome, rfl⟩, (count_keys_lt_iff h key).mpr hlacks⟩, rfl⟩

end Optional

section Required

/-- Every object with the path has the key. -/
def Everywhere (data : Json) (parent key : String) : Prop :=
  ∀ fields, (parent, fields) ∈ objects "" data → key ∈ keys fields

/-- Some array of objects only splits on a key that is filed under the path. -/
def SplitAt (data : Json) (path : String) : Prop :=
  ∃ a ∈ arrays "" data, ∃ key, Splits a.2 key ∧ joinPath a.1 key = path

/-- The path of the state of a member. -/
def filedUnder (path : String) : Json → String
  | .arr _ => orItems path
  | _ => path

theorem optional_mem_walkNotes_iff {data : Json} (h : data.wf) (path : String) :
    (path, .optional) ∈ walkNotes data ↔ SplitAt data path := by
  have harrays : (path, .optional) ∈ walkNotes data ↔ ∃ a ∈ arrays "" data, Relaxed path a := by
    cases data with
    | obj fields => exact (optional_mem_notes_iff (.obj fields) "" path).2
    | arr items => exact (optional_mem_notes_iff (.arr items) "" path).1
    | null | bool b | num n | str s => simp [walkNotes, notes, arrays]
  rw [harrays]
  exact exists_congr fun a => and_congr_right fun ha => relaxed_iff (wf_of_mem_arrays h ha)

theorem mem_paths_of_member (path : String) (v : Json) :
    filedUnder path v ∈ keys (notes path v) := by
  cases v with
  | null | bool b | num n | str s => exact List.mem_singleton.mpr rfl
  | obj fields | arr items => exact List.mem_cons_self

/-- The members of every object in a value are noted. -/
theorem fieldNotes_subset (v : Json) (path parent : String) (fields : List (String × Json)) :
    ((parent, fields) ∈ objects path v → fieldNotes parent fields ⊆ notes path v) ∧
      ((parent, fields) ∈ fieldObjects path (members v) →
        fieldNotes parent fields ⊆ fieldNotes path (members v)) := by
  induction v using JsonOf.induct generalizing path with
  | null | bool b | num n | str s =>
    exact ⟨fun hmem => absurd hmem List.not_mem_nil, fun hmem => absurd hmem List.not_mem_nil⟩
  | obj fs ih =>
    have hf : (parent, fields) ∈ fieldObjects path fs →
        fieldNotes parent fields ⊆ fieldNotes path fs := by
      intro hmem r hr
      rw [fieldObjects_eq] at hmem
      obtain ⟨p, hp, hobject⟩ := List.mem_flatMap.mp hmem
      rw [fieldNotes_eq]
      exact List.mem_flatMap.mpr ⟨p, hp, (ih p hp _).1 hobject hr⟩
    refine ⟨fun hmem => ?_, hf⟩
    intro r hr
    rw [notes]
    refine List.mem_cons_of_mem _ (List.mem_append_right _ ?_)
    obtain heq | hmem := List.mem_cons.mp hmem
    · cases heq
      exact hr
    · exact hf hmem hr
  | arr items ih =>
    refine ⟨fun hmem => ?_, fun hmem => absurd hmem List.not_mem_nil⟩
    rw [objects, itemObjects_eq] at hmem
    obtain ⟨x, hx, hobject⟩ := List.mem_flatMap.mp hmem
    rw [notes]
    intro r hr
    refine List.mem_cons_of_mem _ ?_
    split_ifs with hnil hall
    · exact absurd hx (hnil ▸ List.not_mem_nil)
    · refine List.mem_cons_of_mem _ (List.mem_append_left _ ?_)
      rw [memberNotes_eq]
      refine List.mem_flatMap.mpr ⟨x, hx, ?_⟩
      cases x with
      | obj fs =>
        obtain heq | hfields := List.mem_cons.mp hobject
        · cases heq
          exact hr
        · exact (ih _ hx _).2 hfields hr
      | null | bool b | num n | str s | arr xs => exact absurd (List.all_eq_true.mp hall _ hx) Bool.false_ne_true
    · refine List.mem_append_left _ ?_
      rw [itemNotes_eq]
      exact List.mem_flatMap.mpr ⟨x, hx, (ih x hx _).1 hobject hr⟩

/-- Every member of an object has a node. -/
theorem node_of_member {data : Json} {parent key : String} {fields : List (String × Json)}
    {v : Json}
    (hobject : (parent, fields) ∈ objects "" data) (hmember : (key, v) ∈ fields) :
    ∃ n ∈ inferSchema data, n.path = filedUnder (joinPath parent key) v := by
  have hsubset : fieldNotes parent fields ⊆ walkNotes data := by
    cases data with
    | obj fs =>
      obtain heq | hmem := List.mem_cons.mp hobject
      · cases heq
        exact List.Subset.refl _
      · exact (fieldNotes_subset (.obj fs) "" parent fields).2 hmem
    | arr items => exact (fieldNotes_subset (.arr items) "" parent fields).1 hobject
    | null | bool b | num n | str s => cases hobject
  obtain ⟨⟨path, note⟩, hnote, hpath⟩ := List.mem_map.mp (mem_paths_of_member (joinPath parent key) v)
  have hmem : (path, note) ∈ walkNotes data := by
    apply hsubset
    rw [fieldNotes_eq]
    exact List.mem_flatMap.mpr ⟨(key, v), hmember, hnote⟩
  obtain ⟨n, hn, heq⟩ := exists_node_of_note (mem_notesAt.mpr hmem)
  exact ⟨n, hn, heq.trans hpath⟩

/-- The arrays of a value lie among its objects: an element is filed under the path of the items. -/
theorem mem_objects_of_array {v : Json} {path : String} {a : String × List Json} (ha : a ∈ arrays path v) :
    a.1 ≠ "" ∧ ∀ fields, .obj fields ∈ a.2 → (a.1, fields) ∈ objects path v := by
  induction v using JsonOf.induct generalizing path with
  | null | bool b | num n | str s => cases ha
  | obj fs ih =>
    rw [arrays, fieldArrays_eq] at ha
    obtain ⟨p, hp, hmem⟩ := List.mem_flatMap.mp ha
    obtain ⟨hne, hobjects⟩ := ih p hp hmem
    refine ⟨hne, fun fields hfields => List.mem_cons_of_mem _ ?_⟩
    rw [fieldObjects_eq]
    exact List.mem_flatMap.mpr ⟨p, hp, hobjects fields hfields⟩
  | arr items ih =>
    rw [arrays, itemArrays_eq] at ha
    rw [objects, itemObjects_eq]
    obtain rfl | ha := List.mem_cons.mp ha
    · exact ⟨arrayPath_ne_empty path, fun fields hfields =>
        List.mem_flatMap.mpr ⟨.obj fields, hfields, List.mem_cons_self⟩⟩
    · obtain ⟨x, hx, hmem⟩ := List.mem_flatMap.mp ha
      obtain ⟨hne, hobjects⟩ := ih x hx hmem
      exact ⟨hne, fun fields hfields => List.mem_flatMap.mpr ⟨x, hx, hobjects fields hfields⟩⟩

theorem exists_of_isObject {x : Json} (h : isObject x = true) : ∃ fields, x = .obj fields := by
  cases x with
  | obj fields => exact ⟨fields, rfl⟩
  | null | bool b | num n | str s | arr items => cases h

theorem Splits.elements {items : List Json} {key : String} (h : Splits items key) :
    (∃ fields, .obj fields ∈ items ∧ key ∈ keys fields) ∧ ∃ fields, .obj fields ∈ items ∧ key ∉ keys fields := by
  obtain ⟨hall, ⟨x, hx, hkey⟩, y, hy, hlacks⟩ := h
  obtain ⟨fields, rfl⟩ := exists_of_isObject (List.all_eq_true.mp hall x hx)
  obtain ⟨fields', rfl⟩ := exists_of_isObject (List.all_eq_true.mp hall y hy)
  exact ⟨⟨fields, hx, hkey⟩, fields', hy, hlacks⟩

/-- An array of objects whose items have the parent's path splits on the key. -/
def SplitHere (data : Json) (parent key : String) : Prop :=
  ∃ items, (parent, items) ∈ arrays "" data ∧ Splits items key

/-- Every field of the document with the path is this one. -/
def OwnPath (data : Json) (parent key path : String) : Prop :=
  ∀ o ∈ objects "" data, ∀ key' ∈ keys o.2, joinPath o.1 key' = path → o.1 = parent ∧ key' = key

instance (data : Json) (parent key path : String) : Decidable (OwnPath data parent key path) :=
  inferInstanceAs (Decidable (∀ o ∈ objects "" data, ∀ key' ∈ keys o.2, _ → _))

theorem OwnPath.splitAt_iff {data : Json} {parent key : String} {v : Json}
    (h : OwnPath data parent key (filedUnder (joinPath parent key) v)) :
    SplitAt data (filedUnder (joinPath parent key) v) ↔ SplitHere data parent key := by
  constructor
  · rintro ⟨⟨itemPath, items⟩, ha, key', hsplits, hpath⟩
    obtain ⟨⟨fields, hfields, hkey⟩, -⟩ := hsplits.elements
    obtain ⟨rfl, rfl⟩ := h _ ((mem_objects_of_array ha).2 fields hfields) key' hkey hpath
    exact ⟨items, ha, hsplits⟩
  · rintro ⟨items, ha, hsplits⟩
    refine ⟨_, ha, key, hsplits, ?_⟩
    have hne : joinPath parent key ≠ "" := joinPath_ne_empty (mem_objects_of_array ha).1 key
    cases v with
    | arr xs => exact (if_neg hne).symm
    | null | bool b | num n | str s | obj fields => rfl

theorem SplitHere.not_everywhere {data : Json} {parent key : String} (h : SplitHere data parent key) :
    ¬Everywhere data parent key := by
  obtain ⟨items, ha, hsplits⟩ := h
  obtain ⟨-, fields, hfields, hlacks⟩ := hsplits.elements
  exact fun hall => hlacks (hall fields ((mem_objects_of_array ha).2 fields hfields))

/-- A member is required exactly when all the objects with its parent path have the key, if and only
if an array of objects splits on the key exactly when some of them lack it. Where no other field has
the path of the member, this asks for such an array, among the objects, when some of them lack it. -/
theorem required_iff_everywhere_iff (data : Json) (hwf : data.wf) (parent key : String)
    (fields : List (String × Json)) (v : Json) (hobject : (parent, fields) ∈ objects "" data)
    (hmember : (key, v) ∈ fields) :
    ∃ n ∈ inferSchema data, n.path = filedUnder (joinPath parent key) v ∧
      ((n.required = true ↔ Everywhere data parent key) ↔
        (SplitAt data n.path ↔ ¬Everywhere data parent key)) ∧
      (OwnPath data parent key n.path →
        ((n.required = true ↔ Everywhere data parent key) ↔
          (¬Everywhere data parent key → SplitHere data parent key))) := by
  obtain ⟨n, hn, hpath⟩ := node_of_member hobject hmember
  obtain ⟨s, rfl, -, hs⟩ := summary_of_mem hn
  have hrequired : (finalize s).required = true ↔ ¬SplitAt data (finalize s).path := by
    rw [← optional_mem_walkNotes_iff hwf, ← mem_notesAt, ← hs.required]
    exact (Bool.not_eq_false _).symm.to_iff
  refine ⟨_, hn, hpath, ?_, fun hown => ?_⟩
  · rw [hrequired]
    exact not_iff_comm.trans iff_comm
  · rw [hpath] at hown hrequired
    rw [hrequired, hown.splitAt_iff]
    have hnone : SplitHere data parent key → ¬Everywhere data parent key := SplitHere.not_everywhere
    tauto

theorem required_iff_everywhere_iff_nick :
    let data : Json := .obj [("users", .arr [.obj [("id", .num (.int 1)), ("nick", .str "a")],
      .obj [("id", .num (.int 2))]])]
    ∃ n ∈ inferSchema data, n.path = "users[*].nick" ∧
      (n.required = true ↔ Everywhere data "users[*]" "nick") := by
  intro data
  obtain ⟨n, hn, hpath, -, hiff⟩ := required_iff_everywhere_iff data (by decide +kernel) "users[*]" "nick"
    [("id", .num (.int 1)), ("nick", .str "a")] (.str "a") (by decide +kernel) (by decide +kernel)
  rw [show filedUnder (joinPath "users[*]" "nick") (.str "a") = "users[*].nick" by decide +kernel] at hpath
  refine ⟨n, hn, hpath, (hiff (hpath ▸ by decide +kernel)).mpr fun _ => ?_⟩
  refine ⟨[.obj [("id", .num (.int 1)), ("nick", .str "a")], .obj [("id", .num (.int 2))]],
    by decide +kernel, by decide, ?_⟩
  exact ⟨⟨_, List.mem_cons_self, by decide⟩, _, List.mem_cons_of_mem _ List.mem_cons_self, by decide⟩

/-- A key that a nested object lacks is not counted. -/
theorem nested_object_lacks_key :
    let data : Json := .obj [("users", .arr [.obj [("p", .obj [("x", .num (.int 1))])], .obj [("p", .obj [])]])]
    ∃ n ∈ inferSchema data, n.path = joinPath "users[*].p" "x" ∧
      ("users[*].p", [("x", JsonOf.num (Number.int 1))]) ∈ objects "" data ∧
      ¬(n.required = true ↔ Everywhere data "users[*].p" "x") := by
  intro data
  have hnode : ("users[*].p.x", true) ∈ (inferSchema data).map (fun n => (n.path, n.required)) := by
    decide +kernel
  obtain ⟨n, hn, heq⟩ := List.mem_map.mp hnode
  obtain ⟨hpath, hrequired⟩ := Prod.mk.inj heq
  refine ⟨n, hn, hpath.trans (by decide +kernel), by decide +kernel, fun h => ?_⟩
  have hmem : "x" ∈ keys ([] : List (String × Json)) := h.mp hrequired _ (by decide +kernel)
  exact List.not_mem_nil hmem

end Required

end SchemaPilot.RequiredFields
