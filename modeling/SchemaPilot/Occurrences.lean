import SchemaPilot.NodeSummary
import Mathlib.Data.Finset.Sort

namespace SchemaPilot.Occurrences

open Keyed SchemaInfer SchemaNotes NodeSummary

mutual

/-- The values that are visited, in their order, each with the path of the state that the visit
makes or finds. The objects of an array of objects are not visited, only their members. -/
def visits (path : String) : Json → List (String × Json)
  | .obj fields => (path, .obj fields) :: fieldVisits path fields
  | .arr items =>
    (orItems path, .arr items) ::
      (if items.all isObject then memberVisits (arrayPath path) items
      else itemVisits (arrayPath path) items)
  | .null => [(path, .null)]
  | .bool b => [(path, .bool b)]
  | .num n => [(path, .num n)]
  | .str s => [(path, .str s)]

def fieldVisits (parent : String) : List (String × Json) → List (String × Json)
  | [] => []
  | (k, v) :: fields => visits (joinPath parent k) v ++ fieldVisits parent fields

def memberVisits (itemPath : String) : List Json → List (String × Json)
  | [] => []
  | .obj fields :: items => fieldVisits itemPath fields ++ memberVisits itemPath items
  | _ :: items => memberVisits itemPath items

def itemVisits (itemPath : String) : List Json → List (String × Json)
  | [] => []
  | x :: items => visits itemPath x ++ itemVisits itemPath items

end

def occurrences (data : Json) : List (String × Json) :=
  match data with
  | .obj fields => fieldVisits "" fields
  | .arr items => visits "" (.arr items)
  | v => visits "[root]" v

/-- The values that occur at a path, in the order in which they are visited. -/
def valuesAt (data : Json) (path : String) : List Json :=
  (occurrences data).filterMap (fun p => if p.1 = path then some p.2 else none)

theorem fieldVisits_eq (parent : String) (fields : List (String × Json)) :
    fieldVisits parent fields = fields.flatMap (fun p => visits (joinPath parent p.1) p.2) := by
  induction fields with
  | nil => rfl
  | cons p fields ih => rw [fieldVisits, ih, List.flatMap_cons]

theorem memberVisits_eq (itemPath : String) (items : List Json) :
    memberVisits itemPath items = items.flatMap (fun x => fieldVisits itemPath (members x)) := by
  induction items with
  | nil => rfl
  | cons x items ih => cases x <;> simp [memberVisits, members, fieldVisits, ih]

theorem itemVisits_eq (itemPath : String) (items : List Json) :
    itemVisits itemPath items = items.flatMap (visits itemPath) := by
  induction items with
  | nil => rfl
  | cons x items ih => rw [itemVisits, ih, List.flatMap_cons]

theorem mem_valuesAt {data v : Json} {path : String} :
    v ∈ valuesAt data path ↔ (path, v) ∈ occurrences data := by
  simp only [valuesAt, List.mem_filterMap, Option.ite_none_right_eq_some, Option.some.injEq]
  constructor
  · rintro ⟨⟨q, w⟩, hm, rfl, rfl⟩
    exact hm
  · exact fun h => ⟨(path, v), h, rfl, rfl⟩

section ValueNotes

/-- The note that the visit of a value makes. -/
def noteOf : Json → Note
  | .obj _ => .container .object
  | .arr _ => .container .array
  | .null => .null
  | v => .scalar v

def isValue : Note → Bool
  | .container _ | .null | .scalar _ => true
  | .items _ | .optional => false

/-- An object is noted by `_emit_value` and, where its path is not empty, by `_walk` again. -/
def copies (p : String × Json) : Nat :=
  match p.2 with
  | .obj _ => if p.1 = "" then 1 else 2
  | _ => 1

def valueNotes (p : String × Json) :
    List (String × Note) := List.replicate (copies p) (p.1, noteOf p.2)

theorem copies_pos (p : String × Json) : 0 < copies p := by
  obtain ⟨path, v⟩ := p
  cases v with
  | obj fields =>
    dsimp only [copies]
    split <;> exact Nat.succ_pos _
  | _ => exact Nat.one_pos

theorem filter_flatMap {α β γ : Type} (p : γ → Bool) (f : α → List γ) (g : α → List β)
    (h : β → List γ) {xs : List α} (heq : ∀ x ∈ xs, (f x).filter p = (g x).flatMap h) :
    (xs.flatMap f).filter p = (xs.flatMap g).flatMap h := by
  rw [List.filter_flatMap, List.flatMap_assoc]
  induction xs with
  | nil => rfl
  | cons x xs ih =>
    obtain ⟨hx, hxs⟩ := List.forall_mem_cons.mp heq
    rw [List.flatMap_cons, List.flatMap_cons, hx, ih hxs]

theorem mem_flatMap_iff {α β γ : Type} {f : α → List β} {g : α → List γ} {b : β} {P : γ → Prop}
    {xs : List α} (h : ∀ x ∈ xs, (b ∈ f x ↔ ∃ c ∈ g x, P c)) :
    b ∈ xs.flatMap f ↔ ∃ c ∈ xs.flatMap g, P c := by
  simp only [List.mem_flatMap]
  constructor
  · rintro ⟨x, hx, hmem⟩
    obtain ⟨c, hc, hp⟩ := (h x hx).mp hmem
    exact ⟨c, ⟨x, hx, hc⟩, hp⟩
  · rintro ⟨c, ⟨x, hx, hc⟩, hp⟩
    exact ⟨x, hx, (h x hx).mpr ⟨c, hc, hp⟩⟩

/-- Without the notes about items and missing keys, the notes are those of the values visited. -/
theorem filter_notes (v : Json) (path : String) :
    (notes path v).filter (fun p => isValue p.2) = (visits path v).flatMap valueNotes ∧
      (fieldNotes path (members v)).filter (fun p => isValue p.2) =
        (fieldVisits path (members v)).flatMap valueNotes := by
  induction v using JsonOf.induct generalizing path with
  | null | bool b | num n | str s => exact ⟨rfl, rfl⟩
  | obj fields ih =>
    have hf : (fieldNotes path fields).filter (fun p => isValue p.2) =
        (fieldVisits path fields).flatMap valueNotes := by
      rw [fieldNotes_eq, fieldVisits_eq]
      exact filter_flatMap _ _ _ _ fun p hp => (ih p hp _).1
    refine ⟨?_, hf⟩
    rw [notes, visits, List.flatMap_cons, ← hf, valueNotes, copies]
    dsimp only
    split <;> rfl
  | arr items ih =>
    refine ⟨?_, rfl⟩
    have hrelax : (relaxNotes (arrayPath path) items).filter (fun p => isValue p.2) = [] := by
      rw [List.filter_eq_nil_iff]
      intro p hp
      obtain ⟨q, -, rfl⟩ := List.mem_map.mp hp
      exact Bool.false_ne_true
    rw [notes, visits, List.flatMap_cons]
    split_ifs with hnil hall hall
    · subst hnil
      rfl
    · subst hnil
      exact absurd rfl hall
    · have hmembers : (memberNotes (arrayPath path) items).filter (fun p => isValue p.2) =
          (memberVisits (arrayPath path) items).flatMap valueNotes := by
        rw [memberNotes_eq, memberVisits_eq]
        exact filter_flatMap _ _ _ _ fun x hx => (ih x hx _).2
      rw [List.filter_cons, List.filter_cons, List.filter_append, hrelax, hmembers, List.append_nil]
      rfl
    · have hitems : (itemNotes (arrayPath path) items).filter (fun p => isValue p.2) =
          (itemVisits (arrayPath path) items).flatMap valueNotes := by
        rw [itemNotes_eq, itemVisits_eq]
        exact filter_flatMap _ _ _ _ fun x hx => (ih x hx _).1
      rw [List.filter_cons, List.filter_append, hitems]
      simp [valueNotes, copies, noteOf, isValue]

theorem filter_walkNotes (data : Json) :
    (walkNotes data).filter (fun p => isValue p.2) = (occurrences data).flatMap valueNotes := by
  cases data with
  | obj fields => exact (filter_notes (.obj fields) "").2
  | arr items => exact (filter_notes (.arr items) "").1
  | null | bool b | num n | str s => rfl

end ValueNotes

section AtPath

variable (data : Json) (path : String)

theorem filter_notesAt :
    (notesAt path (walkNotes data)).filter isValue =
      (valuesAt data path).flatMap (fun v => List.replicate (copies (path, v)) (noteOf v)) := by
  have hcomm : ∀ ns : List (String × Note),
      (notesAt path ns).filter isValue = notesAt path (ns.filter (fun p => isValue p.2)) := by
    intro ns
    induction ns with
    | nil => rfl
    | cons p ns ih =>
      obtain ⟨q, n⟩ := p
      rw [notesAt] at ih
      by_cases hq : q = path <;> cases hn : isValue n <;> simp [notesAt, hq, hn, ih]
  have hvalues : ∀ ps : List (String × Json), notesAt path (ps.flatMap valueNotes) =
      (ps.filterMap (fun p => if p.1 = path then some p.2 else none)).flatMap
        (fun v => List.replicate (copies (path, v)) (noteOf v)) := by
    intro ps
    induction ps with
    | nil => rfl
    | cons p ps ih =>
      obtain ⟨q, v⟩ := p
      have hhead : notesAt path (valueNotes (q, v)) =
          if q = path then List.replicate (copies (q, v)) (noteOf v) else [] := by
        by_cases hq : q = path <;> simp [notesAt, valueNotes, hq]
      rw [List.flatMap_cons, notesAt_append, hhead, ih]
      by_cases hq : q = path
      · subst hq
        simp
      · simp [hq]
  rw [hcomm, filter_walkNotes, hvalues, valuesAt]

/-- The notes of a path, but for those about items and missing keys, say what occurs there. -/
theorem mem_notesAt_iff {n : Note} (hn : isValue n = true) :
    n ∈ notesAt path (walkNotes data) ↔ ∃ v ∈ valuesAt data path, noteOf v = n := by
  have hmem : n ∈ notesAt path (walkNotes data) ↔ n ∈ (notesAt path (walkNotes data)).filter isValue := by
    rw [List.mem_filter, and_iff_left hn]
  rw [hmem, filter_notesAt, List.mem_flatMap]
  refine exists_congr fun v => and_congr_right fun _ => ?_
  rw [List.mem_replicate, and_iff_right (copies_pos _).ne', eq_comm]

/-- They begin with that of the value visited first. -/
theorem head?_notesAt :
    (notesAt path (walkNotes data)).head? = (valuesAt data path).head?.map noteOf := by
  have hfilter : (notesAt path (walkNotes data)).head? =
      ((notesAt path (walkNotes data)).filter isValue).head? := by
    have hstarted := allStarted_walkNotes data path
    cases hns : notesAt path (walkNotes data) with
    | nil => rfl
    | cons n ns =>
      have hopens : n.opens.isSome := hstarted n (by rw [hns]; rfl)
      have hvalue : isValue n = true := by
        cases n with
        | container t | null | scalar v => rfl
        | items t | optional => cases hopens
      rw [List.filter_cons_of_pos hvalue]
      rfl
  rw [hfilter, filter_notesAt]
  cases valuesAt data path with
  | nil => rfl
  | cons v vs =>
    obtain ⟨k, hk⟩ := Nat.exists_eq_succ_of_ne_zero (copies_pos (path, v)).ne'
    rw [List.flatMap_cons, hk, List.replicate_succ]
    rfl

end AtPath

/-- A path where a note is made has a node. -/
theorem exists_node_of_note {data : Json} {path : String} {n : Note} (h : n ∈ notesAt path (walkNotes data)) :
    ∃ m ∈ inferSchema data, m.path = path := by
  obtain ⟨s, hs, hsummary⟩ := (lookup_walk data path).2 (List.ne_nil_of_mem h)
  refine ⟨finalize s, (List.perm_insertionSort _ _).mem_iff.mpr ?_, hsummary.path⟩
  exact List.mem_map.mpr ⟨(path, s), mem_of_lookup hs, rfl⟩

/-- The state of an inferred node, and what it holds. -/
theorem summary_of_mem {data : Json} {n : SchemaNode} (h : n ∈ inferSchema data) :
    ∃ s, finalize s = n ∧ notesAt n.path (walkNotes data) ≠ [] ∧
      Summary n.path (notesAt n.path (walkNotes data)) s := by
  obtain ⟨p, hp, rfl⟩ := mem_inferSchema h
  obtain ⟨hnodup, htracks⟩ := tidy_walk data
  have hpath : p.2.path = p.1 := (htracks p hp).1
  have hlookup : (walk data []).lookup p.2.path = some p.2 := by
    rw [hpath]
    exact (lookup_eq_some_iff_mem hnodup).mpr hp
  obtain ⟨hnone, hsome⟩ := lookup_walk data p.2.path
  have hne : notesAt p.2.path (walkNotes data) ≠ [] := by
    intro hnil
    rw [hnone hnil] at hlookup
    cases hlookup
  obtain ⟨s, hs, hsummary⟩ := hsome hne
  obtain rfl : s = p.2 := Option.some.inj (hs.symm.trans hlookup)
  exact ⟨p.2, rfl, hne, hsummary⟩

end SchemaPilot.Occurrences
