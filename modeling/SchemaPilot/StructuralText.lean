import SchemaPilot.Digest
import SchemaPilot.StructuralOrder
import SchemaPilot.PayloadPaths

namespace SchemaPilot.StructuralText

open Keyed PrefixCode Digest PayloadPaths StructuralType StructuralOrder

mutual

/-- A structure with every array element written as its text. -/
def written : Schema → Schema
  | .obj fields => .obj (writtenFields fields)
  | .arr items => if items = [] then .arr [.str "empty_array"] else .arr (writtenItems items)
  | .null => .null
  | .bool b => .bool b
  | .num n => .num n
  | .str s => .str s

def writtenItems : List Schema → List Schema
  | [] => []
  | x :: items => .str (serializeAstToString (written x)) :: writtenItems items

def writtenFields : List (String × Schema) → List (String × Schema)
  | [] => []
  | (k, v) :: fields => (k, written v) :: writtenFields fields

end

def text (s : Schema) : String := serializeAstToString (written s)

def isName : Schema → Bool
  | .str _ => true
  | .null | .bool _ | .num _ | .arr _ | .obj _ => false

/-- The elements of an array as its structure lists them: each type name once, then the other
elements in the order of their texts. -/
def sortedItems (items : List Schema) : List Schema :=
  (sortedTexts (innerTypes items).dedup).map .str ++
    (items.filter (fun s => !isName s)).insertionSort (fun s t => text s ≤ text t)

mutual

/-- The tree behind a structure, its array elements not yet written as texts. -/
def arrange : Schema → Schema
  | .obj fields => .obj (arrangeFields fields)
  | .arr items => .arr (sortedItems (arrangeItems items))
  | .null => .null
  | .bool b => .bool b
  | .num n => .num n
  | .str s => .str s

def arrangeItems : List Schema → List Schema
  | [] => []
  | x :: items => arrange x :: arrangeItems items

def arrangeFields : List (String × Schema) → List (String × Schema)
  | [] => []
  | (k, v) :: fields => (k, arrange v) :: arrangeFields fields

end

theorem writtenItems_eq (items : List Schema) : writtenItems items = items.map (fun s => .str (text s)) := by
  induction items with
  | nil => rfl
  | cons x items ih => rw [writtenItems, ih, List.map_cons, text]

theorem writtenFields_eq (fields : List (String × Schema)) :
    writtenFields fields = fields.map (fun p => (p.1, written p.2)) := by
  induction fields with
  | nil => rfl
  | cons p fields ih => rw [writtenFields, ih, List.map_cons]

theorem arrangeItems_eq (items : List Schema) : arrangeItems items = items.map arrange := by
  induction items with
  | nil => rfl
  | cons x items ih => rw [arrangeItems, ih, List.map_cons]

theorem arrangeFields_eq (fields : List (String × Schema)) :
    arrangeFields fields = fields.map (fun p => (p.1, arrange p.2)) := by
  induction fields with
  | nil => rfl
  | cons p fields ih => rw [arrangeFields, ih, List.map_cons]

theorem normalizeItems_eq (items : List Json) : normalizeItems items = items.map normalizeTypes := by
  induction items with
  | nil => rfl
  | cons x items ih => rw [normalizeItems, ih, List.map_cons]

theorem normalizeFields_eq (fields : List (String × Json)) :
    normalizeFields fields = fields.map (fun p => (p.1, normalizeTypes p.2)) := by
  induction fields with
  | nil => rfl
  | cons p fields ih => rw [normalizeFields, ih, List.map_cons]

theorem serializeItems_eq (items : List Schema) :
    serializeItems items = items.map serializeAstToString := by
  induction items with
  | nil => rfl
  | cons x items ih => rw [serializeItems, ih, List.map_cons]

theorem serializeFields_eq (fields : List (String × Schema)) :
    serializeFields fields = fields.map (fun p => (p.1, serializeAstToString p.2)) := by
  induction fields with
  | nil => rfl
  | cons p fields ih => rw [serializeFields, ih, List.map_cons]

theorem innerTypes_written (items : List Schema) : innerTypes (items.map written) = innerTypes items := by
  rw [innerTypes, innerTypes, List.filterMap_map]
  apply List.filterMap_congr
  intro s _
  cases s with
  | null | bool b | num n | str s => rfl
  | obj fields => rfl
  | arr items =>
    rw [Function.comp_apply, written]
    by_cases h : items = []
    · rw [if_pos h]
    · rw [if_neg h]

theorem arrayStructures_written (items : List Schema) :
    arrayStructures (items.map written) = (items.filter (fun s => !isName s)).map text := by
  rw [arrayStructures, List.filterMap_map, ← List.filterMap_eq_map, List.filterMap_filter]
  apply List.filterMap_congr
  intro s _
  cases s with
  | null | bool b | num n | str s => rfl
  | obj fields => rfl
  | arr items =>
    simp only [Function.comp_apply, text, written, isName]
    by_cases h : items = []
    · rw [if_pos h]
      rfl
    · rw [if_neg h]
      rfl

theorem mem_sortedItems {items : List Schema} {s : Schema} : s ∈ sortedItems items ↔ s ∈ items := by
  rw [sortedItems, List.mem_append, List.mem_insertionSort, List.mem_filter, List.mem_map]
  simp only [sortedTexts, List.mem_insertionSort, List.mem_dedup, mem_innerTypes]
  constructor
  · rintro (⟨t, ht, rfl⟩ | ⟨hs, -⟩)
    · exact ht
    · exact hs
  · intro hs
    cases s with
    | str t => exact .inl ⟨t, hs, rfl⟩
    | null | bool b | num n | arr items | obj fields => exact .inr ⟨hs, rfl⟩

theorem sortedItems_eq_nil_iff (items : List Schema) : sortedItems items = [] ↔ items = [] := by
  simp only [List.eq_nil_iff_forall_not_mem, mem_sortedItems]

/-- Writing out the sorted elements gives the list the code builds from their structures. -/
theorem writtenItems_sortedItems (items : List Schema) :
    writtenItems (sortedItems items) = (arrayStructure (items.map written)).map .str := by
  have hsort : ((items.filter (fun s => !isName s)).insertionSort (fun s t => text s ≤ text t)).map text =
      sortedTexts ((items.filter (fun s => !isName s)).map text) :=
    List.map_insertionSort _ _ text _ fun _ _ _ _ => Iff.rfl
  have hnames : ∀ ts : List String, (ts.map JsonOf.str).map (fun s : Schema => .str (text s)) =
      ts.map (JsonOf.str : String → Schema) := by
    intro ts
    rw [List.map_map]
    rfl
  rw [writtenItems_eq, sortedItems, List.map_append, hnames, arrayStructure_eq, innerTypes_written,
    arrayStructures_written, List.map_append, ← hsort, List.map_map]
  rfl

theorem extract_eq_written (v : Json) :
    extractStructuralType v = written (arrange (normalizeTypes v)) := by
  induction v using JsonOf.induct with
  | null | bool b | num n | str s => rfl
  | arr items ih =>
    have hmap : extractItems items = (arrangeItems (normalizeItems items)).map written := by
      rw [extractItems_eq, normalizeItems_eq, arrangeItems_eq, List.map_map, List.map_map]
      exact List.map_congr_left ih
    have hnil : sortedItems (arrangeItems (normalizeItems items)) = [] ↔ items = [] := by
      rw [sortedItems_eq_nil_iff, arrangeItems_eq, normalizeItems_eq, List.map_eq_nil_iff,
        List.map_eq_nil_iff]
    rw [extractStructuralType, normalizeTypes, arrange, written, writtenItems_sortedItems, hmap]
    simp only [hnil]
  | obj fields ih =>
    rw [extractStructuralType, normalizeTypes, arrange, written, extractFields_eq, normalizeFields_eq,
      sortByKey_map_snd, sortByKey_map_snd, arrangeFields_eq, writtenFields_eq, List.map_map, List.map_map]
    congr 1
    apply List.map_congr_left
    intro p hp
    exact congrArg (Prod.mk p.1) (ih p ((mem_sortByKey fields p).mp hp))

section Reading

/-- The type names of JSON scalars. -/
def typeNames : List String := ["null", "bool", "int", "float", "string"]

/-- A key that cannot end before its colon, nor be taken for the end of an object. -/
def readableKey (k : String) : Bool := ':' ∉ k.toList && k.toList.head? ≠ some '}'

/-- A tree whose text can be read back. -/
inductive Readable : Schema → Prop
  | name {t : String} : t ∈ typeNames → Readable (.str t)
  | arr {items : List Schema} : (∀ x ∈ items, Readable x) → Readable (.arr items)
  | obj {fields : List (String × Schema)} : fields.Pairwise (fun p q => p.1 ≤ q.1) →
    (∀ p ∈ fields, readableKey p.1) → (∀ p ∈ fields, Readable p.2) → Readable (.obj fields)

theorem intercalate_toList (sep : String) {c : Char} (hsep : sep.toList = [c]) (close : Char)
    {α : Type} (f : α → String) (xs : List α) :
    (sep.intercalate (xs.map f)).toList ++ [close] = joined c close (fun a => (f a).toList) xs := by
  induction xs using joined.induct with
  | case1 => simp [joined]
  | case2 x => simp [joined]
  | case3 x y xs ih =>
    rw [List.map_cons] at ih
    rw [joined, ← ih, List.map_cons, List.map_cons, String.intercalate_cons_cons]
    simp [hsep]

def chars (s : Schema) : List Char := (text s).toList

def entryChars (p : String × Schema) : List Char := p.1.toList ++ ':' :: chars p.2

theorem chars_arr {items : List Schema} (h : items ≠ []) :
    chars (.arr items) = "array[".toList ++ joined ',' ']' chars items := by
  have hj := intercalate_toList "," rfl ']' text items
  rw [chars, text, written, if_neg h, serializeAstToString, serializeItems_eq, writtenItems_eq, List.map_map,
    String.toList_append, String.toList_append, List.append_assoc]
  exact congrArg ("array[".toList ++ ·) hj

theorem chars_arr_nil : chars (.arr []) = "array[".toList ++ 'e' :: "mpty_array]".toList := by
  decide

theorem chars_obj {fields : List (String × Schema)} (h : fields.Pairwise (fun p q => p.1 ≤ q.1)) :
    chars (.obj fields) = "object\x7b".toList ++ joined ';' '}' entryChars fields := by
  have hj := intercalate_toList ";" rfl '}' (fun p : String × Schema => p.1 ++ ":" ++ text p.2) fields
  have hentry : (fun p : String × Schema => (p.1 ++ ":" ++ text p.2).toList) = entryChars := by
    funext p
    simp [entryChars, chars]
  rw [hentry] at hj
  rw [chars, text, written, serializeAstToString, serializeFields_eq, writtenFields_eq, List.map_map]
  have hmap := sortByKey_map_snd (fun s => serializeAstToString (written s)) fields
  rw [sortByKey_of_pairwise h] at hmap
  change ("object\x7b" ++ ";".intercalate ((sortByKey (fields.map (fun p => (p.1, text p.2)))).map _) ++
    "\x7d").toList = _
  rw [show fields.map (fun p => (p.1, text p.2)) =
      fields.map (fun p => (p.1, serializeAstToString (written p.2))) from rfl,
    hmap, List.map_map, String.toList_append, String.toList_append, List.append_assoc]
  exact congrArg ("object\x7b".toList ++ ·) hj

theorem typeNames_inj : ∀ a ∈ typeNames, ∀ b ∈ typeNames, a.toList.head? = b.toList.head? → a = b := by
  decide

theorem typeNames_head : ∀ a ∈ typeNames, ∃ c ∈ a.toList.head?, c ∉ ['a', 'o', 'e', ']'] := by
  intro a ha
  have hcases : a = "null" ∨ a = "bool" ∨ a = "int" ∨ a = "float" ∨ a = "string" := by
    simpa [typeNames] using ha
  obtain rfl | rfl | rfl | rfl | rfl := hcases <;> exact ⟨_, rfl, by decide⟩

/-- The character that tells the kinds of trees and the type names apart. -/
def opening : Schema → Option Char
  | .str t => t.toList.head?
  | .arr _ => some 'a'
  | .obj _ => some 'o'
  | .null | .bool _ | .num _ => some 'u'

theorem opening_name {a : String} (h : a ∈ typeNames) :
    opening (.str a) ≠ some 'a' ∧ opening (.str a) ≠ some 'o' := by
  obtain ⟨c, hc, hn⟩ := typeNames_head a h
  simp only [List.mem_cons, not_or] at hn
  rw [opening, hc]
  exact ⟨fun he => hn.1 (Option.some.inj he), fun he => hn.2.1 (Option.some.inj he)⟩

theorem head?_chars {s : Schema} (h : Readable s) : (chars s).head? = opening s := by
  cases h with
  | name ht => rfl
  | @arr items hx =>
    by_cases hnil : items = []
    · subst hnil
      rfl
    · rw [chars_arr hnil]
      rfl
  | obj hs hk hv =>
    rw [chars_obj hs]
    rfl

theorem opening_ne {s : Schema} (h : Readable s) : ∃ c ∈ opening s, c ≠ 'e' ∧ c ≠ ']' := by
  cases h with
  | name ht =>
    obtain ⟨c, hc, hn⟩ := typeNames_head _ ht
    simp only [List.mem_cons, not_or] at hn
    exact ⟨c, hc, hn.2.2.1, hn.2.2.2.1⟩
  | arr hx => exact ⟨'a', rfl, by decide⟩
  | obj hs hk hv => exact ⟨'o', rfl, by decide⟩

theorem chars_cons {s : Schema} (h : Readable s) :
    ∃ c r, chars s = c :: r ∧ opening s = some c ∧ c ≠ 'e' ∧ c ≠ ']' := by
  obtain ⟨c, hc, he, hb⟩ := opening_ne h
  have hh := head?_chars h
  rw [hc] at hh
  cases hl : chars s with
  | nil =>
    rw [hl] at hh
    cases hh
  | cons d r =>
    rw [hl] at hh
    obtain rfl := Option.some.inj hh
    exact ⟨d, r, rfl, hc, he, hb⟩

theorem chars_opens {s : Schema} (h : Readable s) : Opens ']' (chars s) := by
  obtain ⟨c, r, hc, -, -, hb⟩ := chars_cons h
  exact ⟨c, r, hc, hb⟩

theorem opening_eq {s t : Schema} (hs : Readable s) (ht : Readable t) {u w : List Char}
    (h : chars s ++ u = chars t ++ w) : opening s = opening t := by
  obtain ⟨c, r, hc, ho, -⟩ := chars_cons hs
  obtain ⟨d, q, hd, ho', -⟩ := chars_cons ht
  rw [hc, hd] at h
  rw [ho, ho', (List.cons.inj h).1]

def Entry (p : String × Schema) : Prop := readableKey p.1 ∧ Readable p.2

theorem entryChars_opens {p : String × Schema} (h : Entry p) : Opens '}' (entryChars p) := by
  obtain ⟨hk, -⟩ := h
  simp only [readableKey, Bool.and_eq_true, decide_eq_true_eq] at hk
  rw [entryChars]
  cases hl : p.1.toList with
  | nil => exact ⟨':', _, rfl, by decide⟩
  | cons c r =>
    refine ⟨c, r ++ ':' :: chars p.2, rfl, ?_⟩
    rintro rfl
    exact hk.2 (by rw [hl]; rfl)

theorem entryChars_delimited {p : String × Schema} (hk : ':' ∉ p.1.toList)
    (hv : Delimited Readable chars p.2) :
    Delimited (fun p => ':' ∉ p.1.toList ∧ Readable p.2) entryChars p :=
  delimited_until (fun _ _ => String.toList_inj.mp) hk hv

/-- What is written for an array's elements is not what is written for an empty array. -/
theorem chars_arr_nil_ne {ys : List Schema} (hne : ys ≠ []) (hy : ∀ y ∈ ys, Readable y) (s t : List Char) :
    chars (.arr []) ++ s ≠ chars (.arr ys) ++ t := by
  intro h
  obtain _ | ⟨y, ys⟩ := ys
  · exact hne rfl
  obtain ⟨r, hr⟩ := joined_cons ',' ']' chars y ys
  obtain ⟨c, q, hc, -, he, -⟩ := chars_cons (hy y List.mem_cons_self)
  rw [chars_arr_nil, chars_arr hne, hr, hc, List.append_assoc, List.append_assoc] at h
  exact he (List.cons.inj (List.append_cancel_left h)).1.symm

theorem chars_arr_inj {xs ys : List Schema} (hx : ∀ x ∈ xs, Readable x)
    (hd : ∀ x ∈ xs, Delimited Readable chars x) (hy : ∀ y ∈ ys, Readable y) {u v : List Char}
    (h : chars (.arr xs) ++ u = chars (.arr ys) ++ v) : xs = ys ∧ u = v := by
  by_cases hxs : xs = []
  · subst hxs
    by_cases hys : ys = []
    · subst hys
      exact ⟨rfl, List.append_cancel_left h⟩
    · exact absurd h (chars_arr_nil_ne hys hy u v)
  · by_cases hys : ys = []
    · subst hys
      exact absurd h.symm (chars_arr_nil_ne hxs hx v u)
    · rw [chars_arr hxs, chars_arr hys, List.append_assoc, List.append_assoc] at h
      exact joined_delimited (by decide) (fun _ => chars_opens) xs hx hd ys hy u v
        (List.append_cancel_left h)

theorem chars_obj_inj {fs gs : List (String × Schema)} (hf : ∀ p ∈ fs, Entry p)
    (hsf : fs.Pairwise (fun p q => p.1 ≤ q.1)) (hd : ∀ p ∈ fs, Delimited Readable chars p.2)
    (hg : ∀ p ∈ gs, Entry p) (hsg : gs.Pairwise (fun p q => p.1 ≤ q.1)) {u v : List Char}
    (h : chars (.obj fs) ++ u = chars (.obj gs) ++ v) : fs = gs ∧ u = v := by
  have hcolon : ∀ p : String × Schema, Entry p → ':' ∉ p.1.toList ∧ Readable p.2 := by
    rintro p ⟨hk, hv⟩
    simp only [readableKey, Bool.and_eq_true, decide_eq_true_eq] at hk
    exact ⟨hk.1, hv⟩
  have hentry : ∀ p ∈ fs, Delimited Entry entryChars p := fun p hp =>
    (entryChars_delimited (hcolon p (hf p hp)).1 (hd p hp)).mono hcolon
  rw [chars_obj hsf, chars_obj hsg, List.append_assoc, List.append_assoc] at h
  exact joined_delimited (by decide) (fun _ => entryChars_opens) fs hf hentry gs hg u v
    (List.append_cancel_left h)

/-- The text of a readable tree shows where it ends and which tree it is. -/
theorem chars_delimited (s : Schema) (hs : Readable s) : Delimited Readable chars s := by
  induction s using JsonOf.induct with
  | null => cases hs
  | bool b => cases hs
  | num n => cases hs
  | str a =>
    intro w hw u v h
    have ho := opening_eq hs hw h
    obtain ⟨ha⟩ := hs
    cases hw with
    | @name b hb =>
      obtain rfl := typeNames_inj a ha b hb ho
      exact ⟨rfl, List.append_cancel_left h⟩
    | arr hx => exact absurd ho (opening_name ha).1
    | obj hp hk hv => exact absurd ho (opening_name ha).2
  | arr xs ih =>
    intro w hw u v h
    have ho := opening_eq hs hw h
    obtain _ | hx := hs
    cases hw with
    | name hb => exact absurd ho.symm (opening_name hb).1
    | arr hy =>
      obtain ⟨rfl, rfl⟩ := chars_arr_inj hx (fun x hm => ih x hm (hx x hm)) hy h
      exact ⟨rfl, rfl⟩
    | obj hp hk hv => exact absurd (Option.some.inj ho) (by decide)
  | obj fs ih =>
    intro w hw u v h
    have ho := opening_eq hs hw h
    obtain _ | _ | ⟨hsf, hkf, hvf⟩ := hs
    cases hw with
    | name hb => exact absurd ho.symm (opening_name hb).2
    | arr hx => exact absurd (Option.some.inj ho) (by decide)
    | obj hsg hkg hvg =>
      obtain ⟨rfl, rfl⟩ := chars_obj_inj (fun p hp => ⟨hkf p hp, hvf p hp⟩) hsf
        (fun p hp => ih p hp (hvf p hp)) (fun p hp => ⟨hkg p hp, hvg p hp⟩) hsg h
      exact ⟨rfl, rfl⟩

theorem pairwise_arrangeFields {fields : List (String × Schema)}
    (h : fields.Pairwise (fun p q => p.1 ≤ q.1)) :
    (arrangeFields fields).Pairwise (fun p q => p.1 ≤ q.1) := by
  rw [arrangeFields_eq, List.pairwise_map]
  exact h

theorem readable_arrange {v : Json} (h : keysAll readableKey v) : Readable (arrange (normalizeTypes v)) := by
  induction v using JsonOf.induct with
  | null => exact .name (by decide)
  | bool b => exact .name (by simp [typeNames, primitiveType])
  | num n =>
    cases n with
    | int n => exact .name (by simp [typeNames, primitiveType])
    | float x => exact .name (by simp [typeNames, primitiveType])
  | str s => exact .name (by simp [typeNames, primitiveType])
  | arr items ih =>
    have hi := (keysAll_arr_iff _ items).mp h
    rw [normalizeTypes, arrange]
    apply Readable.arr
    intro x hx
    rw [mem_sortedItems, arrangeItems_eq, normalizeItems_eq, List.map_map] at hx
    obtain ⟨y, hy, rfl⟩ := List.mem_map.mp hx
    exact ih y hy (hi y hy)
  | obj fields ih =>
    have hf := (keysAll_obj_iff _ fields).mp h
    have hm : ∀ p ∈ arrangeFields (sortByKey (normalizeFields fields)),
        ∃ q ∈ fields, p = (q.1, arrange (normalizeTypes q.2)) := by
      intro p hp
      rw [normalizeFields_eq, sortByKey_map_snd, arrangeFields_eq, List.map_map] at hp
      obtain ⟨q, hq, rfl⟩ := List.mem_map.mp hp
      exact ⟨q, (mem_sortByKey fields q).mp hq, rfl⟩
    rw [normalizeTypes, arrange]
    apply Readable.obj (pairwise_arrangeFields (sortByKey_pairwise _))
    · intro p hp
      obtain ⟨q, hq, rfl⟩ := hm p hp
      exact (hf q hq).1
    · intro p hp
      obtain ⟨q, hq, rfl⟩ := hm p hp
      exact ih q hq (hf q hq).2

/-- A root object whose keys and values can be read back: a key of the root may begin with a
closing brace. -/
def ReadableRoot (fields : List (String × Json)) : Prop :=
  ∀ p ∈ fields, ':' ∉ p.1.toList ∧ keysAll readableKey p.2

/-- The trees of a root object's values, under its keys in order. -/
def rootTrees (fields : List (String × Json)) : List (String × Schema) :=
  sortByKey (fields.map (fun p => (p.1, arrange (normalizeTypes p.2))))

theorem rootTrees_eq (fields : List (String × Json)) :
    arrange (normalizeTypes (.obj fields)) = .obj (rootTrees fields) := by
  rw [normalizeTypes, arrange, normalizeFields_eq, sortByKey_map_snd, arrangeFields_eq, rootTrees,
    sortByKey_map_snd (fun v => arrange (normalizeTypes v)), List.map_map]
  rfl

theorem structuralString_toList (p : Payload) :
    (structuralString p).toList = (rootTrees p.fields).flatMap (fun e => entryChars e ++ [';']) := by
  have he : extractFields p.fields =
      (p.fields.map (fun e => (e.1, arrange (normalizeTypes e.2)))).map (fun e => (e.1, written e.2)) := by
    rw [extractFields_eq, List.map_map]
    apply List.map_congr_left
    intro e _
    exact congrArg (Prod.mk e.1) (extract_eq_written e.2)
  rw [structuralString, he, sortByKey_map_snd, List.map_map, String.toList_join, List.flatMap_map, rootTrees]
  congr 1
  funext e
  simp [entryChars, chars, text]

theorem rootTrees_eq_of_structuralString {p q : Payload} (hp : ReadableRoot p.fields)
    (hq : ReadableRoot q.fields) (h : structuralString p = structuralString q) :
    rootTrees p.fields = rootTrees q.fields := by
  have hm : ∀ {fields : List (String × Json)}, ReadableRoot fields → ∀ e ∈ rootTrees fields,
      ':' ∉ e.1.toList ∧ Readable e.2 := by
    intro fields hr e he
    rw [rootTrees, mem_sortByKey] at he
    obtain ⟨d, hd, rfl⟩ := List.mem_map.mp he
    exact ⟨(hr d hd).1, readable_arrange (hr d hd).2⟩
  have hs := congrArg String.toList h
  rw [structuralString_toList, structuralString_toList] at hs
  apply flatMap_delimited_inj (D := fun e => ':' ∉ e.1.toList ∧ Readable e.2) ?_ ?_ (hm hq) hs
  · intro e he
    exact absurd (List.append_eq_nil_iff.mp he).2 (by simp)
  · intro e he
    obtain ⟨hk, hv⟩ := hm hp e he
    exact (entryChars_delimited hk (chars_delimited e.2 hv)).append_const [';']

end Reading

theorem lookup_rootTrees {fields : List (String × Json)} (h : (keys fields).Nodup) (k : String) :
    (rootTrees fields).lookup k = (fields.lookup k).map (fun v => arrange (normalizeTypes v)) := by
  have hn : (keys (fields.map (fun p => (p.1, arrange (normalizeTypes p.2))))).Nodup := by
    rw [keys, List.map_map]
    exact h
  rw [rootTrees, lookup_sortByKey hn, lookup_map_snd (fun v => arrange (normalizeTypes v))]

/-- Without a delimiter in a key the fingerprint tells the keys and the structure of each value. -/
theorem extract_eq_of_fingerprint (sha256 : ByteArray → String) (hsha : Function.Injective sha256)
    (p q : Payload) (hp : ReadableRoot p.fields) (hq : ReadableRoot q.fields)
    (h : fingerprintSchema sha256 p = fingerprintSchema sha256 q) (k : String) :
    (p.fields.lookup k).map extractStructuralType = (q.fields.lookup k).map extractStructuralType := by
  have hs : structuralString p = structuralString q := String.toByteArray_inj.mp (hsha h)
  have ht := congrArg (List.lookup k) (rootTrees_eq_of_structuralString hp hq hs)
  rw [lookup_rootTrees ((JsonOf.wf_obj_iff _).mp p.wf).1, lookup_rootTrees ((JsonOf.wf_obj_iff _).mp q.wf).1] at ht
  have hw := congrArg (Option.map written) ht
  rw [Option.map_map, Option.map_map] at hw
  have he : extractStructuralType = written ∘ fun v => arrange (normalizeTypes v) := by
    funext v
    exact extract_eq_written v
  rw [he, hw]

theorem extract_eq_of_fingerprint_nested :
    let p : Payload := ⟨[("b", .num (.int 1)), ("a", .arr [.bool true, .obj [("x", .null)]])], by decide⟩
    let q : Payload := ⟨[("a", .arr [.obj [("x", .null)], .bool false]), ("b", .num (.int 2))], by decide⟩
    (p.fields.lookup "a").map extractStructuralType = (q.fields.lookup "a").map extractStructuralType := by
  intro p q
  let sha256 := sampleSha256 [("a:array[bool,object\x7bx:null\x7d];b:int;",
    "22e28f78f7a7f172417b299abc7c87d8c8bca06fa14e81400b325e1d3d5c96c3")]
  have hp : ReadableRoot p.fields := by
    rw [ReadableRoot]
    decide
  have hq : ReadableRoot q.fields := by
    rw [ReadableRoot]
    decide
  have hs : structuralString p = structuralString q := by decide +kernel
  exact extract_eq_of_fingerprint sha256 (sampleSha256_injective _ (by simp) (by simp)) p q hp hq
    (congrArg (fun s : String => sha256 s.toUTF8) hs) "a"

/-- A key with delimiters in it and two keys without are written alike. -/
theorem fingerprint_eq_merged_keys :
    let p : Payload := ⟨[("a:int;b", .num (.int 1))], by decide⟩
    let q : Payload := ⟨[("a", .num (.int 1)), ("b", .num (.int 1))], by decide⟩
    let sha256 := sampleSha256 [("a:int;b:int;",
      "33d23af9de5eb529b483bfb88b626ef929d3c9cb40c145146977fc09742fe12b")]
    Function.Injective sha256 ∧ fingerprintSchema sha256 p = fingerprintSchema sha256 q ∧
      (p.fields.lookup "a").map extractStructuralType ≠ (q.fields.lookup "a").map extractStructuralType := by
  intro p q sha256
  have hs : structuralString p = structuralString q := by decide +kernel
  exact ⟨sampleSha256_injective _ (by simp) (by simp), congrArg (fun s : String => sha256 s.toUTF8) hs,
    by decide +kernel⟩

end SchemaPilot.StructuralText
