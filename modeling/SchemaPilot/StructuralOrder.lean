import SchemaPilot.Digest
import SchemaPilot.StructuralType
import Mathlib.Data.List.Dedup

namespace SchemaPilot.StructuralOrder

open Keyed Digest StructuralType

/-- One value becomes the other by permuting the elements of arrays and reordering the keys
of objects, at any depth. -/
inductive Reordered : Json → Json → Prop
  | refl (v : Json) : Reordered v v
  | trans {u v w : Json} : Reordered u v → Reordered v w → Reordered u w
  | items {xs ys : List Json} : xs.Perm ys → Reordered (.arr xs) (.arr ys)
  | entries {fs gs : List (String × Json)} : fs.Perm gs → Reordered (.obj fs) (.obj gs)
  | item (l r : List Json) {x y : Json} :
    Reordered x y → Reordered (.arr (l ++ x :: r)) (.arr (l ++ y :: r))
  | entry (l r : List (String × Json)) (k : String) {v w : Json} :
    Reordered v w → Reordered (.obj (l ++ (k, v) :: r)) (.obj (l ++ (k, w) :: r))

theorem extractItems_eq (items : List Json) :
    extractItems items = items.map extractStructuralType := by
  induction items with
  | nil => rfl
  | cons x items ih => rw [extractItems, ih, List.map_cons]

theorem extractFields_eq (fields : List (String × Json)) :
    extractFields fields = fields.map (fun p => (p.1, extractStructuralType p.2)) := by
  induction fields with
  | nil => rfl
  | cons p fields ih => rw [extractFields, ih, List.map_cons]

theorem keys_extractFields (fields : List (String × Json)) :
    keys (extractFields fields) = keys fields := by
  rw [extractFields_eq, keys, List.map_map]
  rfl

theorem lookup_extractFields (fields : List (String × Json)) (k : String) :
    (extractFields fields).lookup k = (fields.lookup k).map extractStructuralType := by
  rw [extractFields_eq, lookup_map_snd]

/-- The type names among the structures of an array's elements. -/
def innerTypes (resolved : List Schema) : List String :=
  resolved.filterMap (fun r => match r with | .str t => some t | _ => none)

/-- The texts of the other structures. -/
def arrayStructures (resolved : List Schema) : List String :=
  resolved.filterMap (fun r => match r with | .str _ => none | _ => some (serializeAstToString r))

theorem arrayStructure_eq (resolved : List Schema) :
    arrayStructure resolved =
      sortedTexts (innerTypes resolved).dedup ++ sortedTexts (arrayStructures resolved) :=
  rfl

theorem mem_innerTypes {resolved : List Schema} {t : String} :
    t ∈ innerTypes resolved ↔ .str t ∈ resolved := by
  rw [innerTypes, List.mem_filterMap]
  constructor
  · rintro ⟨r, hr, h⟩
    cases r with
    | str s =>
      cases h
      exact hr
    | null | bool b | num n | arr items | obj fields => cases h
  · intro h
    exact ⟨.str t, h, rfl⟩

theorem sortedTexts_perm {xs ys : List String} (h : xs.Perm ys) : sortedTexts xs = sortedTexts ys := by
  have hp : (sortedTexts xs).Perm (sortedTexts ys) :=
    (List.perm_insertionSort _ xs).trans (h.trans (List.perm_insertionSort _ ys).symm)
  exact hp.eq_of_pairwise' (List.pairwise_insertionSort _ xs) (List.pairwise_insertionSort _ ys)

/-- Of the type names only which there are counts, of the other texts also how often. -/
theorem arrayStructure_congr {rs ss : List Schema} (ht : ∀ t, .str t ∈ rs ↔ .str t ∈ ss)
    (hs : (arrayStructures rs).Perm (arrayStructures ss)) : arrayStructure rs = arrayStructure ss := by
  have hd : (innerTypes rs).dedup.Perm (innerTypes ss).dedup := by
    apply (List.perm_ext_iff_of_nodup (List.nodup_dedup _) (List.nodup_dedup _)).mpr
    intro t
    rw [List.mem_dedup, List.mem_dedup, mem_innerTypes, mem_innerTypes, ht]
  rw [arrayStructure_eq, arrayStructure_eq, sortedTexts_perm hd, sortedTexts_perm hs]

theorem arrayStructure_perm {rs ss : List Schema} (h : rs.Perm ss) :
    arrayStructure rs = arrayStructure ss :=
  arrayStructure_congr (fun _ => h.mem_iff) (h.filterMap _)

theorem extract_arr_congr {xs ys : List Json} (hnil : xs = [] ↔ ys = [])
    (h : arrayStructure (extractItems xs) = arrayStructure (extractItems ys)) :
    extractStructuralType (.arr xs) = extractStructuralType (.arr ys) := by
  rw [extractStructuralType, extractStructuralType, h]
  simp only [hnil]

theorem extract_obj_eq_iff {fs gs : List (String × Json)} (hf : (keys fs).Nodup) (hg : (keys gs).Nodup) :
    extractStructuralType (.obj fs) = extractStructuralType (.obj gs) ↔
      ∀ k, (fs.lookup k).map extractStructuralType = (gs.lookup k).map extractStructuralType := by
  rw [extractStructuralType, extractStructuralType, JsonOf.obj.injEq,
    sortByKey_eq_iff (by rwa [keys_extractFields]) (by rwa [keys_extractFields])]
  simp only [lookup_extractFields]

theorem Reordered.wf_iff {v w : Json} (h : Reordered v w) : v.wf ↔ w.wf := by
  induction h with
  | refl v => exact Iff.rfl
  | trans _ _ ih ih' => exact ih.trans ih'
  | items hp =>
    rw [JsonOf.wf_arr_iff, JsonOf.wf_arr_iff]
    exact forall_congr' fun x => imp_congr_left hp.mem_iff
  | entries hp =>
    rw [JsonOf.wf_obj_iff, JsonOf.wf_obj_iff, (hp.map Prod.fst).nodup_iff]
    exact and_congr_right' (forall_congr' fun p => imp_congr_left hp.mem_iff)
  | item l r _ ih =>
    simp only [JsonOf.wf_arr_iff, List.forall_mem_append, List.forall_mem_cons, ih]
  | entry l r k _ ih =>
    simp only [JsonOf.wf_obj_iff, List.forall_mem_append, List.forall_mem_cons, ih, keys,
      List.map_append, List.map_cons]

/-- The structure of a value does not show the order of array elements or of keys. -/
theorem extract_eq_of_reordered {v w : Json} (h : Reordered v w) (hv : v.wf) :
    extractStructuralType v = extractStructuralType w := by
  induction h with
  | refl v => rfl
  | trans h _ ih ih' => exact (ih hv).trans (ih' (h.wf_iff.mp hv))
  | @items xs ys hp =>
    apply extract_arr_congr
    · rw [← List.length_eq_zero_iff, hp.length_eq, List.length_eq_zero_iff]
    · rw [extractItems_eq, extractItems_eq]
      exact arrayStructure_perm (hp.map _)
  | @entries fs gs hp =>
    have hf := ((JsonOf.wf_obj_iff fs).mp hv).1
    have hg : (keys gs).Nodup := (hp.map Prod.fst).nodup_iff.mp hf
    apply (extract_obj_eq_iff hf hg).mpr
    intro k
    rw [lookup_perm hf hp]
  | item l r h ih =>
    have hx := (JsonOf.wf_arr_iff _).mp hv _ List.mem_append_cons_self
    rw [extractStructuralType, extractStructuralType]
    simp only [extractItems_eq, List.map_append, List.map_cons, ih hx]
    simp
  | entry l r k h ih =>
    have hx := ((JsonOf.wf_obj_iff _).mp hv).2 _ List.mem_append_cons_self
    rw [extractStructuralType, extractStructuralType]
    simp only [extractFields_eq, List.map_append, List.map_cons, ih hx]

/-- What is written for a payload depends on its structure only. -/
theorem structuralString_eq_of_extract {p q : Payload}
    (h : extractStructuralType p.json = extractStructuralType q.json) :
    structuralString p = structuralString q := by
  simp only [Payload.json, extractStructuralType, JsonOf.obj.injEq] at h
  rw [structuralString, structuralString, h]

theorem fingerprint_eq_of_reordered (sha256 : ByteArray → String) (p q : Payload)
    (h : Reordered p.json q.json) :
    structuralString p = structuralString q ∧ fingerprintSchema sha256 p = fingerprintSchema sha256 q := by
  have hs := structuralString_eq_of_extract (extract_eq_of_reordered h p.wf)
  exact ⟨hs, by rw [fingerprintSchema, hs, fingerprintSchema]⟩

theorem fingerprint_eq_of_reordered_nested :
    let p : Payload := ⟨[("b", .null), ("a", .arr [.num (.int 1), .obj [("x", .str ""), ("y", .null)]])], by decide⟩
    let q : Payload := ⟨[("a", .arr [.obj [("y", .null), ("x", .str "")], .num (.int 1)]), ("b", .null)], by decide⟩
    let sha256 := sampleSha256 [("a:array[int,object\x7bx:string;y:null\x7d];b:null;",
      "9276516e6159f9dccf874efde4ae52aea8d0042458a6aec6239cd7ada7678110")]
    structuralString p = structuralString q ∧ fingerprintSchema sha256 p = fingerprintSchema sha256 q := by
  intro p q sha256
  refine fingerprint_eq_of_reordered sha256 p q (.trans (.entries (List.Perm.swap _ _ _)) ?_)
  refine .entry [] _ "a" (.trans (.item [_] [] (.entries (List.Perm.swap _ _ _))) (.items ?_))
  exact List.Perm.swap _ _ _

end SchemaPilot.StructuralOrder
