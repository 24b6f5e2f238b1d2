import Mathlib.Algebra.GroupWithZero.Nat
import SchemaPilot.JsonContext
import SchemaPilot.StructuralDrift

namespace SchemaPilot.ElementCounts

open Keyed PrefixCode Digest StructuralType StructuralOrder StructuralText StructuralDrift JsonContext

/-- The element has the structural type of another one. -/
def SameStructure (x y : Json) : Prop := extractStructuralType x = extractStructuralType y

section Lengths

theorem length_joined {α : Type} (sep close : Char) (enc : α → List Char) {xs : List α} (h : xs ≠ []) :
    (joined sep close enc xs).length = (xs.map (fun x => (enc x).length + 1)).sum := by
  induction xs using joined.induct with
  | case1 => exact absurd rfl h
  | case2 x => simp [joined]
  | case3 x y xs ih =>
    have hrest := ih (List.cons_ne_nil _ _)
    simp only [joined, List.length_append, List.length_cons, List.map_cons, List.sum_cons] at hrest ⊢
    omega

theorem length_intercalate (sep : String) {c : Char} (hsep : sep.toList = [c]) {α : Type}
    (f : α → String) {xs : List α} (h : xs ≠ []) :
    (sep.intercalate (xs.map f)).length + 1 = (xs.map (fun x => (f x).length + 1)).sum := by
  have hlen := congrArg List.length (intercalate_toList sep hsep '|' f xs)
  rw [List.length_append, List.length_singleton, String.length_toList, length_joined _ _ _ h] at hlen
  simpa only [String.length_toList] using hlen

/-- What the texts of an array's elements take up, with what separates them. -/
def weight (texts : List String) : Nat := (texts.map (fun t => t.length + 1)).sum

theorem weight_perm {xs ys : List String} (h : xs.Perm ys) : weight xs = weight ys :=
  (h.map _).sum_nat

theorem weight_append (xs ys : List String) : weight (xs ++ ys) = weight xs + weight ys := by
  rw [weight, List.map_append, List.sum_append]
  rfl

def textLength (v : Json) : Nat := (serializeAstToString (extractStructuralType v)).length

theorem arrayStructure_ne_nil {resolved : List Schema} (h : resolved ≠ []) : arrayStructure resolved ≠ [] := by
  obtain ⟨r, rs, rfl⟩ := List.exists_cons_of_ne_nil h
  intro hnil
  obtain ⟨hnames, htexts⟩ := List.append_eq_nil_iff.mp ((arrayStructure_eq (r :: rs)).symm.trans hnil)
  by_cases hname : ∃ t, r = .str t
  · obtain ⟨t, rfl⟩ := hname
    have hmem : t ∈ sortedTexts (innerTypes (.str t :: rs)).dedup :=
      (List.mem_insertionSort _).mpr (List.mem_dedup.mpr (mem_innerTypes.mpr List.mem_cons_self))
    rw [hnames] at hmem
    cases hmem
  · have hmem : serializeAstToString r ∈ sortedTexts (arrayStructures (r :: rs)) := by
      refine (List.mem_insertionSort _).mpr (List.mem_filterMap.mpr ⟨r, List.mem_cons_self, ?_⟩)
      cases r with
      | str t => exact absurd ⟨t, rfl⟩ hname
      | null | bool b | num n | arr items | obj fields => rfl
    rw [htexts] at hmem
    cases hmem

theorem textLength_arr {items : List Json} (h : items ≠ []) :
    textLength (.arr items) =
      6 + (weight (innerTypes (extractItems items)).dedup + weight (arrayStructures (extractItems items))) := by
  let texts := arrayStructure (extractItems items)
  have hweight : weight texts =
      weight (innerTypes (extractItems items)).dedup + weight (arrayStructures (extractItems items)) := by
    rw [← weight_append]
    exact weight_perm ((List.perm_insertionSort _ _).append (List.perm_insertionSort _ _))
  have hne : texts ≠ [] := by
    apply arrayStructure_ne_nil
    rw [extractItems_eq]
    exact fun hnil => h (List.map_eq_nil_iff.mp hnil)
  have hlen := length_intercalate "," rfl id hne
  rw [List.map_id] at hlen
  have htext : serializeAstToString (extractStructuralType (.arr items)) =
      "array[" ++ ",".intercalate texts ++ "]" := by
    rw [extractStructuralType, if_neg h, serializeAstToString, serializeItems_eq, List.map_map]
    congr 3
    exact List.map_id _
  rw [textLength, htext, String.length_append, String.length_append, ← hweight, weight]
  change 6 + _ + 1 = _
  rw [Nat.add_assoc, hlen]
  rfl

theorem textLength_obj {fields : List (String × Json)} (h : fields ≠ []) :
    textLength (.obj fields) = 7 + (fields.map (fun p => p.1.length + 1 + textLength p.2 + 1)).sum := by
  let entries := sortByKey (extractFields fields)
  have hperm : entries.Perm (extractFields fields) := sortByKey_perm _
  have hne : entries ≠ [] := by
    intro hnil
    have hempty := (hnil ▸ hperm).nil_eq
    rw [extractFields_eq] at hempty
    exact h (List.map_eq_nil_iff.mp hempty.symm)
  have hlen := length_intercalate ";" rfl
    (fun p : String × Schema => p.1 ++ ":" ++ serializeAstToString p.2) hne
  have htext : serializeAstToString (extractStructuralType (.obj fields)) =
      "object\x7b" ++ ";".intercalate (entries.map (fun p => p.1 ++ ":" ++ serializeAstToString p.2)) ++
        "\x7d" := by
    rw [extractStructuralType, serializeAstToString, serializeFields_eq, sortByKey_map_snd,
      sortByKey_of_pairwise (sortByKey_pairwise _), List.map_map]
    rfl
  rw [textLength, htext, String.length_append, String.length_append]
  change 7 + _ + 1 = _
  rw [Nat.add_assoc, hlen, (hperm.map _).sum_nat, extractFields_eq, List.map_map]
  congr 2
  apply List.map_congr_left
  intro p _
  rw [Function.comp_apply, String.length_append, String.length_append]
  rfl

end Lengths

theorem isName_extract (v : Json) : isName (extractStructuralType v) = isPrimitive v := by
  cases v with
  | null | bool b | num n | str s => rfl
  | obj fields => rw [extractStructuralType]; rfl
  | arr items =>
    rw [extractStructuralType]
    split <;> rfl

section Growth

theorem innerTypes_append (rs ss : List Schema) : innerTypes (rs ++ ss) = innerTypes rs ++ innerTypes ss :=
  List.filterMap_append

theorem arrayStructures_append (rs ss : List Schema) :
    arrayStructures (rs ++ ss) = arrayStructures rs ++ arrayStructures ss :=
  List.filterMap_append

/-- An element that is no scalar counts among the texts, however often it occurs. -/
theorem singleton_of_not_isPrimitive {v : Json} (h : isPrimitive v = false) :
    innerTypes [extractStructuralType v] = [] ∧
      arrayStructures [extractStructuralType v] = [serializeAstToString (extractStructuralType v)] := by
  have hname := (isName_extract v).trans h
  cases hs : extractStructuralType v with
  | str t =>
    rw [hs] at hname
    cases hname
  | null | bool b | num n | arr items | obj fields => exact ⟨rfl, rfl⟩

/-- The text of an array without one of its elements that is no scalar, and what that one adds. -/
theorem textLength_item (l r : List Json) {v : Json} (h : isPrimitive v = false) :
    textLength (.arr (l ++ v :: r)) =
      6 + (weight (innerTypes (extractItems (l ++ r))).dedup +
        weight (arrayStructures (extractItems (l ++ r)))) + (textLength v + 1) := by
  obtain ⟨hnames, htexts⟩ := singleton_of_not_isPrimitive h
  have hsplit : extractItems (l ++ v :: r) =
      l.map extractStructuralType ++ ([extractStructuralType v] ++ r.map extractStructuralType) := by
    rw [extractItems_eq, List.map_append, List.map_cons]
    rfl
  rw [textLength_arr (by simp), hsplit, extractItems_eq, List.map_append]
  simp only [innerTypes_append, arrayStructures_append, hnames, htexts, List.nil_append, weight_append]
  change 6 + (_ + (_ + (textLength v + 1 + 0 + _))) = _
  omega

theorem textLength_entry (l r : List (String × Json)) (k : String) (v : Json) :
    textLength (.obj (l ++ (k, v) :: r)) =
      7 + ((l ++ r).map (fun p => p.1.length + 1 + textLength p.2 + 1)).sum +
        (k.length + 1 + textLength v + 1) := by
  rw [textLength_obj (by simp)]
  simp only [List.map_append, List.map_cons, List.sum_append, List.sum_cons]
  omega

/-- One more structure makes the texts of all that is around it longer. -/
theorem textLength_lt_of_inside {x v w : Json} (hx : isPrimitive x = false)
    (h : Inside (Appended SameStructure x) v w) :
    isPrimitive v = false ∧ isPrimitive w = false ∧ textLength v < textLength w := by
  induction h with
  | here happended =>
    obtain @⟨items, y, hy, -⟩ := happended
    refine ⟨rfl, rfl, ?_⟩
    have hw := textLength_item items [] hx
    rw [List.append_nil] at hw
    rw [hw, textLength_arr (List.ne_nil_of_mem hy)]
    omega
  | item l r _ ih =>
    obtain ⟨hv, hw, hlt⟩ := ih
    refine ⟨rfl, rfl, ?_⟩
    rw [textLength_item l r hv, textLength_item l r hw]
    omega
  | entry l r k _ ih =>
    refine ⟨rfl, rfl, ?_⟩
    rw [textLength_entry, textLength_entry]
    omega

theorem length_join (texts : List String) : (String.join texts).length = (texts.map String.length).sum := by
  have hfold : ∀ s : String, (texts.foldl (· ++ ·) s).length = s.length + (texts.map String.length).sum := by
    induction texts with
    | nil => exact fun _ => rfl
    | cons t texts ih =>
      intro s
      rw [List.foldl_cons, ih, String.length_append, List.map_cons, List.sum_cons, Nat.add_assoc]
  exact (hfold "").trans (Nat.zero_add _)

theorem length_structuralString {p : Payload} (h : p.fields ≠ []) :
    7 + (structuralString p).length = textLength p.json := by
  rw [structuralString, length_join, List.map_map, ((sortByKey_perm _).map _).sum_nat, extractFields_eq,
    List.map_map, Payload.json, textLength_obj h]
  congr 2
  apply List.map_congr_left
  intro e _
  simp only [Function.comp_apply, String.length_append]
  rfl

theorem structuralString_ne {x : Json} {p q : Payload} (hx : isPrimitive x = false)
    (h : Inside (Appended SameStructure x) p.json q.json) : structuralString p ≠ structuralString q := by
  intro heq
  obtain ⟨-, -, hlt⟩ := textLength_lt_of_inside hx h
  have hfields : p.fields ≠ [] ∧ q.fields ≠ [] := by
    obtain ⟨fs, hfs⟩ := p
    obtain ⟨gs, hgs⟩ := q
    cases h with
    | here happended => cases happended
    | entry l r k _ => exact ⟨by simp, by simp⟩
  rw [← length_structuralString hfields.1, ← length_structuralString hfields.2, heq] at hlt
  exact lt_irrefl _ hlt

end Growth

/-- One more scalar of a type that the array has is a rearrangement. -/
theorem rearranged_of_inside {x v w : Json} (hx : isPrimitive x = true)
    (h : Inside (Appended SameStructure x) v w) : Rearranged v w := by
  induction h with
  | here happended =>
    obtain @⟨items, y, hy, hsame⟩ := happended
    have hpy : isPrimitive y = true := by rw [← isName_extract, ← hsame, isName_extract, hx]
    have htype : primitiveType x = primitiveType y := by
      rw [SameStructure, extract_of_isPrimitive hx, extract_of_isPrimitive hpy, JsonOf.str.injEq] at hsame
      exact hsame
    exact .trans (.again hy hpy hx htype) (.perm (List.perm_append_singleton x items).symm)
  | item l r _ ih => exact .item l r ih
  | entry l r k _ ih => exact .entry l r k ih

/-- The fingerprint does not see one more element of a known structure exactly if it is a scalar. -/
theorem fingerprint_eq_iff_isPrimitive (sha256 : ByteArray → String) (hsha : Function.Injective sha256)
    (p q : Payload) (x : Json) (h : Inside (Appended SameStructure x) p.json q.json) :
    fingerprintSchema sha256 p = fingerprintSchema sha256 q ↔ isPrimitive x = true := by
  constructor
  · intro heq
    by_contra hx
    exact structuralString_ne (Bool.eq_false_iff.mpr hx) h (toUTF8_injective (hsha heq))
  · intro hx
    have hs := structuralString_eq_of_extract ((rearranged_of_inside hx h).extract_eq p.wf)
    rw [fingerprintSchema, hs, fingerprintSchema]

theorem fingerprint_eq_iff_isPrimitive_nested :
    let p : Payload := ⟨[("a", .arr [.obj [("b", .arr [.num (.int 1)])]])], by decide⟩
    let q : Payload := ⟨[("a", .arr [.obj [("b", .arr [.num (.int 1), .num (.int 2)])]])], by decide⟩
    let sha256 := sampleSha256 [("a:array[object\x7bb:array[int]\x7d];",
      "8961d4563b5b10122b6a067e1d714687df67e57e2eb56ebac8ada29ee489beac")]
    fingerprintSchema sha256 p = fingerprintSchema sha256 q ↔ isPrimitive (.num (.int 2)) = true := by
  intro p q sha256
  have hsame : SameStructure (.num (.int 2)) (.num (.int 1)) := rfl
  refine fingerprint_eq_iff_isPrimitive _ (sampleSha256_injective _ (by simp) (by simp)) p q _ ?_
  exact .entry [] [] "a" (.item [] [] (.entry [] [] "b" (.here (.mk List.mem_cons_self hsame))))

/-- A second empty object in an array changes the fingerprint. -/
theorem fingerprint_ne_second_object :
    let p : Payload := ⟨[("a", .arr [.obj []])], by decide⟩
    let q : Payload := ⟨[("a", .arr [.obj [], .obj []])], by decide⟩
    let sha256 := sampleSha256 [
      ("a:array[object\x7b\x7d];", "5b5baa7e447355243dda13defaf73e6888402998d569019d01d2bedf6d885342"),
      ("a:array[object\x7b\x7d,object\x7b\x7d];",
        "ff97b46abf5c6cdf22836ade6f8176b39fb551601c586bbb14ffb5eb0d134904")]
    Function.Injective sha256 ∧ Inside (Appended SameStructure (.obj [])) p.json q.json ∧
      fingerprintSchema sha256 p ≠ fingerprintSchema sha256 q := by
  intro p q sha256
  have hsha : Function.Injective sha256 := sampleSha256_injective _ (by simp) (by simp)
  have hnew : Appended SameStructure (.obj []) (.arr [.obj []]) (.arr ([.obj []] ++ [.obj []])) :=
    .mk List.mem_cons_self rfl
  have hin : Inside (Appended SameStructure (.obj [])) p.json q.json := .entry [] [] "a" (.here hnew)
  exact ⟨hsha, hin, fun heq => structuralString_ne rfl hin (toUTF8_injective (hsha heq))⟩

end SchemaPilot.ElementCounts
