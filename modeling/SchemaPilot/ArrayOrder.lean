import SchemaPilot.NodeSummary
import SchemaPilot.SchemaHash

namespace SchemaPilot.ArrayOrder

open Keyed JsonText Digest SchemaInfer SchemaNotes NodeSummary SchemaHash

/-- One value becomes the other by permuting the elements of arrays, at any depth. -/
inductive Shuffle : Json → Json → Prop
  | refl (v : Json) : Shuffle v v
  | trans {u v w : Json} : Shuffle u v → Shuffle v w → Shuffle u w
  | perm {xs ys : List Json} : xs.Perm ys → Shuffle (.arr xs) (.arr ys)
  | item (l r : List Json) {x y : Json} :
    Shuffle x y → Shuffle (.arr (l ++ x :: r)) (.arr (l ++ y :: r))
  | member (l r : List (String × Json)) (k : String) {v w : Json} :
    Shuffle v w → Shuffle (.obj (l ++ (k, v) :: r)) (.obj (l ++ (k, w) :: r))

/-- What a permutation of array elements or of object keys leaves of the inference. -/
structure Alike (v w : Json) : Prop where
  type : scalarType v = scalarType w
  object : isObject v = isObject w
  keys : (keys (members v)).Perm (keys (members w))
  notes : ∀ path, (notes path v).Perm (notes path w)
  fields : ∀ path, (fieldNotes path (members v)).Perm (fieldNotes path (members w))
  walk : (walkNotes v).Perm (walkNotes w)

theorem relaxNotes_perm (itemPath : String) {xs ys : List Json} (hlen : xs.length = ys.length)
    (h : (xs.flatMap (fun x => keys (members x))).Perm (ys.flatMap (fun x => keys (members x)))) :
    (relaxNotes itemPath xs).Perm (relaxNotes itemPath ys) := by
  have hseen : (keysSeen xs).Perm (keysSeen ys) := by
    refine perm_of_lookup (nodup_keysSeen xs) (nodup_keysSeen ys) fun k => ?_
    rw [lookup_keysSeen, lookup_keysSeen, h.count_eq]
    exact if_congr h.mem_iff rfl rfl
  rw [relaxNotes, relaxNotes, hlen]
  exact (hseen.filter _).map _

theorem itemType_perm {xs ys : List Json} (h : (xs.map scalarType).Perm (ys.map scalarType)) :
    itemType xs = itemType ys := by
  have hd := (h.filter (fun t => decide (t ≠ .null))).dedup
  rw [itemType, itemType]
  generalize ((xs.map scalarType).filter (fun t => decide (t ≠ .null))).dedup = ts at hd ⊢
  generalize ((ys.map scalarType).filter (fun t => decide (t ≠ .null))).dedup = us at hd ⊢
  match ts, us, hd with
  | [], us, hd => rw [List.perm_nil.mp hd.symm]
  | [t], us, hd => rw [List.perm_singleton.mp hd.symm]
  | _ :: _ :: _, [], hd => cases List.perm_nil.mp hd
  | _ :: _ :: _, [u], hd => cases List.perm_singleton.mp hd
  | _ :: _ :: _, _ :: _ :: _, _ => rfl

theorem notes_arr_perm {xs ys : List Json} (hlen : xs.length = ys.length)
    (hobject : xs.all isObject = ys.all isObject)
    (hkeys : (xs.flatMap (fun x => keys (members x))).Perm (ys.flatMap (fun x => keys (members x))))
    (htypes : (xs.map scalarType).Perm (ys.map scalarType))
    (hmembers : ∀ path, (memberNotes path xs).Perm (memberNotes path ys))
    (hitems : ∀ path, (itemNotes path xs).Perm (itemNotes path ys)) (path : String) :
    (notes path (.arr xs)).Perm (notes path (.arr ys)) := by
  have hnil : xs = [] ↔ ys = [] := by rw [← List.length_eq_zero_iff, hlen, List.length_eq_zero_iff]
  rw [notes, notes, ← hobject, itemType_perm htypes]
  apply List.Perm.cons _
  simp only [hnil]
  split_ifs
  · exact List.Perm.refl _
  · exact ((hmembers _).append (relaxNotes_perm _ hlen hkeys)).cons _
  · exact (hitems _).append_right _

theorem Alike.refl (v : Json) : Alike v v :=
  ⟨rfl, rfl, List.Perm.refl _, fun _ => List.Perm.refl _, fun _ => List.Perm.refl _, List.Perm.refl _⟩

theorem Alike.trans {u v w : Json} (h : Alike u v) (h' : Alike v w) : Alike u w :=
  ⟨h.type.trans h'.type, h.object.trans h'.object, h.keys.trans h'.keys,
    fun path => (h.notes path).trans (h'.notes path), fun path => (h.fields path).trans (h'.fields path),
    h.walk.trans h'.walk⟩

theorem alike_arr {xs ys : List Json} (h : ∀ path, (notes path (.arr xs)).Perm (notes path (.arr ys))) :
    Alike (.arr xs) (.arr ys) :=
  ⟨rfl, rfl, List.Perm.refl _, h, fun _ => List.Perm.refl _, h ""⟩

theorem alike_item (l r : List Json) {x y : Json} (h : Alike x y) :
    Alike (.arr (l ++ x :: r)) (.arr (l ++ y :: r)) := by
  refine alike_arr (notes_arr_perm ?_ ?_ ?_ ?_ (fun path => ?_) fun path => ?_)
  · simp
  · simp [h.object]
  · simp only [List.flatMap_append, List.flatMap_cons]
    exact (h.keys.append_right _).append_left _
  · simp only [List.map_append, List.map_cons, h.type]
    exact List.Perm.refl _
  · simp only [memberNotes_eq, List.flatMap_append, List.flatMap_cons]
    exact ((h.fields path).append_right _).append_left _
  · simp only [itemNotes_eq, List.flatMap_append, List.flatMap_cons]
    exact ((h.notes path).append_right _).append_left _

theorem alike_obj {fs gs : List (String × Json)} (hkeys : (keys fs).Perm (keys gs))
    (h : ∀ parent, (fieldNotes parent fs).Perm (fieldNotes parent gs)) : Alike (.obj fs) (.obj gs) := by
  refine ⟨rfl, rfl, hkeys, fun path => ?_, h, h ""⟩
  rw [notes, notes]
  exact ((h path).append_left _).cons _

theorem alike_entry (l r : List (String × Json)) (k : String) {v w : Json} (h : Alike v w) :
    Alike (.obj (l ++ (k, v) :: r)) (.obj (l ++ (k, w) :: r)) := by
  apply alike_obj
  · simp only [keys, List.map_append, List.map_cons]
    exact List.Perm.refl _
  · intro parent
    simp only [fieldNotes_eq, List.flatMap_append, List.flatMap_cons]
    exact ((h.notes _).append_right _).append_left _

theorem alike_of_shuffle {v w : Json} (h : Shuffle v w) : Alike v w := by
  induction h with
  | refl v => exact Alike.refl v
  | trans _ _ ih ih' => exact ih.trans ih'
  | @perm xs ys hp =>
    refine alike_arr (notes_arr_perm hp.length_eq ?_ (hp.flatMap_right _) (hp.map _) (fun path => ?_)
      fun path => ?_)
    · rw [Bool.eq_iff_iff, List.all_eq_true, List.all_eq_true]
      exact forall_congr' fun x => imp_congr_left hp.mem_iff
    · rw [memberNotes_eq, memberNotes_eq]
      exact hp.flatMap_right _
    · rw [itemNotes_eq, itemNotes_eq]
      exact hp.flatMap_right _
  | item l r _ ih => exact alike_item l r ih
  | member l r k _ ih => exact alike_entry l r k ih

/-- A path has one type in both orders of its notes: they begin with values of one kind, or
scalars of two types stand there, or one does and both begin with an object or an array. -/
def SameOpening (ns ms : List Note) : Prop :=
  opening ns = opening ms ∨ (∃ t ∈ scalarTypes ns, ∃ u ∈ scalarTypes ns, t ≠ u) ∨
    (scalarTypes ns ≠ [] ∧ (opening ns).isSome ∧ (opening ms).isSome)

/-- The order of the notes does not show in the node. -/
def SameOrder (ns ms : List Note) : Prop :=
  SameOpening ns ms ∧ (itemTypes ns).getLast? = (itemTypes ms).getLast?

theorem merged_perm {ts us : List JsonType} (h : ts.Perm us) : merged ts = merged us := by
  cases ts with
  | nil => rw [List.perm_nil.mp h.symm]
  | cons t ts =>
    by_cases hall : ∀ u ∈ t :: ts, u = t
    · rw [merged_of_all List.mem_cons_self hall]
      exact (merged_of_all (h.mem_iff.mp List.mem_cons_self) fun u hu => hall u (h.mem_iff.mpr hu)).symm
    · simp only [not_forall] at hall
      obtain ⟨u, hu, hne⟩ := hall
      rw [merged_of_ne hu List.mem_cons_self hne,
        merged_of_ne (h.mem_iff.mp hu) (h.mem_iff.mp List.mem_cons_self) hne]

theorem merged_eq_mixed_iff {ts : List JsonType} (hts : ∀ t ∈ ts, t ≠ .mixed) :
    merged ts = .mixed ↔ ∃ t ∈ ts, ∃ u ∈ ts, t ≠ u := by
  constructor
  · intro hm
    by_contra hall
    push Not at hall
    cases ts with
    | nil => cases hm
    | cons t ts =>
      rw [merged_of_all List.mem_cons_self fun u hu => hall u hu t List.mem_cons_self] at hm
      exact hts t List.mem_cons_self hm
  · rintro ⟨t, ht, u, hu, hne⟩
    exact merged_of_ne ht hu hne

theorem opening_proper {ns : List Note} (h : ∀ n ∈ ns, n.Proper) {t : JsonType} (ht : opening ns = some t) :
    t ≠ .null ∧ t ≠ .mixed := by
  cases ns with
  | nil => cases ht
  | cons n ns =>
    cases n with
    | container u =>
      obtain rfl := Option.some.inj ht
      have hc : u = .object ∨ u = .array := h _ List.mem_cons_self
      obtain rfl | rfl := hc <;> exact ⟨nofun, nofun⟩
    | null | scalar v | items u | optional => cases ht

/-- Where one order begins with a container and the other does not, the types agree only if
both are mixed. -/
theorem container_eq_merged_iff {ts : List JsonType} {t : JsonType} (ht : t ≠ .null)
    (hts : ∀ u ∈ ts, u ≠ .mixed) :
    (if ts = [] then t else .mixed) = merged ts ↔ ∃ u ∈ ts, ∃ w ∈ ts, u ≠ w := by
  split
  · next h =>
    subst h
    exact ⟨fun he => absurd he ht, fun ⟨u, hu, _⟩ => absurd hu List.not_mem_nil⟩
  · rw [eq_comm]
    exact merged_eq_mixed_iff hts

theorem typeOf_eq_iff {ns ms : List Note} (hp : ns.Perm ms) (hproper : ∀ n ∈ ns, n.Proper) :
    typeOf ns = typeOf ms ↔ SameOpening ns ms := by
  have hs : (scalarTypes ns).Perm (scalarTypes ms) := hp.filterMap _
  have hmixed : ∀ t ∈ scalarTypes ns, t ≠ .mixed := fun t ht => (proper_scalarTypes hproper ht).2.1
  have hnil : scalarTypes ms = [] ↔ scalarTypes ns = [] :=
    ⟨fun h => List.perm_nil.mp (h ▸ hs), fun h => List.perm_nil.mp (h ▸ hs.symm)⟩
  have hproper' : ∀ n ∈ ms, n.Proper := fun n hn => hproper n (hp.mem_iff.mpr hn)
  rw [typeOf, typeOf, SameOpening, ← merged_perm hs]
  simp only [hnil]
  cases ho : opening ns with
  | some t =>
    cases ho' : opening ms with
    | some u =>
      by_cases he : scalarTypes ns = []
      · simp [he]
      · simp [he]
    | none => simpa using container_eq_merged_iff (opening_proper hproper ho).1 hmixed
  | none =>
    cases ho' : opening ms with
    | some u =>
      have hc := container_eq_merged_iff (opening_proper hproper' ho').1 hmixed
      rw [eq_comm] at hc
      simpa using hc
    | none => simp

theorem enumOf_perm {vs ws : List String} (h : vs.Perm ws) : enumOf vs = enumOf ws := by
  have hnil : vs = [] ↔ ws = [] := by
    rw [← List.length_eq_zero_iff, h.length_eq, List.length_eq_zero_iff]
  rw [enumOf, enumOf, h.dedup.length_eq, sortedStrings_perm h.dedup]
  simp only [hnil]

theorem hashedFields_eq_iff {path : String} {ns ms : List Note} {s t : NodeState}
    (hp : ns.Perm ms) (hproper : ∀ n ∈ ns, n.Proper) (hs : Summary path ns s) (ht : Summary path ms t) :
    hashedFields (finalize s) = hashedFields (finalize t) ↔ SameOrder ns ms := by
  have hrequired : s.required = t.required := by
    rw [← Bool.not_inj_iff, Bool.eq_iff_iff]
    simpa only [Bool.not_eq_true'] using hs.required.trans (hp.mem_iff.trans ht.required.symm)
  have hnullable : s.nullable = t.nullable := by
    rw [Bool.eq_iff_iff]
    exact hs.nullable.trans (hp.mem_iff.trans ht.nullable.symm)
  have henum : (finalize s).enumValues = (finalize t).enumValues := by
    rw [enumValues_finalize hs.enum, enumValues_finalize ht.enum]
    exact enumOf_perm (hp.filterMap _)
  have htext : Function.Injective JsonType.text := fun _ _ => text_injective
  rw [SameOrder, ← typeOf_eq_iff hp hproper, ← hs.type, ← ht.type,
    ← (Option.map_injective htext).eq_iff, ← hs.item, ← ht.item]
  simp only [hashedFields, Prod.mk.injEq, henum, and_true]
  simp only [finalize, hs.path, ht.path, hrequired, hnullable, true_and]

theorem lookup_byPath_walk (data : Json) (path : String) :
    (byPath (inferSchema data)).lookup path = ((walk data []).lookup path).map finalize := by
  obtain ⟨hn, ht⟩ := tidy_walk data
  ext n
  rw [lookup_byPath_eq_some_iff (nodup_inferSchema data), Option.map_eq_some_iff]
  constructor
  · rintro ⟨hm, rfl⟩
    obtain ⟨⟨q, s⟩, hp, rfl⟩ := mem_inferSchema hm
    refine ⟨s, (lookup_eq_some_iff_mem hn).mpr ?_, rfl⟩
    have hq : s.path = q := (ht _ hp).1
    exact hq ▸ hp
  · rintro ⟨s, hs, rfl⟩
    have hp := mem_of_lookup hs
    refine ⟨?_, (ht _ hp).1⟩
    exact (List.perm_insertionSort _ _).mem_iff.mpr (List.mem_map.mpr ⟨_, hp, rfl⟩)

/-- The hash is blind to an order of array elements exactly when no path shows that order, in
the kind of the value it begins with or in the item type of its last array. -/
theorem hash_eq_iff_sameOrder (sha256 : ByteArray → String) (hsha : Function.Injective sha256)
    (v w : Json) (h : Shuffle v w) :
    stableSchemaHash sha256 (inferSchema v) = stableSchemaHash sha256 (inferSchema w) ↔
      ∀ path, SameOrder (notesAt path (walkNotes v)) (notesAt path (walkNotes w)) := by
  rw [stableSchemaHash_eq_iff hsha (nodup_inferSchema v) (nodup_inferSchema w)]
  refine forall_congr' fun path => ?_
  have hp : (notesAt path (walkNotes v)).Perm (notesAt path (walkNotes w)) :=
    (alike_of_shuffle h).walk.filterMap _
  have hproper : ∀ n ∈ notesAt path (walkNotes v), n.Proper := fun n hn =>
    proper_walkNotes v (path, n) (mem_notesAt.mp hn)
  rw [lookup_byPath_walk, lookup_byPath_walk]
  by_cases hv : notesAt path (walkNotes v) = []
  · have hw : notesAt path (walkNotes w) = [] := List.perm_nil.mp (hv ▸ hp.symm)
    rw [(lookup_walk v path).1 hv, (lookup_walk w path).1 hw, hv, hw]
    exact ⟨fun _ => ⟨.inl rfl, rfl⟩, fun _ => rfl⟩
  · have hw : notesAt path (walkNotes w) ≠ [] := fun hw => hv (List.perm_nil.mp (hw ▸ hp))
    obtain ⟨s, hlv, hs⟩ := (lookup_walk v path).2 hv
    obtain ⟨t, hlw, ht⟩ := (lookup_walk w path).2 hw
    rw [hlv, hlw, Option.map_some, Option.map_some, Option.map_some, Option.map_some,
      Option.some.injEq, structuralProjection_eq_iff_hashedFields]
    exact hashedFields_eq_iff hp hproper hs ht

theorem hash_eq_iff_sameOrder_mixed :
    let v : Json := .obj [("a", .arr [.num (.int 1), .str "x"])]
    let w : Json := .obj [("a", .arr [.str "x", .num (.int 1)])]
    let sha256 := sampleSha256 [(dumpsSorted (.arr (projection (inferSchema v))),
      "f40d1cd57cc242d70e2735fa308301f0117ce5dd8c368bd89479ab13753d5108")]
    stableSchemaHash sha256 (inferSchema v) = stableSchemaHash sha256 (inferSchema w) ↔
      ∀ path, SameOrder (notesAt path (walkNotes v)) (notesAt path (walkNotes w)) :=
  hash_eq_iff_sameOrder _ (sampleSha256_injective _ (by simp) (by simp)) _ _
    (.member [] [] "a" (.perm (List.Perm.swap _ _ _)))

/-- An integer before an object hides it, an integer after an object is mixed with it. -/
theorem hash_ne_object_first :
    let v : Json := .obj [("a", .arr [.num (.int 1), .obj []])]
    let w : Json := .obj [("a", .arr [.obj [], .num (.int 1)])]
    let sha256 := sampleSha256 [
      (dumpsSorted (.arr (projection (inferSchema v))),
        "3684d041e7bde1a0530e6cc5aa4b7e451c49f51d425ad28ac76f1ccad26f2037"),
      (dumpsSorted (.arr (projection (inferSchema w))),
        "47e1400247159db0771e18aeaa3c0ee51523af23a78e09c3d60633a7e082d7a4")]
    Shuffle v w ∧
      stableSchemaHash sha256 (inferSchema v) ≠ stableSchemaHash sha256 (inferSchema w) := by
  intro v w sha256
  have hsha : Function.Injective sha256 := sampleSha256_injective _ (by simp) (by simp)
  refine ⟨.member [] [] "a" (.perm (List.Perm.swap _ _ _)), fun h => ?_⟩
  have hs := (stableSchemaHash_eq_iff hsha (nodup_inferSchema v) (nodup_inferSchema w)).mp h "a[*]"
  revert hs
  decide

end SchemaPilot.ArrayOrder
