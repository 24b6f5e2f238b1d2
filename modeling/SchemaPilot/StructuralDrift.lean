import SchemaPilot.StructuralPaths

namespace SchemaPilot.StructuralDrift

open Keyed Digest PayloadPaths StructuralType StructuralOrder StructuralText StructuralPaths Engine

def isPrimitive : Json → Bool
  | .arr _ | .obj _ => false
  | .null | .bool _ | .num _ | .str _ => true

/-- One value becomes the other by permuting the elements of arrays and by adding or dropping
elements of a primitive type that another element of the array has, at any depth. -/
inductive Rearranged : Json → Json → Prop
  | refl (v : Json) : Rearranged v v
  | symm {v w : Json} : Rearranged v w → Rearranged w v
  | trans {u v w : Json} : Rearranged u v → Rearranged v w → Rearranged u w
  | perm {xs ys : List Json} : xs.Perm ys → Rearranged (.arr xs) (.arr ys)
  | again {xs : List Json} {x y : Json} : x ∈ xs → isPrimitive x → isPrimitive y →
    primitiveType y = primitiveType x → Rearranged (.arr xs) (.arr (y :: xs))
  | item (l r : List Json) {x y : Json} :
    Rearranged x y → Rearranged (.arr (l ++ x :: r)) (.arr (l ++ y :: r))
  | entry (l r : List (String × Json)) (k : String) {v w : Json} :
    Rearranged v w → Rearranged (.obj (l ++ (k, v) :: r)) (.obj (l ++ (k, w) :: r))

/-- A property of values that every element and every member must have, and the keys together. -/
theorem Rearranged.iff_of {P : Json → Prop} {Q : List String → Prop}
    (hprim : ∀ x, isPrimitive x → P x) (harr : ∀ xs, P (.arr xs) ↔ ∀ x ∈ xs, P x)
    (hobj : ∀ fs, P (.obj fs) ↔ Q (keys fs) ∧ ∀ p ∈ fs, P p.2) {v w : Json} (h : Rearranged v w) :
    P v ↔ P w := by
  induction h with
  | refl v => exact Iff.rfl
  | symm _ ih => exact ih.symm
  | trans _ _ ih ih' => exact ih.trans ih'
  | perm hp =>
    rw [harr, harr]
    exact forall_congr' fun x => imp_congr_left hp.mem_iff
  | again _ _ hy _ =>
    rw [harr, harr, List.forall_mem_cons]
    exact ⟨fun h => ⟨hprim _ hy, h⟩, fun h => h.2⟩
  | item l r _ ih => simp only [harr, List.forall_mem_append, List.forall_mem_cons, ih]
  | entry l r k _ ih =>
    simp only [hobj, List.forall_mem_append, List.forall_mem_cons, ih, keys, List.map_append, List.map_cons]

theorem Rearranged.wf_iff {v w : Json} (h : Rearranged v w) : v.wf ↔ w.wf := by
  refine h.iff_of (P := fun v => v.wf) (Q := List.Nodup) (fun x hx => ?_) JsonOf.wf_arr_iff JsonOf.wf_obj_iff
  cases x with
  | null | bool b | num n | str s => rfl
  | arr items | obj fields => cases hx

theorem Rearranged.keysAll_iff (ok : String → Bool) {v w : Json} (h : Rearranged v w) :
    keysAll ok v ↔ keysAll ok w := by
  refine h.iff_of (P := fun v => keysAll ok v) (Q := fun ks => ∀ k ∈ ks, ok k) (fun x hx => ?_)
    (keysAll_arr_iff ok) fun fs => ?_
  · cases x with
    | null | bool b | num n | str s => rfl
    | arr items | obj fields => cases hx
  · rw [keysAll_obj_iff, List.forall_mem_map, ← forall₂_and]

theorem Rearranged.full_iff {v w : Json} (h : Rearranged v w) : full v ↔ full w := by
  refine h.iff_of (P := fun v => full v) (Q := fun ks => ks ≠ []) (fun x hx => ?_) full_arr_iff fun fs => ?_
  · cases x with
    | null | bool b | num n | str s => rfl
    | arr items | obj fields => cases hx
  · rw [full_obj_iff, filled_obj_iff, ne_eq, ne_eq, List.map_eq_nil_iff]

theorem Rearranged.filled_iff {v w : Json} (h : Rearranged v w) : filled v ↔ filled w := by
  induction h with
  | refl v => exact Iff.rfl
  | symm _ ih => exact ih.symm
  | trans _ _ ih ih' => exact ih.trans ih'
  | perm hp => exact (Rearranged.perm hp).full_iff
  | again hx hp hy ht => exact (Rearranged.again hx hp hy ht).full_iff
  | item l r h _ => exact (Rearranged.item l r h).full_iff
  | entry l r k h _ =>
    simp only [filled_obj_iff, List.forall_mem_append, List.forall_mem_cons, h.full_iff]

theorem extract_of_isPrimitive {x : Json} (h : isPrimitive x) :
    extractStructuralType x = .str (primitiveType x) := by
  cases x with
  | null | bool b | num n | str s => rfl
  | arr items | obj fields => cases h

/-- A rearranged value has the structure it had. -/
theorem Rearranged.extract_eq {v w : Json} (h : Rearranged v w) (hv : v.wf) :
    extractStructuralType v = extractStructuralType w := by
  induction h with
  | refl v => rfl
  | symm h ih => exact (ih (h.wf_iff.mpr hv)).symm
  | trans h _ ih ih' => exact (ih hv).trans (ih' (h.wf_iff.mp hv))
  | perm hp => exact extract_eq_of_reordered (.items hp) hv
  | @again xs x y hx hpx hpy ht =>
    apply extract_arr_congr
    · exact ⟨fun h => absurd hx (h ▸ List.not_mem_nil), fun h => by cases h⟩
    · rw [extractItems_eq, extractItems_eq, List.map_cons, extract_of_isPrimitive hpy, ht]
      have hmem : .str (primitiveType x) ∈ xs.map extractStructuralType :=
        List.mem_map.mpr ⟨x, hx, extract_of_isPrimitive hpx⟩
      apply arrayStructure_congr
      · intro t
        rw [List.mem_cons]
        exact ⟨.inr, fun h => h.elim (fun he => he ▸ hmem) id⟩
      · exact List.Perm.refl _
  | item l r h ih =>
    have hx := (JsonOf.wf_arr_iff _).mp hv _ List.mem_append_cons_self
    rw [extractStructuralType, extractStructuralType]
    simp only [extractItems_eq, List.map_append, List.map_cons, ih hx]
    simp
  | entry l r k h ih =>
    have hx := ((JsonOf.wf_obj_iff _).mp hv).2 _ List.mem_append_cons_self
    rw [extractStructuralType, extractStructuralType]
    simp only [extractFields_eq, List.map_append, List.map_cons, ih hx]

theorem rearranged_items {xs ys : List Json} (h : List.Forall₂ Rearranged xs ys) (l : List Json) :
    Rearranged (.arr (l ++ xs)) (.arr (l ++ ys)) := by
  induction h generalizing l with
  | nil => exact .refl _
  | @cons x y xs ys hx _ ih =>
    have hrest := ih (l ++ [y])
    rw [List.append_assoc, List.append_assoc] at hrest
    exact .trans (.item l xs hx) hrest

theorem rearranged_entries {fs gs : List (String × Json)}
    (h : List.Forall₂ (fun p q => p.1 = q.1 ∧ Rearranged p.2 q.2) fs gs) (l : List (String × Json)) :
    Rearranged (.obj (l ++ fs)) (.obj (l ++ gs)) := by
  induction h generalizing l with
  | nil => exact .refl _
  | @cons p q fs gs hp _ ih =>
    obtain ⟨k, v⟩ := p
    obtain ⟨j, w⟩ := q
    obtain ⟨rfl, hv⟩ := hp
    have hrest := ih (l ++ [(k, w)])
    rw [List.append_assoc, List.append_assoc] at hrest
    exact .trans (.entry l fs k hv) hrest

/-- Elements whose primitive types the array has may be added all at once. -/
theorem rearranged_more {zs qs : List Json}
    (h : ∀ q ∈ qs, isPrimitive q ∧ ∃ x ∈ zs, isPrimitive x ∧ primitiveType q = primitiveType x) :
    Rearranged (.arr zs) (.arr (qs ++ zs)) := by
  induction qs with
  | nil => exact .refl _
  | cons q qs ih =>
    obtain ⟨⟨hq, x, hx, hpx, ht⟩, hqs⟩ := List.forall_mem_cons.mp h
    exact .trans (ih hqs) (.again (List.mem_append_right _ hx) hpx hq ht)

/-- Primitive elements may be exchanged for others of the same types. -/
theorem rearranged_primitives {ps qs zs : List Json} (hp : ∀ p ∈ ps, isPrimitive p)
    (hq : ∀ q ∈ qs, isPrimitive q) (h : ∀ t, t ∈ ps.map primitiveType ↔ t ∈ qs.map primitiveType) :
    Rearranged (.arr (ps ++ zs)) (.arr (qs ++ zs)) := by
  have hmore : ∀ {as bs : List Json}, (∀ a ∈ as, isPrimitive a) → (∀ b ∈ bs, isPrimitive b) →
      (∀ t, t ∈ bs.map primitiveType → t ∈ as.map primitiveType) →
      Rearranged (.arr (as ++ zs)) (.arr (bs ++ (as ++ zs))) := by
    intro as bs has hbs hsub
    apply rearranged_more
    intro b hb
    obtain ⟨a, ha, ht⟩ := List.mem_map.mp (hsub _ (List.mem_map_of_mem hb))
    exact ⟨hbs b hb, a, List.mem_append_left _ ha, has a ha, ht.symm⟩
  have hswap : (qs ++ (ps ++ zs)).Perm (ps ++ (qs ++ zs)) := by
    rw [← List.append_assoc, ← List.append_assoc]
    exact List.perm_append_comm.append_right zs
  exact .trans (hmore hp hq fun t => (h t).mpr)
    (.trans (.perm hswap) (.symm (hmore hq hp fun t => (h t).mp)))

/-- Lists whose images are permutations of each other can be put in the same order. -/
theorem exists_perm_map_eq {α β γ : Type} {f : α → γ} {g : β → γ} {xs : List α} {ys : List β}
    (h : (xs.map f).Perm (ys.map g)) : ∃ zs, xs.Perm zs ∧ zs.map f = ys.map g := by
  have hc : Relation.Comp (fun l zs => l = zs.map f) List.Perm (ys.map g) xs := by
    rw [List.eq_map_comp_perm]
    exact h.symm
  obtain ⟨zs, he, hp⟩ := hc
  exact ⟨zs, hp.symm, he.symm⟩

theorem exists_forall₂ {α β : Type} {R : α → β → Prop} {xs : List α} (h : ∀ x ∈ xs, ∃ y, R x y) :
    ∃ ys, List.Forall₂ R xs ys := by
  induction xs with
  | nil => exact ⟨[], .nil⟩
  | cons x xs ih =>
    obtain ⟨⟨y, hy⟩, hxs⟩ := List.forall_mem_cons.mp h
    obtain ⟨ys, hys⟩ := ih hxs
    exact ⟨y :: ys, .cons hy hys⟩

abbrev tree (v : Json) : Schema := arrange (normalizeTypes v)

theorem tree_eq_str_iff (v : Json) (t : String) :
    tree v = .str t ↔ isPrimitive v ∧ primitiveType v = t := by
  cases v with
  | null | bool b | num n | str s =>
    simp [tree, normalizeTypes, arrange, isPrimitive]
  | arr items | obj fields => simp [tree, normalizeTypes, arrange, isPrimitive]

theorem isName_tree (v : Json) : isName (tree v) = isPrimitive v := by
  cases v <;> rfl

/-- Arrays with one sorted list of elements have the same primitive types and, up to their
order, the same other elements. -/
theorem elements_of_sortedItems {xs ys : List Json}
    (h : sortedItems (xs.map tree) = sortedItems (ys.map tree)) :
    (∀ t, t ∈ (xs.filter isPrimitive).map primitiveType ↔ t ∈ (ys.filter isPrimitive).map primitiveType) ∧
      ((xs.filter (fun v => !isPrimitive v)).map tree).Perm
        ((ys.filter (fun v => !isPrimitive v)).map tree) := by
  have hname : ∀ (zs : List Json) (t : String),
      t ∈ (zs.filter isPrimitive).map primitiveType ↔ .str t ∈ sortedItems (zs.map tree) := by
    intro zs t
    rw [mem_sortedItems, List.mem_map, List.mem_map]
    simp only [tree_eq_str_iff, List.mem_filter, and_assoc]
  have hrest : ∀ zs : List Json, ((sortedItems (zs.map tree)).filter (fun s => !isName s)).Perm
      ((zs.filter (fun v => !isPrimitive v)).map tree) := by
    intro zs
    have hno : ∀ ts : List String, (ts.map (JsonOf.str : String → Schema)).filter (fun s => !isName s) = [] := by
      intro ts
      rw [List.filter_eq_nil_iff, List.forall_mem_map]
      intro t _
      simp [isName]
    have hp := (List.perm_insertionSort (fun s t => text s ≤ text t)
      ((zs.map tree).filter (fun s => !isName s))).filter (fun s => !isName s)
    rw [List.filter_filter] at hp
    rw [sortedItems, List.filter_append, hno, List.nil_append]
    refine hp.trans (List.Perm.of_eq ?_)
    rw [List.filter_map]
    congr 1
    apply List.filter_congr
    intro v _
    simp [isName_tree]
  constructor
  · intro t
    rw [hname, hname, h]
  · exact (hrest xs).symm.trans (h ▸ hrest ys)

theorem filter_perm (xs : List Json) :
    xs.Perm (xs.filter isPrimitive ++ xs.filter (fun v => !isPrimitive v)) :=
  (List.filter_append_perm isPrimitive xs).symm

theorem exists_matched {ss ts : List Json} (h : ss.map tree = ts.map tree)
    (hx : ∀ x ∈ ss, ∀ y ∈ ts, tree x = tree y → ∃ x', Rearranged x x' ∧ normalizeTypes x' = normalizeTypes y) :
    ∃ us, List.Forall₂ Rearranged ss us ∧ us.map normalizeTypes = ts.map normalizeTypes := by
  induction ss generalizing ts with
  | nil =>
    obtain rfl := List.map_eq_nil_iff.mp h.symm
    exact ⟨[], .nil, rfl⟩
  | cons x ss ih =>
    obtain _ | ⟨y, ts⟩ := ts
    · cases h
    obtain ⟨hxy, hrest⟩ := List.cons.inj h
    obtain ⟨x', hr, hn⟩ := hx x List.mem_cons_self y List.mem_cons_self hxy
    obtain ⟨us, hus, hmap⟩ := ih hrest fun a ha b hb =>
      hx a (List.mem_cons_of_mem _ ha) b (List.mem_cons_of_mem _ hb)
    exact ⟨x' :: us, .cons hr hus, by rw [List.map_cons, List.map_cons, hn, hmap]⟩

theorem exists_rearranged_arr {xs ys : List Json} (h : sortedItems (xs.map tree) = sortedItems (ys.map tree))
    (hx : ∀ x ∈ xs, ∀ y ∈ ys, tree x = tree y → ∃ x', Rearranged x x' ∧ normalizeTypes x' = normalizeTypes y) :
    ∃ v', Rearranged (.arr xs) v' ∧ normalizeTypes v' = normalizeTypes (.arr ys) := by
  obtain ⟨hnames, hperm⟩ := elements_of_sortedItems h
  obtain ⟨ss, hss, htree⟩ := exists_perm_map_eq hperm
  obtain ⟨us, hus, hnorm⟩ := exists_matched htree fun a ha b hb =>
    hx a (List.mem_of_mem_filter (hss.mem_iff.mpr ha)) b (List.mem_of_mem_filter hb)
  have hall : ((ys.filter isPrimitive ++ us).map normalizeTypes).Perm (ys.map normalizeTypes) := by
    rw [List.map_append, hnorm, ← List.map_append]
    exact (filter_perm ys).symm.map _
  obtain ⟨zs, hzs, hz⟩ := exists_perm_map_eq hall
  refine ⟨.arr zs, ?_, by rw [normalizeTypes, normalizeTypes, normalizeItems_eq, normalizeItems_eq, hz]⟩
  -- primitives first, then exchanged for those of the other array, then the rest put in order
  -- and rearranged one by one
  have hexchange : Rearranged (.arr (xs.filter isPrimitive ++ xs.filter (fun v => !isPrimitive v)))
      (.arr (ys.filter isPrimitive ++ xs.filter (fun v => !isPrimitive v))) :=
    rearranged_primitives (fun p hp => (List.mem_filter.mp hp).2)
      (fun q hq => (List.mem_filter.mp hq).2) hnames
  exact .trans (.perm (filter_perm xs)) (.trans hexchange (.trans (.perm (hss.append_left _))
    (.trans (rearranged_items hus _) (.perm hzs))))

/-- The member of the one object under a key has the types of the other's member. -/
def Matches (gs : List (String × Json)) (p q : String × Json) : Prop :=
  p.1 = q.1 ∧ Rearranged p.2 q.2 ∧ (gs.lookup p.1).map normalizeTypes = some (normalizeTypes q.2)

theorem lookup_matches {fs gs es : List (String × Json)} (h : List.Forall₂ (Matches gs) fs es) (k : String) :
    (es.lookup k).map normalizeTypes = if k ∈ keys fs then (gs.lookup k).map normalizeTypes else none := by
  induction h with
  | nil => rfl
  | @cons p q fs es hp _ ih =>
    obtain ⟨j, v⟩ := p
    obtain ⟨j', w⟩ := q
    obtain ⟨rfl, -, hl⟩ := hp
    rw [lookup_cons_ite]
    by_cases hk : k = j
    · subst hk
      have hm : k ∈ keys ((k, v) :: fs) := List.mem_cons_self
      rw [if_pos rfl, if_pos hm]
      exact hl.symm
    · have hm : k ∈ keys ((j, v) :: fs) ↔ k ∈ keys fs := by
        rw [keys, List.map_cons, List.mem_cons, or_iff_right hk]
      rw [if_neg hk, ih]
      simp only [hm]

theorem exists_rearranged_obj {fs gs : List (String × Json)} (hf : (keys fs).Nodup) (hg : (keys gs).Nodup)
    (h : ∀ k, (fs.lookup k).map tree = (gs.lookup k).map tree)
    (hx : ∀ p ∈ fs, ∀ w, gs.lookup p.1 = some w → tree p.2 = tree w →
      ∃ v', Rearranged p.2 v' ∧ normalizeTypes v' = normalizeTypes w) :
    ∃ v', Rearranged (.obj fs) v' ∧ normalizeTypes v' = normalizeTypes (.obj gs) := by
  have hmatch : ∀ p ∈ fs, ∃ q, Matches gs p q := by
    intro p hp
    have hk := h p.1
    rw [(lookup_eq_some_iff_mem hf).mpr hp, Option.map_some] at hk
    obtain ⟨w, hw, ht⟩ := Option.map_eq_some_iff.mp hk.symm
    obtain ⟨v', hr, hn⟩ := hx p hp w hw ht.symm
    exact ⟨(p.1, v'), rfl, hr, by rw [hw, Option.map_some, hn]⟩
  obtain ⟨es, hes⟩ := exists_forall₂ hmatch
  have hkeys : keys es = keys fs := by
    clear hmatch hx h
    induction hes with
    | nil => rfl
    | @cons p q fs es hp _ ih =>
      change q.1 :: keys es = p.1 :: keys fs
      rw [hp.1, ih hf.of_cons]
  refine ⟨.obj es, rearranged_entries (hes.imp fun _ _ hm => ⟨hm.1, hm.2.1⟩) [], ?_⟩
  rw [normalizeTypes, normalizeTypes, JsonOf.obj.injEq, normalizeFields_eq, normalizeFields_eq, sortByKey_eq_iff
    (by rwa [Canonical.keys_map_snd, hkeys]) (by rwa [Canonical.keys_map_snd])]
  intro k
  rw [lookup_map_snd, lookup_map_snd, lookup_matches hes]
  by_cases hk : k ∈ keys fs
  · rw [if_pos hk]
  · have hnone := h k
    rw [(lookup_eq_none_iff_not_mem fs k).mpr hk] at hnone
    rw [if_neg hk, Option.map_eq_none_iff.mp hnone.symm]
    rfl

theorem exists_rearranged_primitive {v w : Json} (hv : isPrimitive v) (h : tree v = tree w) :
    ∃ v', Rearranged v v' ∧ normalizeTypes v' = normalizeTypes w := by
  have hnorm : ∀ u : Json, isPrimitive u → normalizeTypes u = .str (primitiveType u) := by
    intro u hu
    cases u with
    | null | bool b | num n | str s => rfl
    | arr items | obj fields => cases hu
  have ht := (tree_eq_str_iff v _).mpr ⟨hv, rfl⟩
  obtain ⟨hw, hname⟩ := (tree_eq_str_iff w (primitiveType v)).mp (h ▸ ht)
  exact ⟨v, .refl v, by rw [hnorm v hv, hnorm w hw, hname]⟩

/-- A value with the structure of another can be rearranged until it has its types, element by
element. -/
theorem exists_rearranged {v w : Json} (hv : v.wf) (hw : w.wf) (h : tree v = tree w) :
    ∃ v', Rearranged v v' ∧ normalizeTypes v' = normalizeTypes w := by
  induction v using JsonOf.induct generalizing w with
  | null => exact exists_rearranged_primitive rfl h
  | bool b => exact exists_rearranged_primitive rfl h
  | num n => exact exists_rearranged_primitive rfl h
  | str s => exact exists_rearranged_primitive rfl h
  | arr xs ih =>
    cases w with
    | null | bool b | num n | str s | obj fields => simp [tree, normalizeTypes, arrange] at h
    | arr ys =>
      have hxs := (JsonOf.wf_arr_iff xs).mp hv
      have hys := (JsonOf.wf_arr_iff ys).mp hw
      simp only [tree, normalizeTypes, arrange, arrangeItems_eq, normalizeItems_eq, List.map_map,
        JsonOf.arr.injEq] at h
      exact exists_rearranged_arr h fun x hx y hy => ih x hx (hxs x hx) (hys y hy)
  | obj fs ih =>
    cases w with
    | null | bool b | num n | str s | arr items => simp [tree, normalizeTypes, arrange] at h
    | obj gs =>
      obtain ⟨hf, hfs⟩ := (JsonOf.wf_obj_iff fs).mp hv
      obtain ⟨hg, hgs⟩ := (JsonOf.wf_obj_iff gs).mp hw
      rw [tree, tree, rootTrees_eq, rootTrees_eq, JsonOf.obj.injEq] at h
      apply exists_rearranged_obj hf hg
      · intro k
        have hk := congrArg (List.lookup k) h
        rwa [lookup_rootTrees hf, lookup_rootTrees hg] at hk
      · intro p hp w hl ht
        exact ih p hp (hfs p hp) (hgs _ (mem_of_lookup hl)) ht

/-- A payload whose keys are neither pieces of path text nor of the structural string, and in
which no member or element is the empty object. -/
structure Unmarked (p : Payload) : Prop where
  readable : ReadableRoot p.fields
  paths : keysAll pathKey p.json
  filled : filled p.json

/-- The fingerprints are equal exactly when the difference is empty after the arrays of the one
payload have been rearranged. -/
theorem fingerprint_eq_iff_structuralDiff (sha256 : ByteArray → String) (hsha : Function.Injective sha256)
    (p q : Payload) (hp : Unmarked p) (hq : Unmarked q) :
    fingerprintSchema sha256 p = fingerprintSchema sha256 q ↔
      ∃ p' : Payload, Rearranged p.json p'.json ∧
        structuralDiff (normalizeTypes p'.json) (normalizeTypes q.json) = [] := by
  constructor
  · intro h
    have hs : structuralString p = structuralString q := toUTF8_injective (hsha h)
    have ht : tree p.json = tree q.json := by
      rw [Payload.json, Payload.json, tree, tree, rootTrees_eq, rootTrees_eq,
        rootTrees_eq_of_structuralString hp.readable hq.readable hs]
    obtain ⟨v', hr, hn⟩ := exists_rearranged p.wf q.wf ht
    cases v' with
    | obj fields =>
      refine ⟨⟨fields, hr.wf_iff.mp p.wf⟩, hr, (structuralDiff_eq_nil_iff _ _).mpr fun path => ?_⟩
      exact congrArg (fun s => (flattenSchema "" s).lookup path) hn
    | null | bool b | num n | str s | arr items => simp [normalizeTypes] at hn
  · rintro ⟨p', hr, hd⟩
    have hn := (structuralDiff_eq_nil_iff_normalizeTypes ((hr.keysAll_iff pathKey).mp hp.paths) hq.paths
      (hr.filled_iff.mp hp.filled) hq.filled).mp hd
    have he : extractStructuralType p.json = extractStructuralType q.json := by
      rw [hr.extract_eq p.wf, extract_eq_written, extract_eq_written, hn]
    rw [fingerprintSchema, structuralString_eq_of_extract he, fingerprintSchema]

theorem fingerprint_eq_iff_structuralDiff_arrays :
    let p : Payload := ⟨[("a", .arr [.num (.int 1), .str ""])], by decide⟩
    let q : Payload := ⟨[("a", .arr [.str "", .num (.int 1), .num (.int 2)])], by decide⟩
    let sha256 := sampleSha256 [("a:array[int,string];",
      "1862ac9cde964acab14014023da44cff553c4a1cb3e240b39ce1450af2faf122")]
    fingerprintSchema sha256 p = fingerprintSchema sha256 q ↔
      ∃ p' : Payload, Rearranged p.json p'.json ∧
        structuralDiff (normalizeTypes p'.json) (normalizeTypes q.json) = [] := by
  intro p q sha256
  have hp : Unmarked p := ⟨by unfold ReadableRoot; decide, by decide, by decide⟩
  have hq : Unmarked q := ⟨by unfold ReadableRoot; decide, by decide, by decide⟩
  exact fingerprint_eq_iff_structuralDiff sha256 (sampleSha256_injective _ (by simp) (by simp)) p q hp hq

/-- The fingerprint keeps a primitive type of an array once, the difference compares positions. -/
theorem fingerprint_eq_structuralDiff_ne :
    let p : Payload := ⟨[("a", .arr [.num (.int 1)])], by decide⟩
    let q : Payload := ⟨[("a", .arr [.num (.int 1), .num (.int 2)])], by decide⟩
    let sha256 := sampleSha256 [("a:array[int];",
      "caebd6f8ca3015dcddb2f64c162b45a627b2466d83f33d3f44c63ac5b6bd8cd4")]
    Function.Injective sha256 ∧ fingerprintSchema sha256 p = fingerprintSchema sha256 q ∧
      structuralDiff (normalizeTypes p.json) (normalizeTypes q.json) ≠ [] := by
  intro p q sha256
  have hs : structuralString p = structuralString q := by decide +kernel
  refine ⟨sampleSha256_injective _ (by simp) (by simp), congrArg (fun s : String => sha256 s.toUTF8) hs, ?_⟩
  decide +kernel

end SchemaPilot.StructuralDrift
