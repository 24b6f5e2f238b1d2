import SchemaPilot.SchemaGrowth

namespace SchemaPilot.AddedField

open Keyed SchemaInfer SchemaNotes NodeSummary Occurrences NodeTypes ItemTypes SchemaHash SchemaDiff SchemaDiffJoin
  SchemaGrowth

section Insertion

variable {α β : Type}

/-- The second list has some entries more, all at one place. -/
def Inserts (new xs ys : List α) : Prop := ∃ l r, xs = l ++ r ∧ ys = l ++ new ++ r

variable {new xs ys : List α}

theorem Inserts.append_left (h : Inserts new xs ys) (zs : List α) : Inserts new (zs ++ xs) (zs ++ ys) := by
  obtain ⟨l, r, rfl, rfl⟩ := h
  exact ⟨zs ++ l, r, by simp, by simp⟩

theorem Inserts.append_right (h : Inserts new xs ys) (zs : List α) : Inserts new (xs ++ zs) (ys ++ zs) := by
  obtain ⟨l, r, rfl, rfl⟩ := h
  exact ⟨l, r ++ zs, by simp, by simp⟩

theorem Inserts.filter (h : Inserts new xs ys) (p : α → Bool) :
    Inserts (new.filter p) (xs.filter p) (ys.filter p) := by
  obtain ⟨l, r, rfl, rfl⟩ := h
  exact ⟨l.filter p, r.filter p, by simp, by simp⟩

theorem Inserts.replace {f : β → List α} {a b : β} (h : Inserts new (f a) (f b)) (l r : List β) :
    Inserts new ((l ++ a :: r).flatMap f) ((l ++ b :: r).flatMap f) := by
  simp only [List.flatMap_append, List.flatMap_cons]
  exact (h.append_right _).append_left _

theorem inserts_flatMap (f : β → List α) (l r : List β) (a : β) :
    Inserts (f a) ((l ++ r).flatMap f) ((l ++ a :: r).flatMap f) :=
  ⟨l.flatMap f, r.flatMap f, by simp, by simp⟩

end Insertion

section Notes

/-- The notes but those that a field is not required. -/
def kept (ns : List (String × Note)) : List (String × Note) := ns.filter (fun p => p.2 ≠ .optional)

theorem kept_append (ns ms : List (String × Note)) : kept (ns ++ ms) = kept ns ++ kept ms := List.filter_append ..

theorem kept_flatMap {α : Type} (f : α → List (String × Note)) (xs : List α) :
    kept (xs.flatMap f) = xs.flatMap (fun x => kept (f x)) :=
  List.filter_flatMap

theorem kept_relaxNotes (itemPath : String) (items : List Json) : kept (relaxNotes itemPath items) = [] := by
  rw [kept, List.filter_eq_nil_iff]
  intro p hp
  obtain ⟨q, -, rfl⟩ := List.mem_map.mp hp
  simp

/-- An array's notes, from those of its elements. -/
theorem inserts_arr {new : List (String × Note)} (path : String) (l r : List Json) {a b : Json}
    (hobject : isObject b = isObject a) (htype : scalarType b = scalarType a)
    (hitem : Inserts new (kept (notes (arrayPath path) a)) (kept (notes (arrayPath path) b)))
    (hmember : isObject a = true → Inserts new (kept (fieldNotes (arrayPath path) (members a)))
      (kept (fieldNotes (arrayPath path) (members b)))) :
    Inserts new (kept (notes path (.arr (l ++ a :: r)))) (kept (notes path (.arr (l ++ b :: r)))) := by
  have hall : (l ++ b :: r).all isObject = (l ++ a :: r).all isObject := by
    simp only [List.all_append, List.all_cons, hobject]
  have hitemType : itemType (l ++ b :: r) = itemType (l ++ a :: r) := by
    simp only [itemType, List.map_append, List.map_cons, htype]
  have hne : ∀ x, l ++ x :: r ≠ [] := fun x => by simp
  rw [notes, notes, if_neg (hne a), if_neg (hne b), hall, hitemType]
  by_cases hobjects : (l ++ a :: r).all isObject = true
  · rw [if_pos hobjects, if_pos hobjects]
    have ha : isObject a = true := List.all_eq_true.mp hobjects a (by simp)
    have hmembers : Inserts new (kept (memberNotes (arrayPath path) (l ++ a :: r)))
        (kept (memberNotes (arrayPath path) (l ++ b :: r))) := by
      rw [memberNotes_eq, memberNotes_eq, kept_flatMap, kept_flatMap]
      exact Inserts.replace (f := fun x => kept (fieldNotes (arrayPath path) (members x))) (hmember ha) l r
    have hhead := hmembers.append_left
      (kept [(orItems path, .container .array), (orItems path, .items .object)])
    have hend : ∀ xs, kept (memberNotes (arrayPath path) xs ++ relaxNotes (arrayPath path) xs) =
        kept (memberNotes (arrayPath path) xs) := by
      intro xs
      rw [kept_append, kept_relaxNotes, List.append_nil]
    rw [← hend, ← hend, ← kept_append, ← kept_append] at hhead
    exact hhead
  · rw [if_neg hobjects, if_neg hobjects]
    have hitems : Inserts new (kept (itemNotes (arrayPath path) (l ++ a :: r)))
        (kept (itemNotes (arrayPath path) (l ++ b :: r))) := by
      rw [itemNotes_eq, itemNotes_eq, kept_flatMap, kept_flatMap]
      exact Inserts.replace (f := fun x => kept (notes (arrayPath path) x)) hitem l r
    have hend := hitems.append_right (kept [(orItems path, .items (itemType (l ++ a :: r)))])
    rw [← kept_append, ← kept_append] at hend
    exact hend.append_left [(orItems path, .container .array)]

/-- The objects that a member is added to, and all values around them. -/
theorem inserts_notes {q path : String} {c : Json → Json} (h : Around q path c)
    (l r : List (String × Json)) (k : String) (x : Json) :
    Inserts (kept (notes (joinPath q k) x)) (kept (notes path (c (.obj (l ++ r)))))
        (kept (notes path (c (.obj (l ++ (k, x) :: r))))) ∧
      (isObject (c (.obj (l ++ r))) = true →
        Inserts (kept (notes (joinPath q k) x)) (kept (fieldNotes path (members (c (.obj (l ++ r))))))
          (kept (fieldNotes path (members (c (.obj (l ++ (k, x) :: r))))))) := by
  have hobj : ∀ {new : List (String × Note)} (path : String) {fields fields' : List (String × Json)},
      Inserts new (kept (fieldNotes path fields)) (kept (fieldNotes path fields')) →
      Inserts new (kept (notes path (.obj fields))) (kept (notes path (.obj fields'))) := by
    intro new path fields fields' hfields
    have hhead := hfields.append_left (kept ([(path, .container .object)] ++
      if path = "" then [] else [(path, .container .object)]))
    rwa [← kept_append, ← kept_append, List.append_assoc, List.append_assoc] at hhead
  induction h with
  | here =>
    have hfields : Inserts (kept (notes (joinPath q k) x)) (kept (fieldNotes q (l ++ r)))
        (kept (fieldNotes q (l ++ (k, x) :: r))) := by
      rw [fieldNotes_eq, fieldNotes_eq, kept_flatMap, kept_flatMap]
      exact inserts_flatMap (fun p : String × Json => kept (notes (joinPath q p.1) p.2)) l r (k, x)
    exact ⟨hobj q hfields, fun _ => hfields⟩
  | @item path l' r' c h ih =>
    refine ⟨inserts_arr path l' r' ?_ ?_ ih.1 ih.2, nofun⟩
    · cases h <;> rfl
    · cases h <;> rfl
  | @entry path l' r' k' c h ih =>
    have hfields : Inserts (kept (notes (joinPath q k) x)) (kept (fieldNotes path (l' ++ (k', c (.obj (l ++ r))) :: r')))
        (kept (fieldNotes path (l' ++ (k', c (.obj (l ++ (k, x) :: r))) :: r'))) := by
      rw [fieldNotes_eq, fieldNotes_eq, kept_flatMap, kept_flatMap]
      exact Inserts.replace (f := fun p : String × Json => kept (notes (joinPath path p.1) p.2)) ih.1 l' r'
    exact ⟨hobj path hfields, fun _ => hfields⟩

theorem inserts_walkNotes {q : String} {c : Json → Json} (h : Around q "" c) (l r : List (String × Json))
    (k : String) (x : Json) :
    Inserts (kept (notes (joinPath q k) x)) (kept (walkNotes (c (.obj (l ++ r)))))
      (kept (walkNotes (c (.obj (l ++ (k, x) :: r))))) := by
  have hinserts := inserts_notes h l r k x
  cases h with
  | here => exact hinserts.2 rfl
  | item l' r' h => exact hinserts.1
  | entry l' r' k' h => exact hinserts.2 rfl

end Notes

section Nodes

/-- The notes of one path but those that its field is not required. -/
def substance (ns : List Note) : List Note := ns.filter (fun n => n ≠ .optional)

theorem notesAt_kept (path : String) (ns : List (String × Note)) :
    notesAt path (kept ns) = substance (notesAt path ns) := by
  rw [notesAt, notesAt, kept, substance, List.filterMap_filter, List.filter_filterMap]
  congr 1
  funext p
  by_cases hp : p.1 = path <;> by_cases hn : p.2 = .optional <;> simp [hp, hn, Option.filter]

theorem filterMap_substance {β : Type} {f : Note → Option β} (h : f .optional = none) (ns : List Note) :
    (substance ns).filterMap f = ns.filterMap f := by
  rw [substance, List.filterMap_filter]
  congr 1
  funext n
  by_cases hn : n = .optional
  · simp [hn, h]
  · simp [hn]

theorem opening_substance {ns : List Note} (h : Started ns) : opening (substance ns) = opening ns := by
  cases ns with
  | nil => rfl
  | cons n ns =>
    have hopens := h n rfl
    cases n with
    | optional => cases hopens
    | container t | null | scalar v | items t => rfl

/-- What the diff compares of a node does not depend on the notes about missing keys. -/
theorem unchanged_of_kept {v w : Json} {m n : SchemaNode} (hm : m ∈ inferSchema v) (hn : n ∈ inferSchema w)
    (hpath : n.path = m.path)
    (h : notesAt m.path (kept (walkNotes v)) = notesAt m.path (kept (walkNotes w))) : Unchanged m n := by
  obtain ⟨s, rfl, -, hs⟩ := summary_of_mem hm
  obtain ⟨s', rfl, -, hs'⟩ := summary_of_mem hn
  rw [hpath] at hs'
  rw [notesAt_kept, notesAt_kept] at h
  have hsame : ∀ {β : Type} {f : Note → Option β}, f .optional = none →
      (notesAt (finalize s).path (walkNotes v)).filterMap f =
        (notesAt (finalize s).path (walkNotes w)).filterMap f := by
    intro β f hf
    rw [← filterMap_substance hf, h, filterMap_substance hf]
  have hscalar : scalarTypes (notesAt (finalize s).path (walkNotes v)) =
      scalarTypes (notesAt (finalize s).path (walkNotes w)) := hsame rfl
  have hopening : opening (notesAt (finalize s).path (walkNotes v)) =
      opening (notesAt (finalize s).path (walkNotes w)) := by
    rw [← opening_substance (allStarted_walkNotes v _), h, opening_substance (allStarted_walkNotes w _)]
  have hnull : .null ∈ notesAt (finalize s).path (walkNotes v) ↔
      .null ∈ notesAt (finalize s).path (walkNotes w) := by
    have hmem : ∀ ns, Note.null ∈ substance ns ↔ .null ∈ ns := fun ns => by simp [substance]
    rw [← hmem, h, hmem]
  refine ⟨?_, ?_, ?_, fun _ => ?_⟩
  · change s.type = s'.type
    rw [hs.type, hs'.type, typeOf, typeOf, hopening, hscalar]
  · rw [Bool.eq_iff_iff]
    exact hs.nullable.trans (hnull.trans hs'.nullable.symm)
  · rw [enumValues_finalize hs.enum, enumValues_finalize hs'.enum, texts, texts, hsame rfl]
    rintro a ha b hb
    obtain rfl : a = b := Option.some.inj (ha.symm.trans hb)
    exact ⟨List.Subset.refl _, List.Subset.refl _⟩
  · change s.arrayItemType = s'.arrayItemType
    rw [hs.item, hs'.item, itemTypes, itemTypes, hsame rfl]

/-- The paths of a value's notes are those at which it is visited. -/
theorem mem_keys_kept (path : String) (x : Json) (p : String) :
    p ∈ keys (kept (notes path x)) ↔ p ∈ keys (visits path x) := by
  have hvalue : (notes path x).filter (fun p => isValue p.2) = (visits path x).flatMap valueNotes :=
    (filter_notes x path).1
  constructor
  · intro hp
    -- the notes of a path begin with the one of a value
    have hne : notesAt p (notes path x) ≠ [] := by
      intro hnil
      obtain ⟨r, hr, hrp⟩ := List.mem_map.mp hp
      exact notesAt_eq_nil_iff.mp hnil (List.mem_map.mpr ⟨r, (List.mem_filter.mp hr).1, hrp⟩)
    obtain ⟨n, ns, hns⟩ := List.exists_cons_of_ne_nil hne
    have hopens : n.opens.isSome := (allStarted_notes x path).1 p n (by rw [hns]; rfl)
    have hfirst : (p, n) ∈ (notes path x).filter (fun p => isValue p.2) := by
      refine List.mem_filter.mpr ⟨mem_notesAt.mp (by rw [hns]; exact List.mem_cons_self), ?_⟩
      cases n with
      | container t | null | scalar v => rfl
      | items t | optional => cases hopens
    rw [hvalue] at hfirst
    obtain ⟨y, hy, hyn⟩ := List.mem_flatMap.mp hfirst
    exact List.mem_map.mpr ⟨y, hy, (congrArg Prod.fst (List.mem_replicate.mp hyn).2).symm⟩
  · intro hp
    obtain ⟨y, hy, rfl⟩ := List.mem_map.mp hp
    have hmem : (y.1, noteOf y.2) ∈ (notes path x).filter (fun p => isValue p.2) := by
      rw [hvalue]
      exact List.mem_flatMap.mpr ⟨y, hy, List.mem_replicate.mpr ⟨(copies_pos y).ne', rfl⟩⟩
    obtain ⟨hmem, -⟩ := List.mem_filter.mp hmem
    refine List.mem_map.mpr ⟨_, List.mem_filter.mpr ⟨hmem, ?_⟩, rfl⟩
    cases y.2 <;> simp [noteOf]

theorem exists_node_iff (v : Json) (p : String) :
    (∃ m ∈ inferSchema v, m.path = p) ↔ p ∈ keys (kept (walkNotes v)) := by
  constructor
  · rintro ⟨m, hm, rfl⟩
    obtain ⟨u, hu⟩ := List.exists_mem_of_ne_nil _ (valuesAt_ne_nil hm)
    have hnote : noteOf u ∈ notesAt m.path (walkNotes v) :=
      (mem_notesAt_iff v m.path (by cases u <;> rfl)).mpr ⟨u, hu, rfl⟩
    refine List.mem_map.mpr ⟨(m.path, noteOf u), List.mem_filter.mpr ⟨mem_notesAt.mp hnote, ?_⟩, rfl⟩
    cases u <;> simp [noteOf]
  · intro hp
    obtain ⟨⟨_, n⟩, hn, rfl⟩ := List.mem_map.mp hp
    exact exists_node_of_note (mem_notesAt.mpr (List.mem_filter.mp hn).1)

theorem lookup_eq_none_iff (v : Json) (p : String) :
    (byPath (inferSchema v)).lookup p = none ↔ p ∉ keys (kept (walkNotes v)) := by
  rw [← exists_node_iff]
  constructor
  · rintro hnone ⟨m, hm, hpath⟩
    rw [(lookup_byPath_eq_some_iff (nodup_inferSchema v)).mpr ⟨hm, hpath⟩] at hnone
    cases hnone
  · intro hno
    cases hp : (byPath (inferSchema v)).lookup p with
    | none => rfl
    | some m => exact absurd ⟨m, lookup_byPath_inferSchema hp⟩ hno

/-- A member that is added to an object, at any depth and also in the elements of arrays, and none of
whose paths the old schema has, is reported as what it is: every path of it as an added field, once,
and nothing else. -/
theorem added_member_reported (isPrintable : Char → Bool) (q : String) (c : Json → Json) (hc : Around q "" c)
    (l r : List (String × Json)) (k : String) (x : Json)
    (hfresh : ∀ m ∈ inferSchema (c (.obj (l ++ r))), m.path ∉ keys (visits (joinPath q k) x)) :
    (∀ d, d ∈ diffSchemas isPrintable (inferSchema (c (.obj (l ++ r))))
        (inferSchema (c (.obj (l ++ (k, x) :: r)))) ↔
      ∃ n ∈ inferSchema (c (.obj (l ++ (k, x) :: r))), n.path ∈ keys (visits (joinPath q k) x) ∧
        d = addedDiff isPrintable n.path n) ∧
      ((diffSchemas isPrintable (inferSchema (c (.obj (l ++ r))))
        (inferSchema (c (.obj (l ++ (k, x) :: r))))).map Diff.path).Nodup := by
  obtain ⟨before, after, hv, hw⟩ := inserts_walkNotes hc l r k x
  have hkeys : ∀ p, p ∈ keys (kept (walkNotes (c (.obj (l ++ (k, x) :: r))))) ↔
      p ∈ keys (kept (walkNotes (c (.obj (l ++ r))))) ∨ p ∈ keys (visits (joinPath q k) x) := by
    intro p
    rw [hv, hw, ← mem_keys_kept]
    simp only [keys, List.map_append, List.mem_append]
    tauto
  have hold : ∀ p ∈ keys (visits (joinPath q k) x), p ∉ keys (kept (walkNotes (c (.obj (l ++ r))))) := by
    intro p hp hin
    obtain ⟨m, hm, rfl⟩ := (exists_node_iff _ p).mpr hin
    exact hfresh m hm hp
  refine ⟨fun d => ?_, nodup_paths_diffSchemas _ _ _⟩
  rw [mem_diffSchemas, diffAt]
  constructor
  · intro hat
    cases ho : (byPath (inferSchema (c (.obj (l ++ r))))).lookup d.path with
    | none =>
      cases hn : (byPath (inferSchema (c (.obj (l ++ (k, x) :: r))))).lookup d.path with
      | none =>
        rw [ho, hn] at hat
        cases hat
      | some n =>
        rw [ho, hn] at hat
        obtain ⟨hmem, hpath⟩ := lookup_byPath_inferSchema hn
        have hin := (hkeys d.path).mp ((exists_node_iff _ _).mp ⟨n, hmem, hpath⟩)
        refine ⟨n, hmem, ?_, ?_⟩
        · rw [hpath]
          exact hin.resolve_left ((lookup_eq_none_iff _ _).mp ho)
        · rw [hpath]
          exact (Option.some.inj hat).symm
    | some m =>
      obtain ⟨hm, hmpath⟩ := lookup_byPath_inferSchema ho
      have hmkeys := (exists_node_iff _ _).mp ⟨m, hm, hmpath⟩
      cases hn : (byPath (inferSchema (c (.obj (l ++ (k, x) :: r))))).lookup d.path with
      | none => exact absurd ((hkeys _).mpr (.inl hmkeys)) ((lookup_eq_none_iff _ _).mp hn)
      | some n =>
        obtain ⟨hmem, hpath⟩ := lookup_byPath_inferSchema hn
        have hout : notesAt m.path (kept (notes (joinPath q k) x)) = [] := by
          rw [notesAt_eq_nil_iff, mem_keys_kept]
          exact hfresh m hm
        have hnotes : notesAt m.path (kept (walkNotes (c (.obj (l ++ r))))) =
            notesAt m.path (kept (walkNotes (c (.obj (l ++ (k, x) :: r))))) := by
          rw [hv, hw, notesAt_append, notesAt_append, notesAt_append, hout, List.append_nil]
        have hsame := unchanged_of_kept hm hmem (hpath.trans hmpath.symm) hnotes
        rw [ho, hn] at hat
        cases ((changedDiff_eq_none_iff isPrintable d.path m n).mpr hsame).symm.trans hat
  · rintro ⟨n, hn, hin, rfl⟩
    have hnone := (lookup_eq_none_iff _ _).mpr (hold n.path hin)
    change (nodeJoin isPrintable).entry n.path ((byPath _).lookup n.path) ((byPath _).lookup n.path) = _
    rw [hnone, (lookup_byPath_eq_some_iff (nodup_inferSchema _)).mpr ⟨hn, rfl⟩]
    rfl

theorem added_member_reported_tags :
    let v : Json := .obj [("users", .arr [.obj [("id", .num (.int 1))], .obj [("id", .num (.int 2))]])]
    let w : Json := .obj [("users", .arr [.obj [("id", .num (.int 1)), ("tags", .arr [.str "x"])],
      .obj [("id", .num (.int 2))]])]
    ∃ n ∈ inferSchema w, n.path = "users[*].tags[*]" ∧
      addedDiff (fun _ => true) n.path n ∈ diffSchemas (fun _ => true) (inferSchema v) (inferSchema w) := by
  intro v w
  let c : Json → Json := fun x => .obj ([] ++ ("users", .arr ([] ++ x :: [.obj [("id", .num (.int 2))]])) :: [])
  have hc : Around (arrayPath (joinPath "" "users")) "" c := .entry [] [] "users" (.item [] _ .here)
  obtain ⟨n, hn, hpath⟩ : ∃ n ∈ inferSchema w, n.path = "users[*].tags[*]" := by
    rw [← List.mem_map]
    decide +kernel
  refine ⟨n, hn, hpath, (added_member_reported (fun _ => true) _ c hc [("id", .num (.int 1))] [] "tags"
    (.arr [.str "x"]) (by decide +kernel)).1 _ |>.mpr ⟨n, hn, ?_, rfl⟩⟩
  rw [hpath]
  decide +kernel

end Nodes

end SchemaPilot.AddedField
