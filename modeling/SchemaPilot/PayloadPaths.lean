import SchemaPilot.Classifier

namespace SchemaPilot.PayloadPaths

open Keyed PrefixCode Canonical Classifier

inductive Step where
  | key (k : String)
  | item (i : Nat)
  deriving DecidableEq

/-- The value a payload has at a location, if it has one there. -/
def valueAt : Json → List Step → Option Json
  | j, [] => some j
  | .obj fields, .key k :: loc =>
    match fields.lookup k with
    | some v => valueAt v loc
    | none => none
  | .arr items, .item i :: loc =>
    match items[i]? with
    | some v => valueAt v loc
    | none => none
  | _, _ :: _ => none

/-- The path text under which the flattening writes a location. -/
def render : String → List Step → String
  | pre, [] => pre
  | pre, .key k :: loc => render (joinKey pre k) loc
  | pre, .item i :: loc => render (joinItem pre i) loc

mutual

/-- Every place of a schema the diff can see, in the order it is visited: a leaf, an
array, or an object that has a key named `type` and is taken for one leaf. -/
def places : Schema → String → List (String × Schema)
  | .obj fields, pre =>
    if (fields.lookup "type").isSome then [(orRoot pre, .obj fields)]
    else placesFields fields pre
  | .arr items, pre => (orRoot pre, arrayMarker) :: placesItems items pre 0
  | .null, pre | .bool _, pre | .num _, pre | .str _, pre => [(orRoot pre, unknownMarker)]

def placesFields : List (String × Schema) → String → List (String × Schema)
  | [], _ => []
  | (k, v) :: fields, pre => places v (joinKey pre k) ++ placesFields fields pre

def placesItems : List Schema → String → Nat → List (String × Schema)
  | [], _, _ => []
  | x :: items, pre, i => places x (joinItem pre i) ++ placesItems items pre (i + 1)

end

/-- What a schema shows at a path: of several places written under one path, the last. -/
def shows (s : Schema) (path : String) : Option Schema := (places s "").reverse.lookup path

theorem nodup_flattenFields {fields : List (String × Schema)} {flat : List (String × Schema)}
    (pre : String) (hf : (keys flat).Nodup) : (keys (flattenFields fields pre flat)).Nodup := by
  induction fields generalizing flat with
  | nil => exact hf
  | cons p fields ih => exact ih (nodup_update hf _)

theorem nodup_flattenItems {items : List Schema} {flat : List (String × Schema)}
    (pre : String) (i : Nat) (hf : (keys flat).Nodup) :
    (keys (flattenItems items pre i flat)).Nodup := by
  induction items generalizing i flat with
  | nil => exact hf
  | cons x items ih => exact ih _ (nodup_update hf _)

theorem nodup_flatten (s : Schema) (pre : String) : (keys (flatten s pre)).Nodup := by
  cases s with
  | null | bool _ | str _ => simp [flatten]
  | num n => exact n.elim
  | arr items => exact nodup_flattenItems pre 0 (by simp)
  | obj fields =>
    rw [flatten]
    split
    · simp
    · exact nodup_flattenFields pre (by simp)

theorem lookup_update_flatten (flat : List (String × Schema)) (s : Schema) (pre path : String) :
    (update flat (flatten s pre)).lookup path =
      ((flatten s pre).lookup path).or (flat.lookup path) := by
  have hr : (keys (flatten s pre).reverse).Nodup := by
    rw [keys, List.map_reverse]
    exact List.nodup_reverse.mpr (nodup_flatten s pre)
  rw [lookup_update, lookup_perm hr (List.reverse_perm _)]

/-- The flattened schema holds at each path what the last place written there holds. -/
theorem lookup_flatten (s : Schema) (pre path : String) :
    (flatten s pre).lookup path = (places s pre).reverse.lookup path := by
  induction s using JsonOf.induct generalizing pre with
  | null | bool _ | str _ => rfl
  | num n => exact n.elim
  | arr items ih =>
    have hitems : ∀ xs : List Schema, (∀ x ∈ xs, x ∈ items) → ∀ i flat,
        (flattenItems xs pre i flat).lookup path =
          ((placesItems xs pre i).reverse.lookup path).or (flat.lookup path) := by
      intro xs hxs
      induction xs with
      | nil => intro i flat; rfl
      | cons x xs ihx =>
        intro i flat
        rw [flattenItems, ihx (fun y hy => hxs y (by simp [hy])), lookup_update_flatten,
          ih x (hxs x (by simp)), placesItems, List.reverse_append, List.lookup_append,
          Option.or_assoc]
    rw [flatten, hitems items (fun _ h => h), places, List.reverse_cons, List.lookup_append]
  | obj fields ih =>
    have hfields : ∀ fs : List (String × Schema), (∀ p ∈ fs, p ∈ fields) → ∀ flat,
        (flattenFields fs pre flat).lookup path =
          ((placesFields fs pre).reverse.lookup path).or (flat.lookup path) := by
      intro fs hfs
      induction fs with
      | nil => intro flat; rfl
      | cons p fs ihp =>
        intro flat
        obtain ⟨k, v⟩ := p
        rw [flattenFields, ihp (fun q hq => hfs q (by simp [hq])), lookup_update_flatten,
          ih (k, v) (hfs (k, v) (by simp)), placesFields, List.reverse_append, List.lookup_append,
          Option.or_assoc]
    rw [flatten, places]
    split
    · rfl
    · rw [hfields fields (fun _ h => h), List.lookup_nil, Option.or_none]

theorem lookup_flatten_root (s : Schema) (path : String) :
    (flatten s "").lookup path = shows s path :=
  lookup_flatten s "" path

theorem mem_placesFields (fields : List (String × Schema)) (pre : String) (e : String × Schema) :
    e ∈ placesFields fields pre ↔ ∃ p ∈ fields, e ∈ places p.2 (joinKey pre p.1) := by
  induction fields with
  | nil => simp [placesFields]
  | cons p fields ih => simp [placesFields, ih]

theorem mem_placesItems (items : List Schema) (pre : String) (i : Nat) (e : String × Schema) :
    e ∈ placesItems items pre i ↔
      ∃ n x, items[n]? = some x ∧ e ∈ places x (joinItem pre (i + n)) := by
  induction items generalizing i with
  | nil => simp [placesItems]
  | cons x items ih =>
    rw [placesItems, List.mem_append, ih]
    constructor
    · rintro (h | ⟨n, y, hy, h⟩)
      · exact ⟨0, x, rfl, h⟩
      · exact ⟨n + 1, y, hy, by rwa [Nat.add_right_comm, Nat.add_assoc] at h⟩
    · rintro ⟨_ | n, y, hy, h⟩
      · obtain rfl : x = y := Option.some.inj hy
        exact .inl h
      · exact .inr ⟨n, y, hy, by rwa [Nat.add_right_comm, Nat.add_assoc]⟩

section Plain

mutual

/-- Every key of every object passes a test. -/
def keysAll (ok : String → Bool) : Json → Bool
  | .obj fields => keysAllFields ok fields
  | .arr items => keysAllItems ok items
  | .null | .bool _ | .num _ | .str _ => true

def keysAllItems (ok : String → Bool) : List Json → Bool
  | [] => true
  | x :: items => keysAll ok x && keysAllItems ok items

def keysAllFields (ok : String → Bool) : List (String × Json) → Bool
  | [] => true
  | (k, v) :: fields => ok k && keysAll ok v && keysAllFields ok fields

end

theorem keysAll_arr_iff (ok : String → Bool) (items : List Json) :
    keysAll ok (.arr items) ↔ ∀ x ∈ items, keysAll ok x := by
  change keysAllItems ok items = true ↔ _
  induction items with
  | nil => simp [keysAllItems]
  | cons x items ih => simp [keysAllItems, ih]

theorem keysAll_obj_iff (ok : String → Bool) (fields : List (String × Json)) :
    keysAll ok (.obj fields) ↔ ∀ p ∈ fields, ok p.1 ∧ keysAll ok p.2 := by
  change keysAllFields ok fields = true ↔ _
  induction fields with
  | nil => simp [keysAllFields]
  | cons p fields ih => simp [keysAllFields, ih]

theorem keysAll_mono {ok ok' : String → Bool} (hok : ∀ k, ok k → ok' k) {j : Json} (h : keysAll ok j) :
    keysAll ok' j := by
  induction j using payload_induct with
  | scalar j k hs hc =>
    cases j with
    | arr items | obj fields => cases hs
    | null | bool b | num n | str s => rfl
  | arr items ih =>
    have hitems := (keysAll_arr_iff ok items).mp h
    exact (keysAll_arr_iff ok' items).mpr fun x hx => ih x hx (hitems x hx)
  | obj fields ih =>
    have hfields := (keysAll_obj_iff ok fields).mp h
    exact (keysAll_obj_iff ok' fields).mpr fun p hp => ⟨hok p.1 (hfields p hp).1, ih p hp (hfields p hp).2⟩

/-- A key that does not look like schema metadata. -/
def untypedKey (k : String) : Bool := k ≠ "type"

/-- A key that neither looks like schema metadata nor like a piece of path text. -/
def plainKey (k : String) : Bool :=
  k ≠ "" && k ≠ "type" && '.' ∉ k.toList && '[' ∉ k.toList

/-- What the diff sees of one payload value: of an object only its members. -/
def markOf : Json → Option Schema
  | .obj _ => none
  | .arr _ => some arrayMarker
  | j => some (canonicalize j)

theorem leafOf_ne_arrayMarker (k : ScalarKind) : leafOf k ≠ arrayMarker := by
  cases k <;> decide

def markAt (j : Json) (loc : List Step) : Option Schema := (valueAt j loc).bind markOf

theorem markAt_scalar {j : Json} {k : ScalarKind} (h : shape j = .scalar k) (loc : List Step) :
    markAt j loc = match loc with | [] => some (leafOf k) | _ :: _ => none := by
  obtain _ | ⟨step, loc⟩ := loc
  · cases j with
    | arr items | obj fields => simp [shape] at h
    | num n => cases n <;> cases h <;> rfl
    | null | bool b | str s => cases h; rfl
  · cases j with
    | arr items | obj fields => simp [shape] at h
    | null | bool b | num n | str s => cases step <;> rfl

theorem markAt_arr (items : List Json) (loc : List Step) :
    markAt (.arr items) loc =
      match loc with
      | [] => some arrayMarker
      | .item i :: loc => items[i]?.bind (markAt · loc)
      | .key _ :: _ => none := by
  obtain _ | ⟨k | i, loc⟩ := loc
  · rfl
  · rfl
  · simp only [markAt, valueAt]
    cases items[i]? <;> rfl

theorem markAt_obj (fields : List (String × Json)) (loc : List Step) :
    markAt (.obj fields) loc =
      match loc with
      | .key k :: loc => (fields.lookup k).bind (markAt · loc)
      | _ => none := by
  obtain _ | ⟨k | i, loc⟩ := loc
  · rfl
  · simp only [markAt, valueAt]
    cases fields.lookup k <;> rfl
  · rfl

theorem lookup_type_eq_none {fields : List (String × Json)} (h : ∀ p ∈ fields, p.1 ≠ "type") :
    (sortByKey (canonicalizeFields fields)).lookup "type" = none := by
  rw [lookup_eq_none_iff_not_mem, ((sortByKey_perm _).map Prod.fst).mem_iff, canonicalizeFields_eq]
  intro hm
  obtain ⟨p, hp, he⟩ : ∃ p ∈ fields, p.1 = "type" := by simpa using hm
  exact h p hp he

theorem plainKey_iff (k : String) : plainKey k ↔ k ≠ "" ∧ k ≠ "type" ∧ '.' ∉ k.toList ∧ '[' ∉ k.toList := by
  simp only [plainKey, Bool.and_eq_true, decide_eq_true_eq, and_assoc]

theorem untyped_of_plain {j : Json} (h : keysAll plainKey j) : keysAll untypedKey j := by
  refine keysAll_mono (fun k hk => ?_) h
  exact decide_eq_true ((plainKey_iff k).mp hk).2.1

/-- The places of a payload without keys `type` are its locations that are no object. -/
theorem mem_places_iff {j : Json} (hwf : j.wf) (huntyped : keysAll untypedKey j) (pre path : String)
    (node : Schema) :
    (path, node) ∈ places (canonicalize j) pre ↔
      ∃ loc, markAt j loc = some node ∧ path = orRoot (render pre loc) := by
  induction j using payload_induct generalizing pre with
  | scalar j k hs hc =>
    have hp : places (leafOf k) pre = [(orRoot pre, leafOf k)] := by cases k <;> rfl
    simp only [hc, hp, List.mem_singleton, Prod.mk.injEq, markAt_scalar hs]
    constructor
    · rintro ⟨rfl, rfl⟩
      exact ⟨[], rfl, rfl⟩
    · rintro ⟨_ | ⟨s, loc⟩, hl, rfl⟩
      · exact ⟨rfl, (Option.some.inj hl).symm⟩
      · cases hl
  | arr items ih =>
    have hws := (JsonOf.wf_arr_iff items).mp hwf
    have hps := (keysAll_arr_iff _ items).mp huntyped
    rw [canonicalize, places, List.mem_cons, mem_placesItems, canonicalizeItems_eq]
    constructor
    · rintro (h | ⟨n, s, hn, h⟩)
      · obtain ⟨rfl, rfl⟩ := Prod.mk.inj h
        exact ⟨[], rfl, rfl⟩
      · obtain ⟨x, hx, rfl⟩ : ∃ x, items[n]? = some x ∧ canonicalize x = s := by simpa using hn
        have hm := List.mem_of_getElem? hx
        obtain ⟨loc, hl, hr⟩ := (ih x hm (hws x hm) (hps x hm) _).mp h
        refine ⟨.item n :: loc, by rw [markAt_arr]; simpa [hx] using hl, ?_⟩
        rw [hr, Nat.zero_add, render]
    · rintro ⟨loc, hl, rfl⟩
      rw [markAt_arr] at hl
      obtain _ | ⟨k | n, loc⟩ := loc
      · exact .inl (by rw [← Option.some.inj hl]; rfl)
      · cases hl
      · obtain ⟨x, hx, hl⟩ := Option.bind_eq_some_iff.mp hl
        have hm := List.mem_of_getElem? hx
        refine .inr ⟨n, canonicalize x, by simp [hx], ?_⟩
        rw [Nat.zero_add]
        exact (ih x hm (hws x hm) (hps x hm) _).mpr ⟨loc, hl, rfl⟩
  | obj fields ih =>
    obtain ⟨hn, hws⟩ := (JsonOf.wf_obj_iff fields).mp hwf
    have hps := (keysAll_obj_iff _ fields).mp huntyped
    have htype : ∀ p ∈ fields, p.1 ≠ "type" := fun p hp => of_decide_eq_true (hps p hp).1
    rw [canonicalize, places, lookup_type_eq_none htype, Option.isSome_none,
      if_neg Bool.false_ne_true, mem_placesFields]
    simp only [mem_sortByKey, canonicalizeFields_eq, List.mem_map, exists_exists_and_eq_and]
    constructor
    · rintro ⟨⟨k, v⟩, hm, h⟩
      obtain ⟨loc, hl, hr⟩ := (ih _ hm (hws _ hm) (hps _ hm).2 _).mp h
      refine ⟨.key k :: loc, ?_, hr⟩
      rw [markAt_obj]
      simpa [(lookup_eq_some_iff_mem hn).mpr hm] using hl
    · rintro ⟨loc, hl, rfl⟩
      rw [markAt_obj] at hl
      obtain _ | ⟨k | n, loc⟩ := loc
      · cases hl
      · obtain ⟨v, hv, hl⟩ := Option.bind_eq_some_iff.mp hl
        have hm := mem_of_lookup hv
        exact ⟨(k, v), hm, (ih _ hm (hws _ hm) (hps _ hm).2 _).mpr ⟨loc, hl, rfl⟩⟩
      · cases hl

def stepChars : Step → List Char
  | .key k => '.' :: k.toList
  | .item i => '[' :: '*' :: (Nat.toDigits 10 i ++ [']'])

/-- The characters that begin a step in a path text. -/
def stepMark (c : Char) : Bool := c == '.' || c == '['

def plainStep : Step → Bool
  | .key k => plainKey k
  | .item _ => true

theorem joinKey_toList {pre : String} (h : pre ≠ "") (k : String) :
    (joinKey pre k).toList = pre.toList ++ stepChars (.key k) := by
  simp [joinKey, if_neg h, stepChars]

theorem joinItem_toList (pre : String) (i : Nat) :
    (joinItem pre i).toList = pre.toList ++ stepChars (.item i) := by
  simp [joinItem, stepChars]

theorem ne_empty_of_toList {s : String} {t u : List Char} (h : s.toList = t ++ u) (hu : u ≠ []) :
    s ≠ "" := by
  rintro rfl
  exact hu (List.append_eq_nil_iff.mp h.symm).2

theorem render_toList {pre : String} (h : pre ≠ "") (loc : List Step) :
    (render pre loc).toList = pre.toList ++ loc.flatMap stepChars := by
  induction loc generalizing pre with
  | nil => simp [render]
  | cons s loc ih =>
    cases s with
    | key k =>
      have hk := joinKey_toList h k
      rw [render, ih (ne_empty_of_toList hk (by simp [stepChars])), hk, List.flatMap_cons,
        List.append_assoc]
    | item i =>
      have hi := joinItem_toList pre i
      rw [render, ih (ne_empty_of_toList hi (by simp [stepChars])), hi, List.flatMap_cons,
        List.append_assoc]

theorem stepChars_block_of_key {s : Step}
    (h : ∀ k, s = .key k → '.' ∉ k.toList ∧ '[' ∉ k.toList) : Block stepMark (stepChars s) := by
  cases s with
  | key k =>
    obtain ⟨hd, hb⟩ := h k rfl
    refine ⟨'.', k.toList, rfl, rfl, fun c hc => ?_⟩
    have h1 : c ≠ '.' := fun he => hd (he ▸ hc)
    have h2 : c ≠ '[' := fun he => hb (he ▸ hc)
    simp [stepMark, h1, h2]
  | item i =>
    refine ⟨'[', _, rfl, rfl, fun c hc => ?_⟩
    simp only [List.mem_cons, List.mem_append, List.not_mem_nil, or_false] at hc
    obtain rfl | hc | rfl := hc
    · rfl
    · have hdigit := Nat.isDigit_of_mem_toDigits (by decide) (by decide) hc
      have h1 : c ≠ '.' := by rintro rfl; exact absurd hdigit (by decide)
      have h2 : c ≠ '[' := by rintro rfl; exact absurd hdigit (by decide)
      simp [stepMark, h1, h2]
    · rfl

theorem stepChars_block {s : Step} (h : plainStep s) : Block stepMark (stepChars s) := by
  apply stepChars_block_of_key
  rintro k rfl
  exact ((plainKey_iff k).mp h).2.2

theorem toDigits_injective {m n : Nat} (h : Nat.toDigits 10 m = Nat.toDigits 10 n) : m = n := by
  rw [← Nat.ofDigitChars_ten_toDigits (n := m), h, Nat.ofDigitChars_ten_toDigits]

theorem stepChars_injective {s t : Step} (h : stepChars s = stepChars t) : s = t := by
  cases s with
  | key k =>
    cases t with
    | key l => rw [String.toList_inj.mp (List.cons.inj h).2]
    | item j => simp [stepChars] at h
  | item i =>
    cases t with
    | key l => simp [stepChars] at h
    | item j =>
      simp only [stepChars, List.cons.injEq, true_and, List.append_cancel_right_eq] at h
      rw [toDigits_injective h]

/-- A location below the root object, through plain keys only. -/
def PlainLocation (loc : List Step) : Prop :=
  (∃ k rest, loc = .key k :: rest) ∧ ∀ s ∈ loc, plainStep s

def pathText (loc : List Step) : String := orRoot (render "" loc)

theorem render_root_toList {k : String} (hk : k ≠ "") (rest : List Step) :
    '.' :: (render "" (.key k :: rest)).toList = (Step.key k :: rest).flatMap stepChars := by
  rw [render, joinKey, if_pos rfl, render_toList hk]
  rfl

theorem render_ne_empty {k : String} (hk : k ≠ "") (rest : List Step) : render "" (.key k :: rest) ≠ "" := by
  rw [render, joinKey, if_pos rfl, ne_eq, ← String.toList_eq_nil_iff, render_toList hk,
    List.append_eq_nil_iff, String.toList_eq_nil_iff]
  exact fun h => hk h.1

theorem pathText_toList {loc : List Step} (h : PlainLocation loc) :
    '.' :: (pathText loc).toList = loc.flatMap stepChars := by
  obtain ⟨⟨k, rest, rfl⟩, hp⟩ := h
  have hk : k ≠ "" := ((plainKey_iff k).mp (hp (.key k) (by simp))).1
  rw [pathText, orRoot, if_neg (render_ne_empty hk rest)]
  exact render_root_toList hk rest

theorem pathText_injective {loc loc' : List Step} (h : PlainLocation loc) (h' : PlainLocation loc')
    (he : pathText loc = pathText loc') : loc = loc' :=
  flatMap_block_inj stepMark (fun s hs => stepChars_block (h.2 s hs))
    (fun s hs => stepChars_block (h'.2 s hs)) (fun _ _ _ _ => stepChars_injective)
    (by rw [← pathText_toList h, ← pathText_toList h', he])

theorem key_of_valueAt {ok : String → Bool} {j v : Json} {loc : List Step} (h : keysAll ok j)
    (hv : valueAt j loc = some v) : ∀ k, .key k ∈ loc → ok k := by
  induction loc generalizing j with
  | nil => exact fun k hk => absurd hk List.not_mem_nil
  | cons s loc ih =>
    unfold valueAt at hv
    split at hv
    · contradiction
    · next fields k loc' heq =>
      obtain ⟨rfl, rfl⟩ := List.cons.inj heq
      have hf := (keysAll_obj_iff _ fields).mp h
      split at hv
      · next w hw =>
        have hw := hf _ (mem_of_lookup hw)
        intro k' hk'
        obtain he | hm := List.mem_cons.mp hk'
        · rw [Step.key.inj he]
          exact hw.1
        · exact ih hw.2 hv k' hm
      · cases hv
    · next items i loc' heq =>
      obtain ⟨rfl, rfl⟩ := List.cons.inj heq
      have hi := (keysAll_arr_iff _ items).mp h
      split at hv
      · next w hw =>
        intro k' hk'
        obtain he | hm := List.mem_cons.mp hk'
        · cases he
        · exact ih (hi w (List.mem_of_getElem? hw)) hv k' hm
      · cases hv
    · cases hv

theorem plainStep_of_valueAt {j v : Json} {loc : List Step} (h : keysAll plainKey j)
    (hv : valueAt j loc = some v) : ∀ s ∈ loc, plainStep s := by
  intro s hs
  cases s with
  | key k => exact key_of_valueAt h hv k hs
  | item i => rfl

theorem plainLocation_of_markAt {p : Payload} (h : keysAll plainKey p.json) {loc : List Step}
    {node : Schema} (hm : markAt p.json loc = some node) : PlainLocation loc := by
  constructor
  · rw [Payload.json, markAt_obj] at hm
    obtain _ | ⟨k | i, loc⟩ := loc
    · cases hm
    · exact ⟨k, loc, rfl⟩
    · cases hm
  · obtain ⟨v, hv, -⟩ := Option.bind_eq_some_iff.mp hm
    exact plainStep_of_valueAt h hv

theorem mem_places_of_shows {s node : Schema} {path : String} (h : shows s path = some node) :
    (path, node) ∈ places s "" :=
  List.mem_reverse.mp (mem_of_lookup h)

theorem markAt_of_shows {p : Payload} (h : keysAll untypedKey p.json) {path : String} {node : Schema}
    (hs : shows (canonicalize p.json) path = some node) :
    ∃ loc, markAt p.json loc = some node ∧ path = pathText loc :=
  (mem_places_iff p.wf h "" path node).mp (mem_places_of_shows hs)

/-- What a location holds is shown, where no other location of the payload has its path text. -/
theorem shows_of_own {p : Payload} (h : keysAll untypedKey p.json) {loc : List Step}
    (hown : ∀ loc', pathText loc' = pathText loc → (markAt p.json loc').isSome → loc' = loc) :
    shows (canonicalize p.json) (pathText loc) = markAt p.json loc := by
  have back : ∀ node, shows (canonicalize p.json) (pathText loc) = some node →
      markAt p.json loc = some node := by
    intro node hs
    obtain ⟨loc', hm, hp⟩ := markAt_of_shows h hs
    rw [← hown loc' hp.symm (by rw [hm]; rfl)]
    exact hm
  cases hm : markAt p.json loc with
  | none =>
    refine Option.eq_none_iff_forall_not_mem.mpr fun node hs => ?_
    simp [back node hs] at hm
  | some node =>
    have hp : (pathText loc, node) ∈ (places (canonicalize p.json) "").reverse :=
      List.mem_reverse.mpr ((mem_places_iff p.wf h "" _ _).mpr ⟨loc, hm, rfl⟩)
    have hs : (shows (canonicalize p.json) (pathText loc)).isSome :=
      (lookup_isSome_iff_mem_keys _ _).mpr (List.mem_map.mpr ⟨_, hp, rfl⟩)
    obtain ⟨node', hs⟩ := Option.isSome_iff_exists.mp hs
    rw [hs, ← back node' hs, hm]

/-- Whatever a plain payload shows, it shows under the path text of one of its locations. -/
theorem location_of_shows {p : Payload} (h : keysAll plainKey p.json) {path : String}
    {node : Schema} (hs : shows (canonicalize p.json) path = some node) :
    ∃ loc, PlainLocation loc ∧ markAt p.json loc = some node ∧ path = pathText loc := by
  obtain ⟨loc, hm, hp⟩ := markAt_of_shows (untyped_of_plain h) hs
  exact ⟨loc, plainLocation_of_markAt h hm, hm, hp⟩

/-- The flattening loses nothing at the locations of a plain payload. -/
theorem shows_pathText {p : Payload} (h : keysAll plainKey p.json) {loc : List Step}
    (hl : PlainLocation loc) : shows (canonicalize p.json) (pathText loc) = markAt p.json loc := by
  refine shows_of_own (untyped_of_plain h) fun loc' hp hsome => ?_
  obtain ⟨node, hm⟩ := Option.isSome_iff_exists.mp hsome
  exact pathText_injective (plainLocation_of_markAt h hm) hl hp

end Plain

section Filled

mutual

/-- Neither the value nor anything in it is the empty object. -/
def full : Json → Bool
  | .obj fields => fields ≠ [] && fullFields fields
  | .arr items => fullItems items
  | .null | .bool _ | .num _ | .str _ => true

def fullItems : List Json → Bool
  | [] => true
  | x :: items => full x && fullItems items

def fullFields : List (String × Json) → Bool
  | [] => true
  | (_, v) :: fields => full v && fullFields fields

end

/-- No member and no element at any depth is the empty object. -/
def filled : Json → Bool
  | .obj fields => fullFields fields
  | j => full j

theorem full_arr_iff (items : List Json) : full (.arr items) ↔ ∀ x ∈ items, full x := by
  change fullItems items = true ↔ _
  induction items with
  | nil => simp [fullItems]
  | cons x items ih => simp [fullItems, ih]

theorem filled_obj_iff (fields : List (String × Json)) :
    filled (.obj fields) ↔ ∀ p ∈ fields, full p.2 := by
  change fullFields fields = true ↔ _
  induction fields with
  | nil => simp [fullFields]
  | cons p fields ih => simp [fullFields, ih]

theorem full_obj_iff (fields : List (String × Json)) :
    full (.obj fields) ↔ fields ≠ [] ∧ filled (.obj fields) := by
  simp [full, filled]

theorem filled_of_full {j : Json} (h : full j) : filled j := by
  cases j with
  | obj fields => exact ((full_obj_iff fields).mp h).2
  | null | bool _ | num _ | str _ | arr _ => exact h

/-- Somewhere in a full value there is a leaf or an array. -/
theorem exists_markAt {j : Json} (h : full j) : ∃ loc, (markAt j loc).isSome := by
  induction j using payload_induct with
  | scalar j k hs hc => exact ⟨[], by rw [markAt_scalar hs]; rfl⟩
  | arr items ih => exact ⟨[], rfl⟩
  | obj fields ih =>
    obtain ⟨hne, hf⟩ := (full_obj_iff fields).mp h
    obtain ⟨⟨k, v⟩, rest, rfl⟩ := List.exists_cons_of_ne_nil hne
    obtain ⟨loc, hl⟩ := ih (k, v) (by simp) ((filled_obj_iff _).mp hf (k, v) (by simp))
    exact ⟨.key k :: loc, by rw [markAt_obj]; simpa using hl⟩

theorem map_shape_eq {a b : Option Json} (ha : ∀ v ∈ a, full v) (hb : ∀ w ∈ b, full w)
    (hm : ∀ loc, a.bind (markAt · loc) = b.bind (markAt · loc))
    (h : ∀ v ∈ a, ∀ w ∈ b, (∀ loc, markAt v loc = markAt w loc) → shape v = shape w) :
    a.map shape = b.map shape := by
  cases a with
  | none =>
    cases b with
    | none => rfl
    | some w =>
      obtain ⟨loc, hl⟩ := exists_markAt (hb w rfl)
      have hn : none = markAt w loc := hm loc
      simp [← hn] at hl
  | some v =>
    cases b with
    | none =>
      obtain ⟨loc, hl⟩ := exists_markAt (ha v rfl)
      have hn : markAt v loc = none := hm loc
      simp [hn] at hl
    | some w => rw [Option.map_some, Option.map_some, h v rfl w rfl hm]

/-- Filled payloads with the same marks everywhere have one shape. -/
theorem shape_eq_of_markAt {p q : Json} (hp : filled p) (hq : filled q)
    (h : ∀ loc, markAt p loc = markAt q loc) : shape p = shape q := by
  have hroot := h []
  induction p using payload_induct generalizing q with
  | scalar p k hs hc =>
    rw [markAt_scalar hs] at hroot
    obtain ⟨l, hsl, -⟩ | ⟨ys, rfl⟩ | ⟨gs, rfl⟩ := payload_cases q
    · rw [markAt_scalar hsl] at hroot
      rw [hs, hsl, leafOf_injective (congrArg JsonText.sortKeys (Option.some.inj hroot))]
    · rw [markAt_arr] at hroot
      exact absurd (Option.some.inj hroot) (leafOf_ne_arrayMarker k)
    · rw [markAt_obj] at hroot
      cases hroot
  | arr xs ih =>
    rw [markAt_arr] at hroot
    obtain ⟨l, hsl, -⟩ | ⟨ys, rfl⟩ | ⟨gs, rfl⟩ := payload_cases q
    · rw [markAt_scalar hsl] at hroot
      exact absurd (Option.some.inj hroot).symm (leafOf_ne_arrayMarker l)
    · rw [shape, shape, shapeItems_eq, shapeItems_eq, Shape.array.injEq]
      refine List.ext_getElem? fun i => ?_
      rw [List.getElem?_map, List.getElem?_map]
      refine map_shape_eq (fun v hv => (full_arr_iff xs).mp hp v (List.mem_of_getElem? hv))
        (fun w hw => (full_arr_iff ys).mp hq w (List.mem_of_getElem? hw)) (fun loc => ?_)
        fun v hv w hw hm => ?_
      · simpa only [markAt_arr] using h (.item i :: loc)
      · have hx := List.mem_of_getElem? hv
        exact ih v hx (filled_of_full ((full_arr_iff xs).mp hp v hx))
          (filled_of_full ((full_arr_iff ys).mp hq w (List.mem_of_getElem? hw))) hm (hm [])
    · rw [markAt_obj] at hroot
      cases hroot
  | obj fs ih =>
    rw [markAt_obj] at hroot
    obtain ⟨l, hsl, -⟩ | ⟨ys, rfl⟩ | ⟨gs, rfl⟩ := payload_cases q
    · rw [markAt_scalar hsl] at hroot
      cases hroot
    · rw [markAt_arr] at hroot
      cases hroot
    · rw [shape, shape, Shape.object.injEq, funext_iff]
      intro k
      rw [shapeFields_eq, shapeFields_eq]
      have hfs := (filled_obj_iff fs).mp hp
      have hgs := (filled_obj_iff gs).mp hq
      refine map_shape_eq (fun v hv => hfs _ (mem_of_lookup hv))
        (fun w hw => hgs _ (mem_of_lookup hw)) (fun loc => ?_) fun v hv w hw hm => ?_
      · simpa only [markAt_obj] using h (.key k :: loc)
      · exact ih (k, v) (mem_of_lookup hv) (filled_of_full (hfs _ (mem_of_lookup hv)))
          (filled_of_full (hgs _ (mem_of_lookup hw))) hm (hm [])

end Filled

end SchemaPilot.PayloadPaths
