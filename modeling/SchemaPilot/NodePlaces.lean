import SchemaPilot.Occurrences
import SchemaPilot.PrefixCode

namespace SchemaPilot.NodePlaces

open Keyed PrefixCode SchemaInfer SchemaNotes NodeSummary Occurrences

/-- From a value to one inside it: by an object's key, or to some element of an array. -/
inductive Step where
  | key (k : String)
  | item
  deriving DecidableEq

def Step.path (parent : String) : Step → String
  | .key k => joinPath parent k
  | .item => arrayPath parent

def render (pattern : List Step) : String := pattern.foldl Step.path ""

mutual

/-- The values that are visited, with the location pattern of each, in the order of `visits`. -/
def places (pattern : List Step) : Json → List (List Step × Json)
  | .obj fields => (pattern, .obj fields) :: fieldPlaces pattern fields
  | .arr items =>
    (pattern, .arr items) ::
      (if items.all isObject then memberPlaces (pattern ++ [Step.item]) items
      else itemPlaces (pattern ++ [Step.item]) items)
  | .null => [(pattern, .null)]
  | .bool b => [(pattern, .bool b)]
  | .num n => [(pattern, .num n)]
  | .str s => [(pattern, .str s)]

def fieldPlaces (pattern : List Step) : List (String × Json) → List (List Step × Json)
  | [] => []
  | (k, v) :: fields => places (pattern ++ [Step.key k]) v ++ fieldPlaces pattern fields

def memberPlaces (pattern : List Step) : List Json → List (List Step × Json)
  | [] => []
  | .obj fields :: items => fieldPlaces pattern fields ++ memberPlaces pattern items
  | _ :: items => memberPlaces pattern items

def itemPlaces (pattern : List Step) : List Json → List (List Step × Json)
  | [] => []
  | x :: items => places pattern x ++ itemPlaces pattern items

end

def walkPlaces (data : Json) : List (List Step × Json) :=
  match data with
  | .obj fields => fieldPlaces [] fields
  | v => places [] v

/-- The path of the node that a value contributes to. -/
def nodePath : List Step × Json → String
  | (pattern, .arr _) => orItems (render pattern)
  | (pattern, .obj _) => render pattern
  | (pattern, _) => if pattern = [] then "[root]" else render pattern

/-- The values that contribute to a node, with their patterns. -/
def contributors (data : Json) (n : SchemaNode) : List (List Step × Json) :=
  (walkPlaces data).filter (fun p => nodePath p = n.path)

section Walk

def located (p : List Step × Json) : String × Json := (nodePath p, p.2)

theorem fieldPlaces_eq (pattern : List Step) (fields : List (String × Json)) :
    fieldPlaces pattern fields = fields.flatMap (fun p => places (pattern ++ [Step.key p.1]) p.2) := by
  induction fields with
  | nil => rfl
  | cons p fields ih => rw [fieldPlaces, ih, List.flatMap_cons]

theorem memberPlaces_eq (pattern : List Step) (items : List Json) :
    memberPlaces pattern items = items.flatMap (fun x => fieldPlaces pattern (members x)) := by
  induction items with
  | nil => rfl
  | cons x items ih => cases x <;> simp [memberPlaces, members, fieldPlaces, ih]

theorem itemPlaces_eq (pattern : List Step) (items : List Json) :
    itemPlaces pattern items = items.flatMap (places pattern) := by
  induction items with
  | nil => rfl
  | cons x items ih => rw [itemPlaces, ih, List.flatMap_cons]

theorem render_key (pattern : List Step) (k : String) :
    render (pattern ++ [Step.key k]) = joinPath (render pattern) k :=
  List.foldl_concat ..

theorem render_item (pattern : List Step) : render (pattern ++ [Step.item]) = arrayPath (render pattern) :=
  List.foldl_concat ..

theorem map_flatMap_eq {α : Type} {f : α → List (String × Json)} {g : α → List (List Step × Json)}
    {xs : List α} (h : ∀ x ∈ xs, f x = (g x).map located) : xs.flatMap f = (xs.flatMap g).map located := by
  rw [List.map_flatMap]
  exact List.flatMap_congr h

/-- The visits go to these places, below the root. -/
theorem visits_eq (v : Json) (pattern : List Step) :
    (pattern ≠ [] ∨ (∃ items, v = .arr items) →
        visits (render pattern) v = (places pattern v).map located) ∧
      fieldVisits (render pattern) (members v) = (fieldPlaces pattern (members v)).map located := by
  induction v using JsonOf.induct generalizing pattern with
  | null | bool b | num n | str s =>
    refine ⟨fun h => ?_, rfl⟩
    obtain hne | ⟨items, heq⟩ := h
    · simp [visits, places, located, nodePath, hne]
    · cases heq
  | obj fields ih =>
    have hf : fieldVisits (render pattern) fields = (fieldPlaces pattern fields).map located := by
      rw [fieldVisits_eq, fieldPlaces_eq]
      refine map_flatMap_eq fun p hp => ?_
      rw [← render_key]
      exact (ih p hp _).1 (.inl (by simp))
    refine ⟨fun _ => ?_, hf⟩
    rw [visits, places, hf]
    rfl
  | arr items ih =>
    refine ⟨fun _ => ?_, rfl⟩
    rw [visits, places, List.map_cons, ← render_item]
    congr 1
    split
    · rw [memberVisits_eq, memberPlaces_eq]
      exact map_flatMap_eq fun x hx => (ih x hx _).2
    · rw [itemVisits_eq, itemPlaces_eq]
      exact map_flatMap_eq fun x hx => (ih x hx _).1 (.inl (by simp))

theorem occurrences_eq (data : Json) : occurrences data = (walkPlaces data).map located := by
  cases data with
  | obj fields => exact (visits_eq (.obj fields) []).2
  | arr items => exact (visits_eq (.arr items) []).1 (.inr ⟨items, rfl⟩)
  | null | bool b | num n | str s => rfl

/-- A node is made of the notes of its contributors. -/
theorem valuesAt_eq (data : Json) (n : SchemaNode) :
    valuesAt data n.path = (contributors data n).map Prod.snd := by
  rw [valuesAt, occurrences_eq, contributors, List.filterMap_map]
  induction walkPlaces data with
  | nil => rfl
  | cons p ps ih =>
    by_cases h : nodePath p = n.path <;> simp [located, h, ih]

end Walk

section Plain

/-- No key has a dot or ends like the path of items, and the first one is not empty. -/
structure Plain (pattern : List Step) : Prop where
  first : pattern.head? ≠ some (.key "")
  keys : ∀ k, .key k ∈ pattern → '.' ∉ k.toList ∧ ¬"[*]".toList <:+ k.toList

theorem arrayPath_eq (parent : String) : arrayPath parent = parent ++ "[*]" := by
  rw [arrayPath]
  split
  · next h => rw [h, String.empty_append]
  · rfl

theorem Plain.init {pattern : List Step} {s : Step} (h : Plain (pattern ++ [s])) : Plain pattern := by
  refine ⟨fun hempty => h.first ?_, fun k hk => h.keys k (List.mem_append_left _ hk)⟩
  rw [List.head?_append, hempty, Option.some_or]

theorem Plain.last {pattern : List Step} {k : String} (h : Plain (pattern ++ [Step.key k])) :
    '.' ∉ k.toList ∧ ¬"[*]".toList <:+ k.toList :=
  h.keys k (List.mem_append_right _ List.mem_cons_self)

theorem render_eq_empty_iff {pattern : List Step} (h : Plain pattern) :
    render pattern = "" ↔ pattern = [] := by
  refine ⟨fun hempty => ?_, fun hnil => hnil ▸ rfl⟩
  induction pattern using List.reverseRecOn with
  | nil => rfl
  | append_singleton pattern s ih =>
    cases s with
    | item => exact absurd hempty (render_item pattern ▸ arrayPath_ne_empty _)
    | key k =>
      by_cases hparent : render pattern = ""
      · obtain rfl := ih h.init hparent
        obtain rfl : k = "" := hempty
        exact absurd rfl h.first
      · exact absurd hempty (render_key pattern k ▸ joinPath_ne_empty hparent k)

/-- A key comes after a dot, unless it is the first step. -/
theorem render_key_toList {pattern : List Step} (h : Plain pattern) (k : String) :
    (pattern = [] ∧ (render (pattern ++ [Step.key k])).toList = k.toList) ∨
      (pattern ≠ [] ∧
        (render (pattern ++ [Step.key k])).toList = (render pattern).toList ++ '.' :: k.toList) := by
  rw [render_key, joinPath]
  by_cases hnil : pattern = []
  · rw [if_pos ((render_eq_empty_iff h).mpr hnil)]
    exact .inl ⟨hnil, rfl⟩
  · rw [if_neg fun hempty => hnil ((render_eq_empty_iff h).mp hempty)]
    exact .inr ⟨hnil, by simp⟩

theorem suffix_of_suffix_append {w u k : List Char} {sep : Char} (h : w <:+ u ++ sep :: k) (hw : sep ∉ w) :
    w <:+ k := by
  obtain hsuffix | hsuffix := List.suffix_or_suffix_of_suffix h (List.suffix_append u (sep :: k))
  · obtain rfl | hk := List.suffix_cons_iff.mp hsuffix
    · exact absurd List.mem_cons_self hw
    · exact hk
  · exact absurd (hsuffix.subset List.mem_cons_self) hw

theorem append_cons_inj_right {u v s t : List Char} {sep : Char} (hs : sep ∉ s) (ht : sep ∉ t)
    (h : u ++ sep :: s = v ++ sep :: t) : u = v ∧ s = t := by
  have hrev := congrArg List.reverse h
  simp only [List.reverse_append, List.reverse_cons, List.append_assoc, List.cons_append,
    List.nil_append] at hrev
  obtain ⟨hst, huv⟩ := append_cons_inj (by simpa using hs) (by simpa using ht) hrev
  exact ⟨List.reverse_injective huv, List.reverse_injective hst⟩

theorem key_ne_item {p q : List Step} {k : String} (h : Plain (p ++ [Step.key k])) :
    render (p ++ [Step.key k]) ≠ render (q ++ [Step.item]) := by
  intro heq
  have hsuffix : "[*]".toList <:+ (render (p ++ [Step.key k])).toList := by
    rw [heq, render_item, arrayPath_eq, String.toList_append]
    exact List.suffix_append ..
  obtain ⟨-, htext⟩ | ⟨-, htext⟩ := render_key_toList h.init k
  · rw [htext] at hsuffix
    exact h.last.2 hsuffix
  · rw [htext] at hsuffix
    exact h.last.2 (suffix_of_suffix_append hsuffix (by decide))

theorem key_inj {p q : List Step} {k l : String} (hp : Plain (p ++ [Step.key k]))
    (hq : Plain (q ++ [Step.key l])) (h : render (p ++ [Step.key k]) = render (q ++ [Step.key l])) :
    k = l ∧ render p = render q := by
  obtain ⟨rfl, hk⟩ | ⟨-, hk⟩ := render_key_toList hp.init k
  · rw [h] at hk
    obtain ⟨rfl, hl⟩ | ⟨-, hl⟩ := render_key_toList hq.init l
    · rw [hl] at hk
      exact ⟨(String.toList_inj.mp hk).symm, rfl⟩
    · -- the first key would have the dot before the other one
      have hdot : '.' ∈ k.toList := by
        rw [← hk, hl]
        exact List.mem_append_right _ List.mem_cons_self
      exact absurd hdot hp.last.1
  · rw [h] at hk
    obtain ⟨rfl, hl⟩ | ⟨-, hl⟩ := render_key_toList hq.init l
    · have hdot : '.' ∈ l.toList := by
        rw [← hl, hk]
        exact List.mem_append_right _ List.mem_cons_self
      exact absurd hdot hq.last.1
    · rw [hl] at hk
      obtain ⟨hparent, hkey⟩ := append_cons_inj_right hq.last.1 hp.last.1 hk
      exact ⟨(String.toList_inj.mp hkey).symm, (String.toList_inj.mp hparent).symm⟩

theorem render_injective {p q : List Step} (hp : Plain p) (hq : Plain q) (h : render p = render q) : p = q := by
  induction p using List.reverseRecOn generalizing q with
  | nil => exact ((render_eq_empty_iff hq).mp h.symm).symm
  | append_singleton p s ih =>
    obtain rfl | ⟨q, t, rfl⟩ := q.eq_nil_or_concat
    · exact (render_eq_empty_iff hp).mp h
    · rw [List.concat_eq_append] at hq h ⊢
      cases s with
      | key k =>
        cases t with
        | key l =>
          obtain ⟨rfl, hparent⟩ := key_inj hp hq h
          rw [ih hp.init hq.init hparent]
        | item => exact absurd h (key_ne_item hp)
      | item =>
        cases t with
        | key l => exact absurd h.symm (key_ne_item hq)
        | item =>
          rw [render_item, render_item, arrayPath_eq, arrayPath_eq, String.append_left_inj] at h
          rw [ih hp.init hq.init h]

end Plain

section Contributors

/-- Only a value itself has its pattern, all that is inside it has a longer one. -/
theorem length_lt_of_mem_places (v : Json) (pattern : List Step) (p : List Step × Json) :
    (p ∈ places pattern v → p = (pattern, v) ∨ pattern.length < p.1.length) ∧
      (p ∈ fieldPlaces pattern (members v) → pattern.length < p.1.length) := by
  induction v using JsonOf.induct generalizing pattern with
  | null | bool b | num n | str s =>
    exact ⟨fun h => .inl (List.mem_singleton.mp h), fun h => absurd h List.not_mem_nil⟩
  | obj fields ih =>
    have hf : p ∈ fieldPlaces pattern fields → pattern.length < p.1.length := by
      rw [fieldPlaces_eq]
      intro h
      obtain ⟨q, hq, hmem⟩ := List.mem_flatMap.mp h
      obtain rfl | hlt := (ih q hq _).1 hmem
      · simp
      · exact (by simp : pattern.length < (pattern ++ [Step.key q.1]).length).trans hlt
    refine ⟨fun h => ?_, hf⟩
    obtain rfl | h := List.mem_cons.mp h
    · exact .inl rfl
    · exact .inr (hf h)
  | arr items ih =>
    refine ⟨fun h => ?_, fun h => absurd h List.not_mem_nil⟩
    have hlt : pattern.length < (pattern ++ [Step.item]).length := by simp
    obtain rfl | h := List.mem_cons.mp h
    · exact .inl rfl
    · right
      split at h
      · rw [memberPlaces_eq] at h
        obtain ⟨x, hx, hmem⟩ := List.mem_flatMap.mp h
        exact hlt.trans ((ih x hx _).2 hmem)
      · rw [itemPlaces_eq] at h
        obtain ⟨x, hx, hmem⟩ := List.mem_flatMap.mp h
        obtain rfl | hlonger := (ih x hx _).1 hmem
        · exact hlt
        · exact hlt.trans hlonger

/-- A value that is visited at the root is an array, or a scalar that is visited alone. -/
theorem root_cases {data : Json} {p : List Step × Json} (h : p ∈ walkPlaces data) (hroot : p.1 = []) :
    (∃ items, p.2 = .arr items) ∨ walkPlaces data = [p] := by
  have hlen : ¬([] : List Step).length < p.1.length := by simp [hroot]
  cases data with
  | obj fields => exact absurd ((length_lt_of_mem_places (.obj fields) [] p).2 h) hlen
  | arr items =>
    obtain rfl | hlt := (length_lt_of_mem_places (.arr items) [] p).1 h
    · exact .inl ⟨items, rfl⟩
    · exact absurd hlt hlen
  | null | bool b | num n | str s => exact .inr (by rw [List.mem_singleton.mp h]; rfl)

theorem nodePath_of_plain {p : List Step × Json} (h : Plain p.1) (hne : p.1 ≠ []) :
    nodePath p = render p.1 := by
  obtain ⟨pattern, v⟩ := p
  cases v with
  | obj fields => rfl
  | arr items => exact if_neg fun hempty => hne ((render_eq_empty_iff h).mp hempty)
  | null | bool b | num n | str s => exact if_neg hne

theorem plain_item : Plain [.item] := ⟨by decide, fun _ hk => by simp at hk⟩

/-- What shares a node with the root is an element of it. -/
theorem pattern_of_root {data : Json} {p q : List Step × Json} (hp : p ∈ walkPlaces data)
    (hq : q ∈ walkPlaces data) (hroot : p.1 = []) (hplain : Plain q.1) (h : nodePath p = nodePath q) :
    q.1 = [] ∨ q.1 = [.item] := by
  by_cases hnil : q.1 = []
  · exact .inl hnil
  · obtain ⟨items, harr⟩ | halone := root_cases hp hroot
    · right
      have hpath : nodePath p = render [.item] := by
        rw [← Prod.mk.eta (p := p), hroot, harr]
        rfl
      rw [nodePath_of_plain hplain hnil, hpath] at h
      exact (render_injective plain_item hplain h).symm
    · rw [halone, List.mem_singleton] at hq
      exact .inl (hq ▸ hroot)

/-- Plain patterns of one node are the same, or they are those of a root array and its elements. -/
theorem pattern_of_plain {data : Json} {p q : List Step × Json} (hp : p ∈ walkPlaces data)
    (hq : q ∈ walkPlaces data) (h : nodePath p = nodePath q) (hplain : Plain p.1) (hplain' : Plain q.1) :
    p.1 = q.1 ∨ (p.1 = [] ∧ q.1 = [.item]) ∨ (p.1 = [.item] ∧ q.1 = []) := by
  by_cases hroot : p.1 = []
  · obtain hnil | hitem := pattern_of_root hp hq hroot hplain' h
    · exact .inl (hroot.trans hnil.symm)
    · exact .inr (.inl ⟨hroot, hitem⟩)
  · by_cases hroot' : q.1 = []
    · obtain hnil | hitem := pattern_of_root hq hp hroot' hplain h.symm
      · exact absurd hnil hroot
      · exact .inr (.inr ⟨hitem, hroot'⟩)
    · rw [nodePath_of_plain hplain hroot, nodePath_of_plain hplain' hroot'] at h
      exact .inl (render_injective hplain hplain' h)

theorem contributors_ne_nil {data : Json} {n : SchemaNode} (hn : n ∈ inferSchema data) :
    contributors data n ≠ [] := by
  intro hnil
  obtain ⟨s, -, hne, -⟩ := summary_of_mem hn
  have hhead := head?_notesAt data n.path
  rw [valuesAt_eq, hnil, List.map_nil, List.head?_nil, Option.map_none, List.head?_eq_none_iff] at hhead
  exact hne hhead

/-- A node holds what its contributors note. Those of them with plain keys have one pattern, or they are
a root array and elements of it. -/
theorem pattern_eq_of_contributors (data : Json) (n : SchemaNode) (hn : n ∈ inferSchema data) :
    contributors data n ≠ [] ∧ (contributors data n).map Prod.snd = valuesAt data n.path ∧
      ∀ p ∈ contributors data n, ∀ q ∈ contributors data n, Plain p.1 → Plain q.1 →
        p.1 = q.1 ∨ (p.1 = [] ∧ q.1 = [.item]) ∨ (p.1 = [.item] ∧ q.1 = []) := by
  refine ⟨contributors_ne_nil hn, (valuesAt_eq data n).symm, fun p hp q hq hplain hplain' => ?_⟩
  obtain ⟨hp, hpath⟩ := List.mem_filter.mp hp
  obtain ⟨hq, hpath'⟩ := List.mem_filter.mp hq
  have h : nodePath p = nodePath q := (of_decide_eq_true hpath).trans (of_decide_eq_true hpath').symm
  exact pattern_of_plain hp hq h hplain hplain'

theorem pattern_eq_of_contributors_id :
    let data : Json := .obj [("users", .arr [.obj [("id", .num (.int 1))], .obj [("id", .num (.int 2))]])]
    ∃ n ∈ inferSchema data, n.path = "users[*].id" ∧
      ∃ p ∈ contributors data n, ∃ q ∈ contributors data n, p.2 ≠ q.2 ∧ p.1 = q.1 := by
  intro data
  let pattern : List Step := [.key "users", .item, .key "id"]
  have hplain : Plain pattern := by
    refine ⟨by decide, fun k hk => ?_⟩
    obtain rfl | rfl : k = "users" ∨ k = "id" := by simpa [pattern] using hk
    · decide
    · decide
  obtain ⟨n, hn, hpath⟩ : ∃ n ∈ inferSchema data, n.path = "users[*].id" := by
    rw [← List.mem_map]
    decide +kernel
  have hmem : ∀ i ∈ [1, 2], (pattern, JsonOf.num (.int i)) ∈ contributors data n := by
    rw [contributors, hpath]
    decide +kernel
  have hone := hmem 1 (by decide)
  have htwo := hmem 2 (by decide)
  obtain ⟨-, -, hpatterns⟩ := pattern_eq_of_contributors data n hn
  obtain hsame | ⟨hroot, -⟩ | ⟨hroot, -⟩ := hpatterns _ hone _ htwo hplain hplain
  · exact ⟨n, hn, hpath, _, hone, _, htwo, by decide, hsame⟩
  · cases hroot
  · cases hroot

/-- A key with a dot is taken for a path, and a root array shares its node with its elements. -/
theorem merged_places :
    let inputs : List (Json × String) := [
      (.obj [("a", .obj [("b", .num (.int 1))]), ("a.b", .str "")], "a.b"), (.arr [.num (.int 1)], "[*]")]
    ∀ e ∈ inputs,
      ∃ n ∈ inferSchema e.1, n.path = e.2 ∧ n.type = .mixed ∧
        ∃ p ∈ contributors e.1 n, ∃ q ∈ contributors e.1 n, p.1 ≠ q.1 := by
  decide +kernel

end Contributors

end SchemaPilot.NodePlaces
