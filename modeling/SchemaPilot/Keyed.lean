import Mathlib.Data.List.Sort
import Mathlib.Data.List.Perm.Basic
import Mathlib.Data.Prod.Lex
import Mathlib.Tactic.Common

namespace SchemaPilot.Keyed

variable {κ α β : Type} [DecidableEq κ]

/-- The keys of an association list, in the order the entries were written. -/
abbrev keys (d : List (κ × α)) : List κ := d.map Prod.fst

/-- Assignment to one key of an insertion-ordered map: an existing entry is
overwritten where it stands, a new one goes to the end. -/
def set : List (κ × α) → κ → α → List (κ × α)
  | [], k, v => [(k, v)]
  | (k', v') :: rest, k, v =>
    if k' = k then (k', v) :: rest else (k', v') :: set rest k v

/-- Write every entry of the second map into the first. -/
def update (d e : List (κ × α)) : List (κ × α) :=
  e.foldl (fun d p => set d p.1 p.2) d

/-- Change the value under one key, if there is one. -/
def modify (d : List (κ × α)) (k : κ) (f : α → α) : List (κ × α) :=
  d.map (fun p => if p.1 = k then (p.1, f p.2) else p)

/-- The row that a search by key finds. -/
theorem mem_of_find?_key {f : α → κ} {rows : List α} {k : κ} {row : α}
    (h : rows.find? (fun r => f r = k) = some row) : row ∈ rows ∧ f row = k := by
  have hkey := List.find?_some h
  exact ⟨List.mem_of_find?_eq_some h, of_decide_eq_true hkey⟩

/-- With distinct keys, a search by the key of a row finds the row. -/
theorem find?_key {f : α → κ} {rows : List α} (h : (rows.map f).Nodup) {row : α} (hrow : row ∈ rows) :
    rows.find? (fun r => f r = f row) = some row := by
  have hsome : (rows.find? (fun r => f r = f row)).isSome :=
    List.find?_isSome.mpr ⟨row, hrow, decide_eq_true rfl⟩
  obtain ⟨found, hfound⟩ := Option.isSome_iff_exists.mp hsome
  obtain ⟨hmem, hkey⟩ := mem_of_find?_key hfound
  rw [hfound, List.inj_on_of_nodup_map h hmem hrow hkey]

/-- A row with a key of its own is added. -/
theorem nodup_map_concat {f : α → β} {rows : List α} (h : (rows.map f).Nodup) {row : α}
    (hne : ∀ r ∈ rows, f r ≠ f row) : ((rows ++ [row]).map f).Nodup := by
  rw [List.map_append, List.map_singleton]
  refine h.append (List.nodup_singleton _) (List.disjoint_singleton.mpr fun hmem => ?_)
  obtain ⟨r, hr, hkey⟩ := List.mem_map.mp hmem
  exact hne r hr hkey

theorem lookup_cons_ite (k j : κ) (v : α) (d : List (κ × α)) :
    ((k, v) :: d).lookup j = if j = k then some v else d.lookup j := by
  by_cases h : j = k
  · simp [h]
  · simp [List.lookup_cons, h, beq_eq_false_iff_ne.mpr h]

theorem lookup_set (d : List (κ × α)) (k j : κ) (v : α) :
    (set d k v).lookup j = if j = k then some v else d.lookup j := by
  induction d with
  | nil => simp only [set, lookup_cons_ite]
  | cons p d ih =>
    obtain ⟨k', v'⟩ := p
    by_cases hk : k' = k
    · subst k'
      simp only [set, if_true, lookup_cons_ite]
      split <;> rfl
    · simp only [set, if_neg hk, lookup_cons_ite, ih]
      by_cases hj : j = k'
      · simp [hj, hk]
      · simp [hj]

theorem keys_set (d : List (κ × α)) (k : κ) (v : α) :
    keys (set d k v) = if k ∈ keys d then keys d else keys d ++ [k] := by
  induction d with
  | nil => simp [set]
  | cons p d ih =>
    obtain ⟨k', v'⟩ := p
    by_cases hk : k' = k
    · simp [set, hk]
    · simp only [set, if_neg hk, keys, List.map_cons, List.mem_cons] at ih ⊢
      rw [ih]
      by_cases hm : k ∈ d.map Prod.fst <;> simp [hm, Ne.symm hk]

theorem set_of_not_mem {d : List (κ × α)} {k : κ} (h : k ∉ keys d) (v : α) : set d k v = d ++ [(k, v)] := by
  induction d with
  | nil => rfl
  | cons p d ih =>
    obtain ⟨k', v'⟩ := p
    obtain ⟨hne, hd⟩ := not_or.mp (mt List.mem_cons.mpr h)
    rw [set, if_neg (Ne.symm hne), ih hd, List.cons_append]

theorem nodup_set {d : List (κ × α)} (h : (keys d).Nodup) (k : κ) (v : α) :
    (keys (set d k v)).Nodup := by
  rw [keys_set]
  split
  · exact h
  · next hk =>
    refine List.nodup_append.mpr ⟨h, by simp, fun a ha b hb => ?_⟩
    rw [List.mem_singleton.mp hb]
    exact fun he => hk (he ▸ ha)

/-- The last write to a key decides what the updated map holds there. -/
theorem lookup_update (d e : List (κ × α)) (j : κ) :
    (update d e).lookup j = (e.reverse.lookup j).or (d.lookup j) := by
  induction e generalizing d with
  | nil => simp [update]
  | cons p e ih =>
    obtain ⟨k, v⟩ := p
    change (update (set d k v) e).lookup j = _
    rw [ih, lookup_set, List.reverse_cons, List.lookup_append]
    cases e.reverse.lookup j with
    | some w => rfl
    | none =>
      simp only [Option.none_or, lookup_cons_ite, List.lookup_nil]
      split <;> rfl

theorem nodup_update {d : List (κ × α)} (h : (keys d).Nodup) (e : List (κ × α)) :
    (keys (update d e)).Nodup := by
  induction e generalizing d with
  | nil => exact h
  | cons p e ih => exact ih (nodup_set h p.1 p.2)

theorem keys_modify (d : List (κ × α)) (k : κ) (f : α → α) : keys (modify d k f) = keys d := by
  rw [modify, keys, List.map_map]
  refine List.map_congr_left fun p _ => ?_
  simp only [Function.comp_apply]
  split <;> rfl

theorem mem_modify {d : List (κ × α)} {k : κ} {f : α → α} {p : κ × α} (h : p ∈ modify d k f) :
    p ∈ d ∨ p.1 = k ∧ ∃ v, (k, v) ∈ d ∧ p.2 = f v := by
  obtain ⟨⟨j, v⟩, hm, rfl⟩ := List.mem_map.mp h
  split
  · next hj =>
    subst hj
    exact .inr ⟨rfl, v, hm, rfl⟩
  · exact .inl hm

theorem lookup_modify (d : List (κ × α)) (k j : κ) (f : α → α) :
    (modify d k f).lookup j = if j = k then (d.lookup k).map f else d.lookup j := by
  induction d with
  | nil => simp [modify]
  | cons p d ih =>
    obtain ⟨k', v'⟩ := p
    rw [modify] at ih
    simp only [modify, List.map_cons]
    by_cases hk : k' = k
    · subst hk
      simp only [if_true, lookup_cons_ite, ih]
      by_cases hj : j = k' <;> simp [hj]
    · simp only [if_neg hk, lookup_cons_ite, ih]
      by_cases hj : j = k
      · simp [hj, Ne.symm hk]
      · simp [hj]

theorem mem_of_lookup {d : List (κ × α)} {k : κ} {v : α} (h : d.lookup k = some v) :
    (k, v) ∈ d := by
  obtain ⟨l₁, l₂, rfl, -⟩ := List.lookup_eq_some_iff.mp h
  simp

/-- With distinct keys, looking a key up is membership of its entry. -/
theorem lookup_eq_some_iff_mem {d : List (κ × α)} (hd : (keys d).Nodup) {k : κ} {v : α} :
    d.lookup k = some v ↔ (k, v) ∈ d := by
  induction d with
  | nil => simp
  | cons p d ih =>
    obtain ⟨k', v'⟩ := p
    obtain ⟨hk, hn⟩ := List.nodup_cons.mp hd
    rw [lookup_cons_ite]
    split
    · next he =>
      subst he
      have hnot : (k, v) ∉ d := fun hm => hk (List.mem_map.mpr ⟨(k, v), hm, rfl⟩)
      simp [hnot, eq_comm]
    · next he => simp [ih hn, he]

theorem lookup_isSome_iff_mem_keys (d : List (κ × α)) (k : κ) :
    (d.lookup k).isSome ↔ k ∈ keys d := by
  induction d with
  | nil => simp
  | cons p d ih =>
    obtain ⟨k', v'⟩ := p
    rw [lookup_cons_ite]
    by_cases he : k = k' <;> simp [he, ih]

theorem lookup_eq_none_iff_not_mem (d : List (κ × α)) (k : κ) :
    d.lookup k = none ↔ k ∉ keys d := by
  rw [← lookup_isSome_iff_mem_keys, ← Option.not_isSome_iff_eq_none]

theorem lookup_map_snd (f : α → β) (d : List (κ × α)) (k : κ) :
    (d.map (fun p => (p.1, f p.2))).lookup k = (d.lookup k).map f := by
  induction d with
  | nil => rfl
  | cons p d ih =>
    obtain ⟨k', v'⟩ := p
    simp only [List.map_cons, lookup_cons_ite, ih]
    split <;> rfl

theorem lookup_perm {d e : List (κ × α)} (hd : (keys d).Nodup) (h : d.Perm e) (k : κ) :
    d.lookup k = e.lookup k := by
  have he : (keys e).Nodup := (h.map Prod.fst).nodup_iff.mp hd
  ext v
  rw [lookup_eq_some_iff_mem hd, lookup_eq_some_iff_mem he, h.mem_iff]

theorem perm_of_lookup {d e : List (κ × α)} (hd : (keys d).Nodup) (he : (keys e).Nodup)
    (h : ∀ k, d.lookup k = e.lookup k) : d.Perm e := by
  refine (List.perm_ext_iff_of_nodup hd.of_map he.of_map).mpr fun ⟨k, v⟩ => ?_
  rw [← lookup_eq_some_iff_mem hd, ← lookup_eq_some_iff_mem he, h]

theorem eq_of_lookup {d e : List (κ × α)} (hd : (keys d).Nodup) (hk : keys d = keys e)
    (h : ∀ k, d.lookup k = e.lookup k) : d = e := by
  induction d generalizing e with
  | nil => exact (List.map_eq_nil_iff.mp hk.symm).symm
  | cons p d ih =>
    obtain _ | ⟨q, e⟩ := e
    · cases hk
    obtain ⟨k, v⟩ := p
    obtain ⟨j, w⟩ := q
    obtain ⟨rfl, hkeys : keys d = keys e⟩ := List.cons.inj hk
    obtain ⟨hnot, hn⟩ := List.nodup_cons.mp hd
    have hv := h k
    simp only [lookup_cons_ite, if_true] at hv
    rw [Option.some.inj hv, ih hn hkeys fun i => ?_]
    have hi := h i
    simp only [lookup_cons_ite] at hi
    by_cases hik : i = k
    · subst hik
      rw [(lookup_eq_none_iff_not_mem d i).mpr hnot,
        (lookup_eq_none_iff_not_mem e i).mpr (hkeys ▸ hnot)]
    · simpa [hik] using hi

/-- Entries written one after the other under distinct keys are all there. -/
theorem lookup_update_nil {e : List (κ × α)} (h : (keys e).Nodup) (j : κ) :
    (update [] e).lookup j = e.lookup j := by
  have hr : (keys e.reverse).Nodup := by
    rw [keys, List.map_reverse]
    exact List.nodup_reverse.mpr h
  rw [lookup_update, lookup_perm hr (List.reverse_perm e), List.lookup_nil, Option.or_none]

section Sorted

variable {κ α : Type} [LinearOrder κ]

/-- Entries in increasing key order; the sort is stable. -/
def sortByKey (d : List (κ × α)) : List (κ × α) :=
  d.insertionSort (fun p q => p.1 ≤ q.1)

theorem sortByKey_perm (d : List (κ × α)) : (sortByKey d).Perm d :=
  List.perm_insertionSort _ d

theorem nodup_sortByKey {d : List (κ × α)} (h : (keys d).Nodup) : (keys (sortByKey d)).Nodup :=
  ((sortByKey_perm d).map Prod.fst).nodup_iff.mpr h

theorem mem_sortByKey (d : List (κ × α)) (p : κ × α) : p ∈ sortByKey d ↔ p ∈ d :=
  (sortByKey_perm d).mem_iff

theorem lookup_sortByKey {d : List (κ × α)} (h : (keys d).Nodup) (k : κ) :
    (sortByKey d).lookup k = d.lookup k :=
  lookup_perm (nodup_sortByKey h) (sortByKey_perm d) k

theorem sortByKey_pairwise (d : List (κ × α)) : (sortByKey d).Pairwise (fun p q => p.1 ≤ q.1) := by
  have : IsTrans (κ × α) (fun p q => p.1 ≤ q.1) := ⟨fun _ _ _ => le_trans⟩
  have : Std.Total (fun p q : κ × α => p.1 ≤ q.1) := ⟨fun p q => le_total p.1 q.1⟩
  exact List.pairwise_insertionSort _ d

/-- A descending sort puts the only maximum first. -/
theorem head?_insertionSort_of_max (f : α → κ) {xs : List α} {x : α} (hx : x ∈ xs)
    (hmax : ∀ y ∈ xs, f y ≤ f x) (hunique : ∀ y ∈ xs, f y = f x → y = x) :
    (xs.insertionSort (fun a b => f b ≤ f a)).head? = some x := by
  have : IsTrans α (fun a b => f b ≤ f a) := ⟨fun _ _ _ hab hbc => le_trans hbc hab⟩
  have : Std.Total (fun a b : α => f b ≤ f a) := ⟨fun a b => le_total (f b) (f a)⟩
  have hsorted := List.pairwise_insertionSort (fun a b => f b ≤ f a) xs
  have hmem : ∀ y, y ∈ xs.insertionSort (fun a b => f b ≤ f a) ↔ y ∈ xs := fun _ => List.mem_insertionSort _
  cases h : xs.insertionSort (fun a b => f b ≤ f a) with
  | nil =>
    have hnil := (hmem x).mpr hx
    rw [h] at hnil
    cases hnil
  | cons y ys =>
    rw [h] at hmem hsorted
    have hy := (hmem y).mp List.mem_cons_self
    have hle : f x ≤ f y := by
      obtain rfl | hx := List.mem_cons.mp ((hmem x).mpr hx)
      · exact le_rfl
      · exact List.rel_of_pairwise_cons hsorted hx
    rw [List.head?_cons, hunique y hy (le_antisymm (hmax y hy) hle)]

/-- Sorting by key forgets the order of the entries and nothing else. -/
theorem sortByKey_eq_iff {d e : List (κ × α)} (hd : (keys d).Nodup) (he : (keys e).Nodup) :
    sortByKey d = sortByKey e ↔ ∀ k, d.lookup k = e.lookup k := by
  constructor
  · intro h k
    rw [← lookup_sortByKey hd, ← lookup_sortByKey he, h]
  · intro h
    have hp : (sortByKey d).Perm (sortByKey e) :=
      (sortByKey_perm d).trans ((perm_of_lookup hd he h).trans (sortByKey_perm e).symm)
    refine hp.eq_of_pairwise ?_ (sortByKey_pairwise d) (sortByKey_pairwise e)
    rintro ⟨k, v⟩ ⟨j, w⟩ hm hn hle hge
    obtain rfl : k = j := le_antisymm hle hge
    have hw : (k, w) ∈ sortByKey d := hp.mem_iff.mpr hn
    have hv := (lookup_eq_some_iff_mem (nodup_sortByKey hd)).mpr hm
    rw [(lookup_eq_some_iff_mem (nodup_sortByKey hd)).mpr hw] at hv
    rw [Option.some.inj hv]

theorem sortByKey_map_snd {β : Type} (f : α → β) (d : List (κ × α)) :
    sortByKey (d.map (fun p => (p.1, f p.2))) = (sortByKey d).map (fun p => (p.1, f p.2)) := by
  symm
  apply List.map_insertionSort
  intro p _ q _
  exact Iff.rfl

theorem sortByKey_of_pairwise {d : List (κ × α)} (h : d.Pairwise (fun p q => p.1 ≤ q.1)) :
    sortByKey d = d :=
  List.Pairwise.insertionSort_eq h

end Sorted

end SchemaPilot.Keyed
