import SchemaPilot.Keyed
import Mathlib.Data.List.Forall2

namespace SchemaPilot.OuterJoin

open Keyed

variable {κ α β γ : Type} [LinearOrder κ]

/-- The keys of the first map that the second one lacks, in increasing order. -/
def onlyKeys (d : List (κ × α)) (e : List (κ × β)) : List κ :=
  ((keys d).filter (· ∉ keys e)).insertionSort (· ≤ ·)

def commonKeys (d : List (κ × α)) (e : List (κ × β)) : List κ :=
  ((keys d).filter (· ∈ keys e)).insertionSort (· ≤ ·)

/-- The common keys with what the two maps hold there. -/
def commonEntries (d : List (κ × α)) (e : List (κ × β)) : List (κ × α × β) :=
  (commonKeys d e).filterMap (fun k => (d.lookup k).bind fun a => (e.lookup k).map fun b => (k, a, b))

/-- What a join makes of a key: of an entry on the left alone, on the right alone, on both sides. -/
structure Join (κ α β γ : Type) where
  left : κ → α → Option γ
  right : κ → β → Option γ
  both : κ → α → β → Option γ

namespace Join

variable (j : Join κ α β γ)

/-- The result at a key, from what the two maps hold there. -/
def entry (k : κ) : Option α → Option β → Option γ
  | some a, none => j.left k a
  | none, some b => j.right k b
  | some a, some b => j.both k a b
  | none, none => none

def leftPart (d : List (κ × α)) (e : List (κ × β)) : List γ :=
  (onlyKeys d e).filterMap (fun k => (d.lookup k).bind (j.left k))

def rightPart (d : List (κ × α)) (e : List (κ × β)) : List γ :=
  (onlyKeys e d).filterMap (fun k => (e.lookup k).bind (j.right k))

def bothPart (d : List (κ × α)) (e : List (κ × β)) : List γ :=
  (commonKeys d e).filterMap (fun k => (d.lookup k).bind fun a => (e.lookup k).bind fun b => j.both k a b)

/-- The entries of the left alone, of the right alone, and of both, each part in key order. -/
def join (d : List (κ × α)) (e : List (κ × β)) : List γ :=
  j.leftPart d e ++ j.rightPart d e ++ j.bothPart d e

/-- Every result is one of the key it is made for. -/
structure Files (key : γ → κ) : Prop where
  left : ∀ k a, ∀ c ∈ j.left k a, key c = k
  right : ∀ k b, ∀ c ∈ j.right k b, key c = k
  both : ∀ k a b, ∀ c ∈ j.both k a b, key c = k

/-- The join with its sides exchanged. -/
def swap : Join κ β α γ where
  left := j.right
  right := j.left
  both k b a := j.both k a b

end Join

section FilterMap

omit [LinearOrder κ]

variable {key : γ → κ} {f : κ → Option γ}

theorem sublist_keys (h : ∀ k, ∀ c ∈ f k, key c = k) (ks : List κ) :
    ((ks.filterMap f).map key).Sublist ks := by
  induction ks with
  | nil => exact .slnil
  | cons k ks ih =>
    cases hk : f k with
    | none =>
      rw [List.filterMap_cons_none hk]
      exact ih.cons k
    | some c =>
      rw [List.filterMap_cons_some hk, List.map_cons, h k c hk]
      exact ih.cons_cons k

theorem mem_map_filterMap (h : ∀ k, ∀ c ∈ f k, key c = k) {ks : List κ} {k : κ} :
    k ∈ (ks.filterMap f).map key ↔ k ∈ ks ∧ (f k).isSome := by
  simp only [List.mem_map, List.mem_filterMap]
  constructor
  · rintro ⟨c, ⟨k', hk', hc⟩, rfl⟩
    obtain rfl := h k' c hc
    exact ⟨hk', Option.isSome_iff_exists.mpr ⟨c, hc⟩⟩
  · rintro ⟨hk, hsome⟩
    obtain ⟨c, hc⟩ := Option.isSome_iff_exists.mp hsome
    exact ⟨c, ⟨k, hk, hc⟩, h k c hc⟩

theorem filter_filterMap [DecidableEq κ] (h : ∀ k, ∀ c ∈ f k, key c = k) {ks : List κ}
    (hks : ks.Nodup) (k : κ) :
    (ks.filterMap f).filter (fun c => key c = k) = if k ∈ ks then (f k).toList else [] := by
  induction ks with
  | nil => rfl
  | cons j ks ih =>
    obtain ⟨hj, hnodup⟩ := List.nodup_cons.mp hks
    have hcons : ((j :: ks).filterMap f) = (f j).toList ++ ks.filterMap f := by
      cases hfj : f j with
      | none => exact List.filterMap_cons_none hfj
      | some c => exact List.filterMap_cons_some hfj
    have hhead : (f j).toList.filter (fun c => key c = k) = if k = j then (f j).toList else [] := by
      cases hfj : f j with
      | none => simp
      | some c =>
        have hkey : key c = j := h j c hfj
        rw [Option.toList_some, List.filter_singleton, hkey, Bool.cond_decide]
        exact if_congr eq_comm rfl rfl
    rw [hcons, List.filter_append, hhead, ih hnodup]
    by_cases hk : k = j
    · subst hk
      simp [hj]
    · simp [hk]

end FilterMap

section Keys

variable (d : List (κ × α)) (e : List (κ × β))

theorem mem_onlyKeys {k : κ} : k ∈ onlyKeys d e ↔ k ∈ keys d ∧ k ∉ keys e := by
  rw [onlyKeys, List.mem_insertionSort, List.mem_filter, decide_eq_true_eq]

theorem mem_commonKeys {k : κ} : k ∈ commonKeys d e ↔ k ∈ keys d ∧ k ∈ keys e := by
  rw [commonKeys, List.mem_insertionSort, List.mem_filter, decide_eq_true_eq]

theorem mem_commonEntries {k : κ} {a : α} {b : β} :
    (k, a, b) ∈ commonEntries d e ↔ d.lookup k = some a ∧ e.lookup k = some b := by
  simp only [commonEntries, List.mem_filterMap, mem_commonKeys, Option.bind_eq_some_iff,
    Option.map_eq_some_iff, Prod.mk.injEq]
  constructor
  · rintro ⟨j, -, a', ha, b', hb, rfl, rfl, rfl⟩
    exact ⟨ha, hb⟩
  · rintro ⟨ha, hb⟩
    have hd : k ∈ keys d := (lookup_isSome_iff_mem_keys d k).mp (Option.isSome_of_eq_some ha)
    have he : k ∈ keys e := (lookup_isSome_iff_mem_keys e k).mp (Option.isSome_of_eq_some hb)
    exact ⟨k, ⟨hd, he⟩, a, ha, b, hb, rfl, rfl, rfl⟩

/-- Distinct keys come out in strictly increasing order. -/
theorem sorted_filter {ks : List κ} (h : ks.Nodup) (p : κ → Bool) :
    ((ks.filter p).insertionSort (· ≤ ·)).Pairwise (· < ·) := by
  have hnodup : ((ks.filter p).insertionSort (· ≤ ·)).Nodup :=
    (List.perm_insertionSort _ _).nodup_iff.mpr (h.filter p)
  have hle := List.pairwise_insertionSort (· ≤ ·) (ks.filter p)
  exact (hle.and hnodup).imp fun h => lt_of_le_of_ne h.1 h.2

variable {d e}

theorem sorted_onlyKeys (hd : (keys d).Nodup) : (onlyKeys d e).Pairwise (· < ·) :=
  sorted_filter hd _

theorem sorted_commonKeys (hd : (keys d).Nodup) : (commonKeys d e).Pairwise (· < ·) :=
  sorted_filter hd _

theorem nodup_of_sorted {ks : List κ} (h : ks.Pairwise (· < ·)) : ks.Nodup := h.imp ne_of_lt

/-- The common keys are the same from both sides. -/
theorem commonKeys_comm (hd : (keys d).Nodup) (he : (keys e).Nodup) :
    commonKeys d e = commonKeys e d := by
  have hp : (commonKeys d e).Perm (commonKeys e d) := by
    refine (List.perm_ext_iff_of_nodup (nodup_of_sorted (sorted_commonKeys hd))
      (nodup_of_sorted (sorted_commonKeys he))).mpr fun k => ?_
    rw [mem_commonKeys, mem_commonKeys, and_comm]
  exact hp.eq_of_pairwise (fun a b _ _ hab hba => absurd hba (lt_asymm hab)) (sorted_commonKeys hd)
    (sorted_commonKeys he)

end Keys

namespace Join

variable {j : Join κ α β γ} {key : γ → κ} {d : List (κ × α)} {e : List (κ × β)}

theorem Files.leftPart (h : j.Files key) (k : κ) :
    ∀ c ∈ (d.lookup k).bind (j.left k), key c = k := by
  cases d.lookup k with
  | none => exact nofun
  | some a => exact h.left k a

theorem Files.rightPart (h : j.Files key) (k : κ) :
    ∀ c ∈ (e.lookup k).bind (j.right k), key c = k := by
  cases e.lookup k with
  | none => exact nofun
  | some b => exact h.right k b

theorem Files.bothPart (h : j.Files key) (k : κ) :
    ∀ c ∈ (d.lookup k).bind fun a => (e.lookup k).bind fun b => j.both k a b, key c = k := by
  cases d.lookup k with
  | none => exact nofun
  | some a =>
    cases e.lookup k with
    | none => exact nofun
    | some b => exact h.both k a b

theorem mem_map_leftPart (h : j.Files key) (k : κ) :
    k ∈ (j.leftPart d e).map key ↔
      k ∈ keys d ∧ k ∉ keys e ∧ ((d.lookup k).bind (j.left k)).isSome := by
  rw [leftPart, mem_map_filterMap h.leftPart, mem_onlyKeys, and_assoc]

theorem mem_map_rightPart (h : j.Files key) (k : κ) :
    k ∈ (j.rightPart d e).map key ↔
      k ∈ keys e ∧ k ∉ keys d ∧ ((e.lookup k).bind (j.right k)).isSome := by
  rw [rightPart, mem_map_filterMap h.rightPart, mem_onlyKeys, and_assoc]

theorem mem_map_bothPart (h : j.Files key) (k : κ) :
    k ∈ (j.bothPart d e).map key ↔
      ∃ a b, d.lookup k = some a ∧ e.lookup k = some b ∧ (j.both k a b).isSome := by
  rw [bothPart, mem_map_filterMap h.bothPart, mem_commonKeys, ← lookup_isSome_iff_mem_keys,
    ← lookup_isSome_iff_mem_keys]
  cases d.lookup k with
  | none => simp
  | some a => cases e.lookup k <;> simp

/-- What the join has of a key. -/
theorem filter_join (h : j.Files key) (hd : (keys d).Nodup) (he : (keys e).Nodup) (k : κ) :
    (j.join d e).filter (fun c => key c = k) = (j.entry k (d.lookup k) (e.lookup k)).toList := by
  rw [join, List.filter_append, List.filter_append, leftPart, rightPart, bothPart,
    filter_filterMap h.leftPart (nodup_of_sorted (sorted_onlyKeys hd)),
    filter_filterMap h.rightPart (nodup_of_sorted (sorted_onlyKeys he)),
    filter_filterMap h.bothPart (nodup_of_sorted (sorted_commonKeys hd))]
  simp only [mem_onlyKeys, mem_commonKeys, ← lookup_isSome_iff_mem_keys]
  cases d.lookup k with
  | none => cases e.lookup k <;> simp [Join.entry]
  | some a => cases e.lookup k <;> simp [Join.entry]

theorem mem_join (h : j.Files key) (hd : (keys d).Nodup) (he : (keys e).Nodup) (c : γ) :
    c ∈ j.join d e ↔ j.entry (key c) (d.lookup (key c)) (e.lookup (key c)) = some c := by
  have hfilter := filter_join h hd he (key c)
  rw [← Option.mem_toList, ← hfilter, List.mem_filter, decide_eq_true_eq, and_iff_left rfl]

/-- The join has at most one entry of a key. -/
theorem nodup_join (h : j.Files key) (hd : (keys d).Nodup) (he : (keys e).Nodup) :
    ((j.join d e).map key).Nodup := by
  refine List.nodup_iff_count_le_one.mpr fun k => ?_
  have hcount : ((j.join d e).map key).count k = ((j.join d e).filter (fun c => key c = k)).length := by
    rw [List.count, List.countP_map, List.countP_eq_length_filter]
    rfl
  rw [hcount, filter_join h hd he]
  exact Option.length_toList_le

/-- Each part is in strictly increasing key order. -/
theorem sorted_leftPart (h : j.Files key) (hd : (keys d).Nodup) :
    ((j.leftPart d e).map key).Pairwise (· < ·) :=
  (sorted_onlyKeys hd).sublist (sublist_keys h.leftPart _)

theorem sorted_rightPart (h : j.Files key) (he : (keys e).Nodup) :
    ((j.rightPart d e).map key).Pairwise (· < ·) :=
  (sorted_onlyKeys he).sublist (sublist_keys h.rightPart _)

theorem sorted_bothPart (h : j.Files key) (hd : (keys d).Nodup) :
    ((j.bothPart d e).map key).Pairwise (· < ·) :=
  (sorted_commonKeys hd).sublist (sublist_keys h.bothPart _)

/-- Two joins whose results are related at every key, the sides of the second exchanged. -/
structure Mirrors (R : γ → γ → Prop) (j : Join κ α β γ) (j' : Join κ β α γ) : Prop where
  left : ∀ k a, Option.Rel R (j.left k a) (j'.right k a)
  right : ∀ k b, Option.Rel R (j.right k b) (j'.left k b)
  both : ∀ k a b, Option.Rel R (j.both k a b) (j'.both k b a)

omit [LinearOrder κ] in
theorem forall₂_filterMap {R : γ → γ → Prop} {f g : κ → Option γ}
    (h : ∀ k, Option.Rel R (f k) (g k))
    (ks : List κ) : List.Forall₂ R (ks.filterMap f) (ks.filterMap g) := by
  have hrel : Relator.LiftFun Eq (Option.Rel R) f g := by
    rintro k _ rfl
    exact h k
  exact List.rel_filterMap hrel (List.forall₂_refl ks)

/-- The join of the exchanged maps has, part by part, the related results. -/
theorem Mirrors.join {R : γ → γ → Prop} {j' : Join κ β α γ} (h : Mirrors R j j')
    (hd : (keys d).Nodup) (he : (keys e).Nodup) :
    ∃ l, l.Perm (j'.join e d) ∧ List.Forall₂ R (j.join d e) l := by
  refine ⟨j'.rightPart e d ++ j'.leftPart e d ++ j'.bothPart e d,
    List.perm_append_comm.append_right _, ?_⟩
  refine List.rel_append (List.rel_append ?_ ?_) ?_
  · apply forall₂_filterMap
    intro k
    cases d.lookup k with
    | none => exact .none
    | some a => exact h.left k a
  · apply forall₂_filterMap
    intro k
    cases e.lookup k with
    | none => exact .none
    | some b => exact h.right k b
  · rw [bothPart, bothPart, commonKeys_comm he hd]
    apply forall₂_filterMap
    intro k
    cases d.lookup k with
    | none =>
      cases e.lookup k <;> exact .none
    | some a =>
      cases e.lookup k with
      | none => exact .none
      | some b => exact h.both k a b

end Join

end SchemaPilot.OuterJoin
