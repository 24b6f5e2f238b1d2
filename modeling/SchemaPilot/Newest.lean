import Mathlib.Data.List.Sort

namespace SchemaPilot.Newest

variable {α β κ : Type} [LinearOrder κ] (key : α → κ)

/-- The rows of the greatest keys, at most as many as the limit, the greatest key first; rows of
one key stay in order. -/
def newest (limit : Nat) (rows : List α) : List α :=
  (rows.insertionSort (fun a b => key b ≤ key a)).take limit

theorem length_newest (limit : Nat) (rows : List α) :
    (newest key limit rows).length = min limit rows.length := by
  rw [newest, List.length_take, List.length_insertionSort]

theorem mem_of_mem_newest {limit : Nat} {rows : List α} {a : α} (h : a ∈ newest key limit rows) :
    a ∈ rows :=
  (List.mem_insertionSort _).mp (List.mem_of_mem_take h)

theorem nodup_map_newest {f : α → β} {limit : Nat} {rows : List α} (h : (rows.map f).Nodup) :
    ((newest key limit rows).map f).Nodup :=
  (((List.perm_insertionSort _ rows).map f).nodup_iff.mpr h).sublist ((List.take_sublist _ _).map f)

theorem pairwise_sorted (rows : List α) :
    (rows.insertionSort (fun a b => key b ≤ key a)).Pairwise (fun a b => key b ≤ key a) := by
  have : Std.Total (fun a b : α => key b ≤ key a) := ⟨fun a b => le_total (key b) (key a)⟩
  have : IsTrans α (fun a b => key b ≤ key a) := ⟨fun _ _ _ hab hbc => hbc.trans hab⟩
  exact List.pairwise_insertionSort _ rows

theorem pairwise_newest (limit : Nat) (rows : List α) :
    (newest key limit rows).Pairwise (fun a b => key b ≤ key a) :=
  (pairwise_sorted key rows).sublist (List.take_sublist _ _)

/-- A row that is left out is not newer than one that is listed. -/
theorem key_le_of_not_mem_newest {limit : Nat} {rows : List α} {a b : α}
    (ha : a ∈ newest key limit rows) (hb : b ∈ rows) (hout : b ∉ newest key limit rows) :
    key b ≤ key a := by
  have hsorted := pairwise_sorted key rows
  have hmem := (List.mem_insertionSort (fun a b => key b ≤ key a)).mpr hb
  rw [← List.take_append_drop limit (rows.insertionSort _)] at hsorted hmem
  obtain hmem | hmem := List.mem_append.mp hmem
  · exact absurd hmem hout
  · exact (List.pairwise_append.mp hsorted).2.2 a ha b hmem

theorem newest_map {f : α → β} {key' : β → κ} (hkey : ∀ a, key' (f a) = key a) (limit : Nat)
    (rows : List α) : newest key' limit (rows.map f) = (newest key limit rows).map f := by
  rw [newest, newest, List.map_take]
  congr 1
  exact (List.map_insertionSort _ _ f rows fun a _ b _ => by rw [hkey, hkey]).symm

variable {key}

/-- In a list of decreasing keys, a row is among the first exactly if so few are above it. -/
theorem mem_take_iff_length_lt {rows : List α} (hrows : rows.Pairwise (fun a b => key b < key a))
    {a : α} (ha : a ∈ rows) (limit : Nat) :
    a ∈ rows.take limit ↔ (rows.filter (fun b => key a < key b)).length < limit := by
  induction rows generalizing limit with
  | nil => cases ha
  | cons b rows ih =>
    obtain ⟨hb, hrows⟩ := List.pairwise_cons.mp hrows
    cases limit with
    | zero => simp
    | succ limit =>
      rw [List.take_succ_cons, List.mem_cons]
      obtain rfl | ha := List.mem_cons.mp ha
      · have hnone : (a :: rows).filter (fun b => decide (key a < key b)) = [] := by
          rw [List.filter_eq_nil_iff]
          intro b hmem
          obtain rfl | hmem := List.mem_cons.mp hmem
          · simp
          · simpa using (hb b hmem).le
        simp [hnone]
      · have hlt := hb a ha
        have hne : a ≠ b := fun h => hlt.ne (congrArg key h)
        rw [List.filter_cons_of_pos (by simpa using hlt), List.length_cons,
          Nat.add_lt_add_iff_right, ← ih hrows ha limit]
        exact ⟨fun h => h.resolve_left hne, .inr⟩

theorem mem_newest_iff {rows : List α} (hkeys : (rows.map key).Nodup) {limit : Nat} {a : α} :
    a ∈ newest key limit rows ↔
      a ∈ rows ∧ (rows.filter (fun b => key a < key b)).length < limit := by
  have hperm := List.perm_insertionSort (fun a b => key b ≤ key a) rows
  have hne := List.pairwise_map.mp ((hperm.map key).nodup_iff.mpr hkeys)
  have hstrict := ((pairwise_sorted key rows).and hne).imp fun h => lt_of_le_of_ne h.1 h.2.symm
  rw [← (hperm.filter _).length_eq]
  constructor
  · intro h
    have hmem := List.mem_of_mem_take h
    exact ⟨hperm.mem_iff.mp hmem, (mem_take_iff_length_lt hstrict hmem limit).mp h⟩
  · rintro ⟨hmem, hlt⟩
    exact (mem_take_iff_length_lt hstrict (hperm.mem_iff.mpr hmem) limit).mpr hlt

end SchemaPilot.Newest
