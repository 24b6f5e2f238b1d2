import Mathlib.Algebra.BigOperators.Group.Finset.Basic
import Mathlib.Algebra.BigOperators.Group.List.Basic
import Mathlib.Algebra.GroupWithZero.Nat
import Mathlib.Data.Fintype.Basic
import Mathlib.Logic.Function.Basic

namespace SchemaPilot.Conservation

variable {ι α : Type} [Fintype ι] [DecidableEq ι]

/-- What the processes hold together, of which one gives up what it held for something else. -/
theorem sum_update (f : α → Nat) (g : ι → α) (i : ι) (a : α) :
    ∑ j, f (Function.update g i a j) + f (g i) = ∑ j, f (g j) + f a := by
  have hold := Finset.add_sum_erase Finset.univ (fun j => f (g j)) (Finset.mem_univ i)
  have hnew := Finset.add_sum_erase Finset.univ (fun j => f (Function.update g i a j)) (Finset.mem_univ i)
  have hrest : ∑ j ∈ Finset.univ.erase i, f (Function.update g i a j) =
      ∑ j ∈ Finset.univ.erase i, f (g j) := by
    apply Finset.sum_congr rfl
    intro j hj
    rw [Function.update_of_ne (Finset.ne_of_mem_erase hj)]
  rw [Function.update_self, hrest] at hnew
  omega

/-- A process that comes to hold more adds that much. -/
theorem sum_update_add {f : α → Nat} {g : ι → α} {i : ι} {a : α} {n : Nat} (h : f a = f (g i) + n) :
    ∑ j, f (Function.update g i a j) = ∑ j, f (g j) + n := by
  have hsum := sum_update f g i a
  omega

omit [Fintype ι] [DecidableEq ι] in
/-- The same of processes that are kept in a list. -/
theorem sum_set (f : α → Nat) {xs : List α} {k : Nat} {old : α} (hk : xs[k]? = some old) (new : α) :
    ((xs.set k new).map f).sum + f old = (xs.map f).sum + f new := by
  induction xs generalizing k with
  | nil => cases hk
  | cons x xs ih =>
    cases k with
    | zero =>
      obtain rfl : x = old := Option.some.inj hk
      simp only [List.set_cons_zero, List.map_cons, List.sum_cons]
      omega
    | succ k =>
      have htail := ih hk
      simp only [List.set_cons_succ, List.map_cons, List.sum_cons]
      omega

end SchemaPilot.Conservation
