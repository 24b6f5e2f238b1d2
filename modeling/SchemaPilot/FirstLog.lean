import SchemaPilot.Keyed
import Mathlib.Data.List.Induction
import Mathlib.Logic.Function.Basic

namespace SchemaPilot.FirstLog

open Keyed

variable {κ τ α : Type} [DecidableEq κ] [DecidableEq τ]

/-- The entries whose tag no entry before them has. -/
def firsts (es : List (τ × α)) : List (τ × α) :=
  es.foldl (fun seen e => if e.1 ∈ keys seen then seen else seen ++ [e]) []

theorem firsts_concat (es : List (τ × α)) (e : τ × α) :
    firsts (es ++ [e]) = if e.1 ∈ keys (firsts es) then firsts es else firsts es ++ [e] := by
  rw [firsts, List.foldl_concat]
  rfl

theorem mem_keys_firsts (es : List (τ × α)) (t : τ) : t ∈ keys (firsts es) ↔ t ∈ keys es := by
  induction es using List.reverseRecOn with
  | nil => exact Iff.rfl
  | append_singleton es e ih =>
    have hkeys : t ∈ keys (es ++ [e]) ↔ t ∈ keys (firsts es) ∨ t = e.1 := by
      rw [ih, keys, List.map_append, List.mem_append, List.map_singleton, List.mem_singleton]
    rw [firsts_concat, hkeys]
    by_cases he : e.1 ∈ keys (firsts es)
    · rw [if_pos he]
      exact ⟨.inl, fun h => h.elim id fun ht => ht ▸ he⟩
    · rw [if_neg he, keys, List.map_append, List.mem_append, List.map_singleton, List.mem_singleton]

/-- Under every key a log of entries, in which a tag is written once. -/
abbrev Log (κ τ α : Type) := κ → List (τ × α)

/-- Only the first entry with a tag is kept under a key. -/
def put (m : Log κ τ α) (k : κ) (e : τ × α) : Log κ τ α :=
  if e.1 ∈ keys (m k) then m else Function.update m k (m k ++ [e])

theorem put_of_mem {m : Log κ τ α} {k : κ} {e : τ × α} (h : e.1 ∈ keys (m k)) : put m k e = m :=
  if_pos h

theorem put_of_not_mem {m : Log κ τ α} {k : κ} {e : τ × α} (h : e.1 ∉ keys (m k)) :
    put m k e = Function.update m k (m k ++ [e]) :=
  if_neg h

theorem put_apply_of_ne (m : Log κ τ α) {k l : κ} (h : l ≠ k) (e : τ × α) : put m k e l = m l := by
  rw [put]
  by_cases he : e.1 ∈ keys (m k)
  · rw [if_pos he]
  · rw [if_neg he, Function.update_of_ne h]

theorem put_apply_self (m : Log κ τ α) (k : κ) (e : τ × α) :
    put m k e k = if e.1 ∈ keys (m k) then m k else m k ++ [e] := by
  rw [put]
  by_cases he : e.1 ∈ keys (m k)
  · rw [if_pos he, if_pos he]
  · rw [if_neg he, if_neg he, Function.update_self]

/-- Writes under different keys do not see each other. -/
theorem put_comm (m : Log κ τ α) {k l : κ} (h : k ≠ l) (e f : τ × α) :
    put (put m k e) l f = put (put m l f) k e := by
  funext j
  by_cases hk : j = k
  · subst hk
    rw [put_apply_of_ne _ h, put_apply_self, put_apply_self, put_apply_of_ne _ h]
  · by_cases hl : j = l
    · subst hl
      rw [put_apply_of_ne _ h.symm, put_apply_self, put_apply_self, put_apply_of_ne _ h.symm]
    · rw [put_apply_of_ne _ hl, put_apply_of_ne _ hk, put_apply_of_ne _ hk, put_apply_of_ne _ hl]

/-- After a series of writes each key holds the first entries among those written under it. -/
theorem foldl_put (ws : List (κ × τ × α)) (k : κ) :
    ws.foldl (fun m w => put m w.1 w.2) (fun _ => []) k =
      firsts ((ws.filter (fun w => w.1 = k)).map Prod.snd) := by
  induction ws using List.reverseRecOn with
  | nil => rfl
  | append_singleton ws w ih =>
    rw [List.foldl_concat, List.filter_append, List.map_append]
    by_cases hw : w.1 = k
    · subst hw
      rw [put_apply_self, ih, List.filter_singleton, decide_eq_true rfl, cond_true, List.map_singleton,
        firsts_concat]
    · rw [put_apply_of_ne _ (Ne.symm hw), ih, List.filter_singleton, decide_eq_false hw, cond_false,
        List.map_nil, List.append_nil]

end SchemaPilot.FirstLog
