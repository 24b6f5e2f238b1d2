import SchemaPilot.Runs
import Mathlib.Order.WellFounded

namespace SchemaPilot.Liveness

open Runs

variable {σ α β : Type} {step : σ → α → Option σ} {P Q : σ → Prop} {s : σ}

/-- Whatever actions are taken, a state of a kind is come to. -/
inductive Inevitable (step : σ → α → Option σ) (P : σ → Prop) : σ → Prop
  | here {s : σ} : P s → Inevitable step P s
  | next {s : σ} {after : α → σ} :
    (∀ a, step s a = some (after a)) → (∀ a, Inevitable step P (after a)) → Inevitable step P s

theorem Inevitable.trans (h : Inevitable step P s) (hthen : ∀ t, P t → Inevitable step Q t) :
    Inevitable step Q s := by
  induction h with
  | here hP => exact hthen _ hP
  | next hstep _ ih => exact .next hstep ih

theorem Inevitable.mono (h : Inevitable step P s) (hPQ : ∀ t, P t → Q t) : Inevitable step Q s :=
  h.trans fun t hP => .here (hPQ t hP)

theorem Inevitable.of_step (h : ∀ a, ∃ t, step s a = some t ∧ Inevitable step P t) : Inevitable step P s := by
  choose after hstep hafter using h
  exact .next hstep hafter

/-- A round that comes to the end or makes a measure smaller is repeated until the end. -/
theorem Inevitable.of_wf {I : σ → Prop} {r : β → β → Prop} (hr : WellFounded r) (measure : σ → β)
    (hround : ∀ t, I t → Inevitable step (fun u => P u ∨ I u ∧ r (measure u) (measure t)) t) (h : I s) :
    Inevitable step P s := by
  induction hm : measure s using hr.induction generalizing s with
  | _ m ih =>
    apply (hround s h).trans
    rintro t (hP | ⟨hI, hless⟩)
    · exact .here hP
    · exact ih (measure t) (hm ▸ hless) hI rfl

/-- So every sequence of actions leads there. -/
theorem Inevitable.exists_run (h : Inevitable step P s) (acts : Nat → α) :
    ∃ n t, run step always s ((List.range n).map acts) = some t ∧ P t := by
  induction h generalizing acts with
  | here hP => exact ⟨0, _, rfl, hP⟩
  | @next s after hstep _ ih =>
    obtain ⟨n, t, hrun, hP⟩ := ih (acts 0) (fun k => acts (k + 1))
    refine ⟨n + 1, t, ?_, hP⟩
    rw [List.range_succ_eq_map, List.map_cons, List.map_map, run, if_pos (show always s (acts 0) from trivial), hstep]
    exact hrun

end SchemaPilot.Liveness
