import Mathlib.Data.List.Chain
import Mathlib.Logic.Function.Basic
import Mathlib.Tactic.Common

namespace SchemaPilot.Journal

/-- A recorded change: what a key held before it and holds after it. -/
structure Entry (κ β : Type) where
  key : κ
  before : β
  after : β

variable {κ β α : Type}

def Entry.swap (e : Entry κ β) : Entry κ β := ⟨e.key, e.after, e.before⟩

/-- The same changes taken back, the last one first. -/
def inverse (entries : List (Entry κ β)) : List (Entry κ β) := entries.reverse.map Entry.swap

theorem mem_inverse {entries : List (Entry κ β)} {e : Entry κ β} :
    e ∈ inverse entries ↔ e.swap ∈ entries := by
  simp only [inverse, List.mem_map, List.mem_reverse]
  constructor
  · rintro ⟨e, he, rfl⟩
    exact he
  · intro he
    exact ⟨e.swap, he, rfl⟩

/-- The entries tell both states of their keys, and no other key has changed. -/
structure Tells (entries : List (Entry κ β)) (m m' : κ → β) : Prop where
  before : ∀ e ∈ entries, e.before = m e.key
  after : ∀ e ∈ entries, e.after = m' e.key
  rest : ∀ k, (∀ e ∈ entries, e.key ≠ k) → m k = m' k

theorem Tells.inverse {entries : List (Entry κ β)} {m m' : κ → β} (h : Tells entries m m') :
    Tells (inverse entries) m' m where
  before e he := h.after e.swap (mem_inverse.mp he)
  after e he := h.before e.swap (mem_inverse.mp he)
  rest k hk := by
    refine (h.rest k fun e he hek => ?_).symm
    exact hk e.swap (mem_inverse.mpr he) hek

variable [DecidableEq κ]

variable (state : α → κ → β) {log : α → List (Entry κ β)} {a : α} {rows : List α}

end SchemaPilot.Journal
