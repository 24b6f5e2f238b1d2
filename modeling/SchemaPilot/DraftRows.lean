import Mathlib.Data.List.Nodup
import Mathlib.Logic.Function.Basic
import Mathlib.Tactic.Common

namespace SchemaPilot.DraftRows

variable {ρ ι : Type}

/-- Rows that are committed and rows that processes have yet to commit, at most one each, with
identities from one counter. -/
structure DraftsOk (id : ρ → Nat) (rows : List ρ) (draft : ι → Option ρ) (next : Nat) : Prop where
  ids : (rows.map id).Nodup
  lt : ∀ r ∈ rows, id r < next
  draft_lt : ∀ i r, draft i = some r → id r < next
  apart : ∀ i r, draft i = some r → ∀ r' ∈ rows, id r' ≠ id r
  distinct : ∀ i j r r', i ≠ j → draft i = some r → draft j = some r' → id r ≠ id r'

variable {id : ρ → Nat} {rows : List ρ} {draft : ι → Option ρ} {next : Nat}

theorem DraftsOk.mono (h : DraftsOk id rows draft next) {next' : Nat} (hle : next ≤ next') :
    DraftsOk id rows draft next' :=
  ⟨h.ids, fun r hr => Nat.lt_of_lt_of_le (h.lt r hr) hle,
    fun i r hr => Nat.lt_of_lt_of_le (h.draft_lt i r hr) hle, h.apart, h.distinct⟩

/-- Rows change in place and keep their identities. -/
theorem DraftsOk.map (h : DraftsOk id rows draft next) {f : ρ → ρ} (hf : ∀ r, id (f r) = id r) :
    DraftsOk id (rows.map f) draft next := by
  have hids : (rows.map f).map id = rows.map id := by
    rw [List.map_map]
    exact List.map_congr_left fun r _ => hf r
  refine ⟨hids ▸ h.ids, fun r hr => ?_, h.draft_lt, fun i r hr r' hr' => ?_, h.distinct⟩
  · obtain ⟨r₀, hr₀, rfl⟩ := List.mem_map.mp hr
    exact hf r₀ ▸ h.lt r₀ hr₀
  · obtain ⟨r₀, hr₀, rfl⟩ := List.mem_map.mp hr'
    exact hf r₀ ▸ h.apart i r hr r₀ hr₀

/-- With distinct identities, a row is known by its identity. -/
theorem DraftsOk.eq_of_id (h : DraftsOk id rows draft next) {r r' : ρ} (hr : r ∈ rows) (hr' : r' ∈ rows)
    (hid : id r = id r') : r = r' :=
  List.inj_on_of_nodup_map h.ids hr hr' hid

variable [DecidableEq ι]

theorem DraftsOk.drop (h : DraftsOk id rows draft next) (i : ι) :
    DraftsOk id rows (Function.update draft i none) next := by
  have hold : ∀ j r, Function.update draft i none j = some r → j ≠ i ∧ draft j = some r := by
    intro j r hr
    rw [Function.update_apply] at hr
    split at hr
    · cases hr
    · next hji => exact ⟨hji, hr⟩
  exact ⟨h.ids, h.lt, fun j r hr => h.draft_lt j r (hold j r hr).2,
    fun j r hr => h.apart j r (hold j r hr).2,
    fun j k r r' hjk hr hr' => h.distinct j k r r' hjk (hold j r hr).2 (hold k r' hr').2⟩

/-- A draft changes and keeps its identity. -/
theorem DraftsOk.revise (h : DraftsOk id rows draft next) (i : ι) {f : ρ → ρ}
    (hf : ∀ r, id (f r) = id r) :
    DraftsOk id rows (Function.update draft i ((draft i).map f)) next := by
  have hold : ∀ j r, Function.update draft i ((draft i).map f) j = some r →
      ∃ r₀, draft j = some r₀ ∧ id r = id r₀ := by
    intro j r hr
    rw [Function.update_apply] at hr
    split at hr
    · next hji =>
      obtain ⟨r₀, hr₀, rfl⟩ := Option.map_eq_some_iff.mp hr
      exact ⟨r₀, hji ▸ hr₀, hf r₀⟩
    · exact ⟨r, hr, rfl⟩
  refine ⟨h.ids, h.lt, fun j r hr => ?_, fun j r hr r' hr' => ?_, fun j k r r' hjk hr hr' => ?_⟩
  · obtain ⟨r₀, hr₀, he⟩ := hold j r hr
    exact he ▸ h.draft_lt j r₀ hr₀
  · obtain ⟨r₀, hr₀, he⟩ := hold j r hr
    exact he ▸ h.apart j r₀ hr₀ r' hr'
  · obtain ⟨r₀, hr₀, he⟩ := hold j r hr
    obtain ⟨r₁, hr₁, he'⟩ := hold k r' hr'
    rw [he, he']
    exact h.distinct j k r₀ r₁ hjk hr₀ hr₁

/-- A process drafts a row with the next identity. -/
theorem DraftsOk.insert (h : DraftsOk id rows draft next) (i : ι) {row : ρ} (hid : id row = next) :
    DraftsOk id rows (Function.update draft i (some row)) (next + 1) := by
  have hnew : ∀ j r, Function.update draft i (some row) j = some r →
      j = i ∧ r = row ∨ j ≠ i ∧ draft j = some r := by
    intro j r hr
    rw [Function.update_apply] at hr
    split at hr
    · next hji => exact .inl ⟨hji, (Option.some.inj hr).symm⟩
    · next hji => exact .inr ⟨hji, hr⟩
  refine ⟨h.ids, fun r hr => Nat.lt_succ_of_lt (h.lt r hr), fun j r hr => ?_,
    fun j r hr r' hr' => ?_, fun j k r r' hjk hr hr' => ?_⟩
  · obtain ⟨-, rfl⟩ | ⟨-, hold⟩ := hnew j r hr
    · omega
    · have := h.draft_lt j r hold
      omega
  · obtain ⟨-, rfl⟩ | ⟨-, hold⟩ := hnew j r hr
    · have := h.lt r' hr'
      omega
    · exact h.apart j r hold r' hr'
  · obtain ⟨hj, hjr⟩ | ⟨-, hold⟩ := hnew j r hr <;> rcases hnew k r' hr' with ⟨hk, hkr⟩ | ⟨-, hold'⟩
    · exact absurd (hj.trans hk.symm) hjk
    · have := h.draft_lt k r' hold'
      rw [hjr]
      omega
    · have := h.draft_lt j r hold
      rw [hkr]
      omega
    · exact h.distinct j k r r' hjk hold hold'

/-- A process commits its row, if it has one. -/
theorem DraftsOk.commit (h : DraftsOk id rows draft next) (i : ι) :
    DraftsOk id (rows ++ (draft i).toList) (Function.update draft i none) next := by
  have hdrop := h.drop i
  refine ⟨?_, fun r hr => ?_, hdrop.draft_lt, fun j r hr r' hr' => ?_, hdrop.distinct⟩
  · rw [List.map_append, List.nodup_append]
    refine ⟨h.ids, ?_, fun a ha b hb hab => ?_⟩
    · cases draft i <;> simp
    · obtain ⟨r, hr, rfl⟩ := List.mem_map.mp ha
      obtain ⟨r', hr', rfl⟩ := List.mem_map.mp hb
      exact h.apart i r' (Option.mem_toList.mp hr') r hr hab
  · obtain hr | hr := List.mem_append.mp hr
    · exact h.lt r hr
    · exact h.draft_lt i r (Option.mem_toList.mp hr)
  · obtain hr' | hr' := List.mem_append.mp hr'
    · exact hdrop.apart j r hr r' hr'
    · rw [Function.update_apply] at hr
      split at hr
      · cases hr
      · next hji => exact h.distinct i j r' r (Ne.symm hji) (Option.mem_toList.mp hr') hr

end SchemaPilot.DraftRows
