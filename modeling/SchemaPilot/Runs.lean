import Mathlib.Tactic.Common

namespace SchemaPilot.Runs

variable {σ α : Type}

/-- The states that steps lead to from a start, every step taken where a condition allows it. -/
inductive Reachable (step : σ → α → Option σ) (ok : σ → α → Prop) (start : σ) : σ → Prop
  | start : Reachable step ok start start
  | step {s s' : σ} {a : α} :
    Reachable step ok start s → ok s a → step s a = some s' → Reachable step ok start s'

/-- The condition that allows every step. -/
def always (_ : σ) (_ : α) : Prop := True

instance (s : σ) (a : α) : Decidable (always s a) := inferInstanceAs (Decidable True)

/-- What holds at the start and is kept by every allowed step holds of every reachable state. -/
theorem Reachable.invariant {step : σ → α → Option σ} {ok : σ → α → Prop} {start : σ}
    {I : σ → Prop} (h0 : I start)
    (hstep : ∀ s a s', I s → ok s a → step s a = some s' → I s') {s : σ}
    (h : Reachable step ok start s) : I s := by
  induction h with
  | start => exact h0
  | step _ hok hs ih => exact hstep _ _ _ ih hok hs

/-- A run that an invariant and the steps themselves keep within a condition. -/
theorem Reachable.restrict_of_invariant {step : σ → α → Option σ} {ok ok' : σ → α → Prop}
    {start s : σ} {I : σ → Prop} (h0 : I start)
    (hstep : ∀ s a s', I s → ok s a → step s a = some s' → I s')
    (hok : ∀ s a s', I s → ok s a → step s a = some s' → ok' s a)
    (h : Reachable step ok start s) : Reachable step ok' start s := by
  induction h with
  | start => exact .start
  | step hr ha hs ih => exact .step ih (hok _ _ _ (hr.invariant h0 hstep) ha hs) hs

theorem Reachable.restrict {step : σ → α → Option σ} {ok ok' : σ → α → Prop} {start s : σ}
    (hok : ∀ s a s', ok s a → step s a = some s' → ok' s a) (h : Reachable step ok start s) :
    Reachable step ok' start s :=
  h.restrict_of_invariant (I := fun _ => True) trivial (fun _ _ _ _ _ _ => trivial)
    fun s a s' _ => hok s a s'

/-- A list that grows at its end, as a log does. -/
theorem forall_mem_concat {β : Type} {P : β → Prop} {l : List β} {b : β} (h : ∀ x ∈ l, P x)
    (hb : P b) : ∀ x ∈ l ++ [b], P x :=
  List.forall_mem_append.mpr ⟨h, List.forall_mem_singleton.mpr hb⟩

/-- The steps, with what each of them marks. -/
def traced {μ : Type} (step : σ → α → Option σ) (marks : σ → α → List μ) (p : σ × List μ) (a : α) :
    Option (σ × List μ) :=
  (step p.1 a).map fun s => (s, p.2 ++ marks p.1 a)

section Run

variable (step : σ → α → Option σ) (ok : σ → α → Prop) [∀ s a, Decidable (ok s a)]

/-- Take the actions one after the other, as long as each is allowed and enabled. -/
def run (s : σ) : List α → Option σ
  | [] => some s
  | a :: acts =>
    if ok s a then
      match step s a with
      | some s' => run s' acts
      | none => none
    else none

theorem run_append (s : σ) (acts acts' : List α) :
    run step ok s (acts ++ acts') = (run step ok s acts).bind (fun t => run step ok t acts') := by
  induction acts generalizing s with
  | nil => rfl
  | cons a acts ih =>
    simp only [List.cons_append, run]
    split
    · cases step s a with
      | some s' => exact ih s'
      | none => rfl
    · rfl

theorem reachable_run {start s t : σ} (hs : Reachable step ok start s) {acts : List α}
    (h : run step ok s acts = some t) : Reachable step ok start t := by
  induction acts generalizing s with
  | nil =>
    rw [run, Option.some.injEq] at h
    exact h ▸ hs
  | cons a acts ih =>
    rw [run] at h
    split at h
    · next hok =>
      split at h
      · next s' hstep => exact ih (hs.step hok hstep) h
      · cases h
    · cases h

/-- Any so many actions can be taken, and they lead to a state of a kind. -/
def Leads (n : Nat) (s : σ) (P : σ → Prop) : Prop :=
  ∀ acts : List α, acts.length = n → ∃ t, run step ok s acts = some t ∧ P t

variable {step ok} {P Q : σ → Prop}

theorem Leads.refl {s : σ} (h : P s) : Leads step ok 0 s P := by
  intro acts hlen
  rw [List.eq_nil_of_length_eq_zero hlen]
  exact ⟨s, rfl, h⟩

theorem Leads.mono {n : Nat} {s : σ} (h : Leads step ok n s P) (hPQ : ∀ t, P t → Q t) :
    Leads step ok n s Q := by
  intro acts hlen
  obtain ⟨t, ht, hP⟩ := h acts hlen
  exact ⟨t, ht, hPQ t hP⟩

theorem Leads.cons {n : Nat} {s : σ} (hok : ∀ a, ok s a)
    (h : ∀ a, ∃ s', step s a = some s' ∧ Leads step ok n s' P) : Leads step ok (n + 1) s P := by
  intro acts hlen
  obtain ⟨a, acts, rfl⟩ := List.exists_cons_of_length_eq_add_one hlen
  obtain ⟨s', hs', hP⟩ := h a
  obtain ⟨t, ht, hPt⟩ := hP acts (Nat.succ.inj hlen)
  refine ⟨t, ?_, hPt⟩
  rw [run, if_pos (hok a), hs']
  exact ht

theorem Leads.trans {m n : Nat} {s : σ} (h : Leads step ok m s P)
    (h' : ∀ t, P t → Leads step ok n t Q) : Leads step ok (m + n) s Q := by
  intro acts hlen
  have hm : (acts.take m).length = m := by
    rw [List.length_take, hlen]
    exact Nat.min_eq_left (Nat.le_add_right m n)
  have hn : (acts.drop m).length = n := by
    rw [List.length_drop, hlen]
    exact Nat.add_sub_cancel_left m n
  obtain ⟨t, ht, hPt⟩ := h (acts.take m) hm
  obtain ⟨u, hu, hQu⟩ := h' t hPt (acts.drop m) hn
  refine ⟨u, ?_, hQu⟩
  rw [← List.take_append_drop m acts, run_append, ht]
  exact hu

end Run

end SchemaPilot.Runs
