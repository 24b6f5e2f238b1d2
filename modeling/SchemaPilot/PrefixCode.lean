import Mathlib.Tactic.Common

namespace SchemaPilot.PrefixCode

variable {α β σ : Type}

/-- Whatever follows the encoding of `a`, reading it back gives `a` and the rest,
as long as only values of the domain `D` are encoded. -/
def Delimited (D : α → Prop) (enc : α → List σ) (a : α) : Prop :=
  ∀ b, D b → ∀ s t, enc a ++ s = enc b ++ t → a = b ∧ s = t

/-- A reader that undoes the encoding makes every encoding self-delimiting. -/
theorem delimited_of_reader {D : α → Prop} {enc : α → List σ}
    (read : List σ → Option (α × List σ)) (h : ∀ a s, read (enc a ++ s) = some (a, s)) (a : α) :
    Delimited D enc a := by
  intro b _ s t he
  have hr := congrArg read he
  rw [h, h] at hr
  exact Prod.mk.inj (Option.some.inj hr)

theorem Delimited.mono {D E : α → Prop} {enc : α → List σ} {a : α} (hDE : ∀ b, E b → D b)
    (h : Delimited D enc a) : Delimited E enc a :=
  fun b hb => h b (hDE b hb)

/-- A fixed ending keeps an encoding self-delimiting. -/
theorem Delimited.append_const {D : α → Prop} {enc : α → List σ} {a : α} (h : Delimited D enc a)
    (w : List σ) : Delimited D (fun a => enc a ++ w) a := by
  intro b hb s t he
  simp only [List.append_assoc] at he
  obtain ⟨rfl, he'⟩ := h b hb _ _ he
  exact ⟨rfl, List.append_cancel_left he'⟩

theorem Delimited.injective {D : α → Prop} {enc : α → List σ} {a b : α} (ha : Delimited D enc a)
    (hb : D b) (h : enc a = enc b) : a = b :=
  (ha b hb [] [] (by rw [h])).1

theorem append_cons_inj {sep : σ} {u v s t : List σ} (hu : sep ∉ u) (hv : sep ∉ v)
    (h : u ++ sep :: s = v ++ sep :: t) : u = v ∧ s = t := by
  induction u generalizing v with
  | nil =>
    obtain _ | ⟨c, v⟩ := v
    · exact ⟨rfl, (List.cons.inj h).2⟩
    · obtain ⟨rfl, -⟩ := List.cons.inj h
      exact absurd List.mem_cons_self hv
  | cons c u ih =>
    obtain _ | ⟨d, v⟩ := v
    · obtain ⟨rfl, -⟩ := List.cons.inj h
      exact absurd List.mem_cons_self hu
    · obtain ⟨rfl, h'⟩ := List.cons.inj h
      obtain ⟨rfl, rfl⟩ := ih (fun hm => hu (List.mem_cons_of_mem _ hm))
        (fun hm => hv (List.mem_cons_of_mem _ hm)) h'
      exact ⟨rfl, rfl⟩

theorem delimited_pair {D : α → Prop} {E : β → Prop} {f : α → List σ} {g : β → List σ} (sep : σ)
    {a : α} {b : β} (ha : Delimited D f a) (hb : Delimited E g b) :
    Delimited (fun p : α × β => D p.1 ∧ E p.2) (fun p => f p.1 ++ sep :: g p.2) (a, b) := by
  rintro ⟨a', b'⟩ ⟨hd, he⟩ s t h
  simp only [List.append_assoc, List.cons_append] at h
  obtain ⟨rfl, h'⟩ := ha a' hd _ _ h
  obtain ⟨rfl, rfl⟩ := hb b' he _ _ (List.cons.inj h').2
  exact ⟨rfl, rfl⟩

/-- A first part that cannot hold the separator ends where the first separator stands. -/
theorem delimited_until {E : β → Prop} {f : α → List σ} {g : β → List σ} {sep : σ}
    (hf : Function.Injective f) {a : α} {b : β} (ha : sep ∉ f a) (hb : Delimited E g b) :
    Delimited (fun p : α × β => sep ∉ f p.1 ∧ E p.2) (fun p => f p.1 ++ sep :: g p.2) (a, b) := by
  rintro ⟨a', b'⟩ ⟨hd, he⟩ s t h
  simp only [List.append_assoc, List.cons_append] at h
  obtain ⟨hfa, h'⟩ := append_cons_inj ha hd h
  obtain rfl := hf hfa
  obtain ⟨rfl, rfl⟩ := hb b' he _ _ h'
  exact ⟨rfl, rfl⟩

/-- Encodings that are not empty, written one after the other, can be told apart. -/
theorem flatMap_delimited_inj {D : α → Prop} {enc : α → List σ} {xs ys : List α}
    (hne : ∀ a, enc a ≠ []) (hx : ∀ x ∈ xs, Delimited D enc x) (hy : ∀ y ∈ ys, D y)
    (h : xs.flatMap enc = ys.flatMap enc) : xs = ys := by
  induction xs generalizing ys with
  | nil =>
    cases ys with
    | nil => rfl
    | cons y ys => exact absurd (List.append_eq_nil_iff.mp h.symm).1 (hne y)
  | cons x xs ih =>
    cases ys with
    | nil => exact absurd (List.append_eq_nil_iff.mp h).1 (hne x)
    | cons y ys =>
      obtain ⟨rfl, h'⟩ := hx x (by simp) y (hy y (by simp)) _ _ h
      rw [ih (fun z hz => hx z (by simp [hz])) (fun z hz => hy z (by simp [hz])) h']

/-- The encodings one after the other, closed by a symbol none of them starts with. -/
def terminated (close : σ) (enc : α → List σ) : List α → List σ
  | [] => [close]
  | x :: xs => enc x ++ terminated close enc xs

/-- The encodings with a separator between them, closed by a symbol none of them starts with. -/
def joined (sep close : σ) (enc : α → List σ) : List α → List σ
  | [] => [close]
  | [x] => enc x ++ [close]
  | x :: y :: xs => enc x ++ sep :: joined sep close enc (y :: xs)

theorem joined_cons (sep close : σ) (enc : α → List σ) (x : α) (xs : List α) :
    ∃ r, joined sep close enc (x :: xs) = enc x ++ r := by
  cases xs with
  | nil => exact ⟨_, rfl⟩
  | cons y ys => exact ⟨_, rfl⟩

/-- An encoding starts with some symbol other than the closing one. -/
def Opens (close : σ) (w : List σ) : Prop := ∃ c r, w = c :: r ∧ c ≠ close

theorem Opens.ne_close {close : σ} {w : List σ} (h : Opens close w) (s t : List σ) :
    w ++ s ≠ close :: t := by
  obtain ⟨c, r, rfl, hc⟩ := h
  exact fun he => hc (List.cons.inj he).1

theorem terminated_delimited {D : α → Prop} {close : σ} {enc : α → List σ}
    (hopen : ∀ a, D a → Opens close (enc a)) (xs : List α) (hD : ∀ x ∈ xs, D x)
    (h : ∀ x ∈ xs, Delimited D enc x) :
    Delimited (fun ys => ∀ y ∈ ys, D y) (terminated close enc) xs := by
  induction xs with
  | nil =>
    rintro (_ | ⟨y, ys⟩) hys s t he
    · exact ⟨rfl, (List.cons.inj he).2⟩
    · simp only [terminated, List.append_assoc] at he
      exact absurd he.symm ((hopen y (hys y (by simp))).ne_close _ _)
  | cons x xs ih =>
    rintro (_ | ⟨y, ys⟩) hys s t he
    · simp only [terminated, List.append_assoc] at he
      exact absurd he ((hopen x (hD x (by simp))).ne_close _ _)
    · simp only [terminated, List.append_assoc] at he
      obtain ⟨rfl, h'⟩ := h x (by simp) y (hys y (by simp)) _ _ he
      obtain ⟨rfl, rfl⟩ := ih (fun z hz => hD z (by simp [hz])) (fun z hz => h z (by simp [hz]))
        ys (fun z hz => hys z (by simp [hz])) _ _ h'
      exact ⟨rfl, rfl⟩

theorem joined_delimited {D : α → Prop} {sep close : σ} (hne : sep ≠ close) {enc : α → List σ}
    (hopen : ∀ a, D a → Opens close (enc a)) (xs : List α) (hD : ∀ x ∈ xs, D x)
    (h : ∀ x ∈ xs, Delimited D enc x) :
    Delimited (fun ys => ∀ y ∈ ys, D y) (joined sep close enc) xs := by
  induction xs using joined.induct with
  | case1 =>
    rintro (_ | ⟨y, _ | ⟨z, zs⟩⟩) hys s t he
    · exact ⟨rfl, (List.cons.inj he).2⟩
    all_goals
      simp only [joined, List.append_assoc] at he
      exact absurd he.symm ((hopen y (hys y (by simp))).ne_close _ _)
  | case2 x =>
    rintro (_ | ⟨y, _ | ⟨z, zs⟩⟩) hys s t he
    · simp only [joined, List.append_assoc] at he
      exact absurd he ((hopen x (hD x (by simp))).ne_close _ _)
    all_goals
      simp only [joined, List.append_assoc] at he
      obtain ⟨rfl, h'⟩ := h x (by simp) y (hys y (by simp)) _ _ he
    · exact ⟨rfl, (List.cons.inj h').2⟩
    · exact absurd (List.cons.inj h').1.symm hne
  | case3 x x' xs ih =>
    rintro (_ | ⟨y, _ | ⟨z, zs⟩⟩) hys s t he
    · simp only [joined, List.append_assoc] at he
      exact absurd he ((hopen x (hD x (by simp))).ne_close _ _)
    all_goals
      simp only [joined, List.append_assoc] at he
      obtain ⟨rfl, h'⟩ := h x (by simp) y (hys y (by simp)) _ _ he
    · exact absurd (List.cons.inj h').1 hne
    · obtain ⟨he', rfl⟩ := ih (fun z hz => hD z (List.mem_cons_of_mem _ hz))
        (fun z hz => h z (List.mem_cons_of_mem _ hz)) (z :: zs)
        (fun w hw => hys w (List.mem_cons_of_mem _ hw)) _ _ (List.cons.inj h').2
      exact ⟨by rw [he'], rfl⟩

section Blocks

variable (mark : σ → Bool)

/-- A block is a mark followed by symbols that are no marks. -/
def Block (w : List σ) : Prop := ∃ c r, w = c :: r ∧ mark c ∧ ∀ x ∈ r, mark x = false

/-- The text ends here, or a new block starts. -/
def AtMark (s : List σ) : Prop := ∀ c ∈ s.head?, mark c

theorem takeWhile_atMark {s : List σ} (h : AtMark mark s) :
    s.takeWhile (fun x => !mark x) = [] := by
  cases s with
  | nil => rfl
  | cons c s => simp [h c rfl]

theorem Block.append_inj {mark : σ → Bool} {v w s t : List σ} (hv : Block mark v)
    (hw : Block mark w) (hs : AtMark mark s) (ht : AtMark mark t) (h : v ++ s = w ++ t) :
    v = w ∧ s = t := by
  obtain ⟨c, r, rfl, -, hr⟩ := hv
  obtain ⟨d, u, rfl, -, hu⟩ := hw
  obtain ⟨rfl, h' : r ++ s = u ++ t⟩ := List.cons.inj h
  have hlen := congrArg (List.takeWhile (fun x => !mark x)) h'
  rw [List.takeWhile_append_of_pos (by simpa using hr),
    List.takeWhile_append_of_pos (by simpa using hu), takeWhile_atMark mark hs,
    takeWhile_atMark mark ht, List.append_nil, List.append_nil] at hlen
  subst hlen
  exact ⟨rfl, List.append_cancel_left h'⟩

theorem atMark_flatMap {enc : α → List σ} {xs : List α} (h : ∀ x ∈ xs, Block mark (enc x)) :
    AtMark mark (xs.flatMap enc) := by
  cases xs with
  | nil => simp [AtMark]
  | cons x xs =>
    obtain ⟨c, r, he, hc, -⟩ := h x (by simp)
    simpa [AtMark, he] using hc

/-- Blocks written one after the other can be told apart. -/
theorem flatMap_block_inj {enc : α → List σ} {xs ys : List α} (hx : ∀ x ∈ xs, Block mark (enc x))
    (hy : ∀ y ∈ ys, Block mark (enc y)) (hinj : ∀ x ∈ xs, ∀ y ∈ ys, enc x = enc y → x = y)
    (h : xs.flatMap enc = ys.flatMap enc) : xs = ys := by
  induction xs generalizing ys with
  | nil =>
    cases ys with
    | nil => rfl
    | cons y ys =>
      obtain ⟨c, r, he, -⟩ := hy y (by simp)
      simp [he] at h
  | cons x xs ih =>
    cases ys with
    | nil =>
      obtain ⟨c, r, he, -⟩ := hx x (by simp)
      simp [he] at h
    | cons y ys =>
      simp only [List.flatMap_cons, List.forall_mem_cons] at h hx hy
      obtain ⟨he, ht⟩ := hx.1.append_inj hy.1 (atMark_flatMap mark hx.2) (atMark_flatMap mark hy.2) h
      rw [hinj x (by simp) y (by simp) he, ih hx.2 hy.2
        (fun a ha b hb => hinj a (by simp [ha]) b (by simp [hb])) ht]

end Blocks

end SchemaPilot.PrefixCode
