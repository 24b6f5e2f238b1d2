import SchemaPilot.Keyed
import Mathlib.Data.String.Basic

namespace SchemaPilot

open Keyed

/-- The characters `json.dumps` can write for a float, `NaN` and the infinities included. -/
def floatChars : List Char := "0123456789+-.eNaInfity".toList

/-- A Python float, kept as the text `json.dumps` writes for it. Nothing in the
service computes with a float; only its being a float and its text are observed. -/
structure PyFloat where
  text : String
  chars : text.toList.all (· ∈ floatChars)
  deriving DecidableEq

/-- The two number types `json.loads` produces. -/
inductive Number where
  | int (n : Int)
  | float (x : PyFloat)
  deriving DecidableEq

/-- A JSON value over a type of numbers. An object lists its entries in insertion order. -/
inductive JsonOf (ν : Type) where
  | null
  | bool (b : Bool)
  | num (n : ν)
  | str (s : String)
  | arr (items : List (JsonOf ν))
  | obj (fields : List (String × JsonOf ν))

/-- A parsed JSON document. -/
abbrev Json := JsonOf Number

/-- A JSON value without numbers: canonical schemas and hash projections are of this kind. -/
abbrev Schema := JsonOf Empty

namespace JsonOf

variable {ν : Type}

@[induction_eliminator]
theorem induct {motive : JsonOf ν → Prop} (null : motive .null) (bool : ∀ b, motive (.bool b))
    (num : ∀ n, motive (.num n)) (str : ∀ s, motive (.str s))
    (arr : ∀ items, (∀ x ∈ items, motive x) → motive (.arr items))
    (obj : ∀ fields, (∀ p ∈ fields, motive p.2) → motive (.obj fields)) (j : JsonOf ν) : motive j :=
  JsonOf.rec (motive_1 := motive) (motive_2 := fun xs => ∀ x ∈ xs, motive x)
    (motive_3 := fun fs => ∀ p ∈ fs, motive p.2) (motive_4 := fun p => motive p.2)
    null bool num str arr obj (by simp) (fun _ _ hx hxs => by simpa using ⟨hx, hxs⟩)
    (by simp) (fun _ _ hp hps => by simpa using ⟨hp, by simpa using hps⟩) (fun _ _ hv => hv) j

section Decidable

variable [DecidableEq ν]

mutual

def decEq : (a b : JsonOf ν) → Decidable (a = b)
  | .null, .null => isTrue rfl
  | .bool a, .bool b => decidable_of_iff (a = b) (by simp)
  | .num a, .num b => decidable_of_iff (a = b) (by simp)
  | .str a, .str b => decidable_of_iff (a = b) (by simp)
  | .arr a, .arr b =>
    match decEqItems a b with
    | isTrue h => isTrue (by rw [h])
    | isFalse h => isFalse (by simpa using h)
  | .obj a, .obj b =>
    match decEqFields a b with
    | isTrue h => isTrue (by rw [h])
    | isFalse h => isFalse (by simpa using h)
  | .null, .bool _ | .null, .num _ | .null, .str _ | .null, .arr _ | .null, .obj _
  | .bool _, .null | .bool _, .num _ | .bool _, .str _ | .bool _, .arr _ | .bool _, .obj _
  | .num _, .null | .num _, .bool _ | .num _, .str _ | .num _, .arr _ | .num _, .obj _
  | .str _, .null | .str _, .bool _ | .str _, .num _ | .str _, .arr _ | .str _, .obj _
  | .arr _, .null | .arr _, .bool _ | .arr _, .num _ | .arr _, .str _ | .arr _, .obj _
  | .obj _, .null | .obj _, .bool _ | .obj _, .num _ | .obj _, .str _ | .obj _, .arr _ =>
    isFalse (by simp)

def decEqItems : (a b : List (JsonOf ν)) → Decidable (a = b)
  | [], [] => isTrue rfl
  | [], _ :: _ => isFalse (by simp)
  | _ :: _, [] => isFalse (by simp)
  | a :: as, b :: bs =>
    match decEq a b with
    | isFalse h => isFalse (fun he => h (List.cons.inj he).1)
    | isTrue h =>
      match decEqItems as bs with
      | isFalse hs => isFalse (fun he => hs (List.cons.inj he).2)
      | isTrue hs => isTrue (by rw [h, hs])

def decEqFields : (a b : List (String × JsonOf ν)) → Decidable (a = b)
  | [], [] => isTrue rfl
  | [], _ :: _ => isFalse (by simp)
  | _ :: _, [] => isFalse (by simp)
  | (k, a) :: as, (l, b) :: bs =>
    if hk : k = l then
      match decEq a b with
      | isFalse h => isFalse (fun he => h (Prod.mk.inj (List.cons.inj he).1).2)
      | isTrue h =>
        match decEqFields as bs with
        | isFalse hs => isFalse (fun he => hs (List.cons.inj he).2)
        | isTrue hs => isTrue (by rw [hk, h, hs])
    else isFalse (fun he => hk (Prod.mk.inj (List.cons.inj he).1).1)

end

instance : DecidableEq (JsonOf ν) := decEq

end Decidable

mutual

/-- Distinct keys in every object, which any value held in Python dicts has. -/
def wf : JsonOf ν → Bool
  | .arr items => wfItems items
  | .obj fields => decide (keys fields).Nodup && wfFields fields
  | .null | .bool _ | .num _ | .str _ => true

def wfItems : List (JsonOf ν) → Bool
  | [] => true
  | x :: xs => wf x && wfItems xs

def wfFields : List (String × JsonOf ν) → Bool
  | [] => true
  | (_, v) :: fields => wf v && wfFields fields

end

theorem wf_arr_iff (items : List (JsonOf ν)) : (arr items).wf ↔ ∀ x ∈ items, x.wf := by
  change wfItems items = true ↔ _
  induction items with
  | nil => simp [wfItems]
  | cons x xs ih => simp [wfItems, ih]

theorem wf_obj_iff (fields : List (String × JsonOf ν)) :
    (obj fields).wf ↔ (keys fields).Nodup ∧ ∀ p ∈ fields, p.2.wf := by
  have h : wfFields fields ↔ ∀ p ∈ fields, p.2.wf := by
    induction fields with
    | nil => simp [wfFields]
    | cons p fields ih =>
      obtain ⟨k, v⟩ := p
      simp only [wfFields, Bool.and_eq_true, ih, List.forall_mem_cons]
  simp only [wf, Bool.and_eq_true, decide_eq_true_eq, h]

end JsonOf

/-- A payload the service accepts: a JSON object with distinct keys throughout. -/
structure Payload where
  fields : List (String × Json)
  wf : (JsonOf.obj fields).wf

def Payload.json (p : Payload) : Json := .obj p.fields

end SchemaPilot
