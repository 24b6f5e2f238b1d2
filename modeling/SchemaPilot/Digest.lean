import Mathlib.Data.List.Nodup
import Mathlib.Data.String.Basic
import Mathlib.Tactic.Common

namespace SchemaPilot.Digest

theorem toUTF8_injective : Function.Injective String.toUTF8 :=
  fun _ _ h => String.toByteArray_inj.mp h

/-- SHA-256 is a parameter of the model. This stand-in has the real digests at the texts
of a table and spells every other input out, so that it is injective. -/
def sampleSha256 (table : List (String × String)) (b : ByteArray) : String :=
  match table.find? (fun e => e.1.toUTF8.data = b.data) with
  | some e => e.2
  | none => String.ofList (' ' :: b.data.toList.map (fun x => Char.ofNat x.toNat))

theorem toNat_ofNat_byte (n : Nat) (h : n < 256) : (Char.ofNat n).toNat = n := by
  have hv : n.isValidChar := Or.inl (by omega)
  rw [Char.ofNat, dif_pos hv]
  rfl

theorem ofNat_uint8_injective : Function.Injective (fun x : UInt8 => Char.ofNat x.toNat) := by
  intro x y h
  have hn := congrArg Char.toNat h
  simp only [toNat_ofNat_byte _ (UInt8.toNat_lt _)] at hn
  exact UInt8.toNat_inj.mp hn

theorem sampleSha256_injective (table : List (String × String))
    (hn : (table.map Prod.snd).Nodup) (hs : ∀ e ∈ table, e.2.toList.head? ≠ some ' ') :
    Function.Injective (sampleSha256 table) := by
  have hmem : ∀ {b : ByteArray} {e}, table.find? (fun e => e.1.toUTF8.data = b.data) = some e →
      e ∈ table ∧ e.1.toUTF8.data = b.data :=
    fun h => ⟨List.mem_of_find?_eq_some h, by simpa using List.find?_some h⟩
  have hspell : ∀ e ∈ table, ∀ r, e.2 ≠ String.ofList (' ' :: r) := by
    intro e he r h
    exact hs e he (by simp [h])
  intro a b hab
  unfold sampleSha256 at hab
  cases ha : table.find? (fun e => e.1.toUTF8.data = a.data) with
  | some e =>
    cases hb : table.find? (fun e => e.1.toUTF8.data = b.data) with
    | some f =>
      rw [ha, hb] at hab
      obtain rfl := List.inj_on_of_nodup_map hn (hmem ha).1 (hmem hb).1 hab
      exact ByteArray.ext ((hmem ha).2.symm.trans (hmem hb).2)
    | none =>
      rw [ha, hb] at hab
      exact absurd hab (hspell e (hmem ha).1 _)
  | none =>
    cases hb : table.find? (fun e => e.1.toUTF8.data = b.data) with
    | some f =>
      rw [ha, hb] at hab
      exact absurd hab.symm (hspell f (hmem hb).1 _)
    | none =>
      rw [ha, hb] at hab
      have hl := (List.cons.inj (String.ofList_injective hab)).2
      have hd := List.map_injective_iff.mpr ofNat_uint8_injective hl
      cases a
      cases b
      simpa using hd

end SchemaPilot.Digest
