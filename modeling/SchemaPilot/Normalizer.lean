import SchemaPilot.JsonLoads
import SchemaPilot.NodeTypes
import SchemaPilot.SchemaHash

namespace SchemaPilot.Normalizer

open Keyed PrefixCode JsonText JsonLoads Digest SchemaInfer SchemaHash
open NodeTypes (isContainer)

structure Settings where
  rawBodyMaxBytes : Int
  floatOf : List Char → PyFloat

def numberChars : Number → List Char
  | .int n => (toString n).toList
  | .float x => x.text.toList

/-- `json.dumps(v, separators=(",", ":"))`, of which every character is one byte. -/
def serialize (v : Json) : List Char := dumpsChars numberChars v

/-- Python's `text[:n]`. -/
def sliceTo (text : List Char) (n : Int) : List Char :=
  if 0 ≤ n then text.take n.toNat else text.take (text.length - (-n).toNat)

/-- `max_bytes or settings.raw_body_max_bytes`. -/
def capOf (settings : Settings) (maxBytes : Option Int) : Int :=
  match maxBytes with
  | some n => if n = 0 then settings.rawBodyMaxBytes else n
  | none => settings.rawBodyMaxBytes

def truncationMarker (size : Nat) : Json :=
  .obj [("_truncated", .bool true), ("_size_bytes", .num (.int size))]

def normalize (settings : Settings) (maxBytes : Option Int) (body : Json) : Json :=
  let cap := capOf settings maxBytes
  let sortedBody := sortKeys body
  let serialized := serialize sortedBody
  if cap < serialized.length then
    match loads settings.floatOf (sliceTo serialized cap) with
    | some truncated => truncated
    | none => truncationMarker serialized.length
  else sortedBody

section Ascii

def ascii (c : Char) : Bool := c.toNat < 128

theorem ascii_escape (c : Char) : ∀ x ∈ escape c, ascii x := by
  have hhex : ∀ n, ∀ x ∈ hex4 n, ascii x := by
    intro n
    have hdigit : ∀ m < 16, ascii (hexDigit m) := by decide
    simp [hex4, hdigit, Nat.mod_lt]
  rw [escape]
  cases h : shortEscapes.lookup c with
  | some e =>
    have hshort : shortEscapes.all (fun p => ascii p.2) := by decide
    have he : ascii e := List.all_eq_true.mp hshort (c, e) (mem_of_lookup h)
    rw [List.forall_mem_cons, List.forall_mem_singleton]
    exact ⟨by decide, he⟩
  | none =>
    dsimp only
    split
    · next hc =>
      rw [List.forall_mem_singleton, ascii, decide_eq_true_eq]
      omega
    · rw [unicodeEscape]
      split
      · simp only [List.forall_mem_cons]
        exact ⟨by decide, by decide, hhex _⟩
      · intro x hx
        simp only [List.cons_append, List.mem_cons, List.mem_append] at hx
        obtain rfl | rfl | hx | rfl | rfl | hx := hx <;> first | decide | exact hhex _ x hx

theorem forall_mem_joined {α : Type} {P : Char → Prop} {sep closes : Char} {enc : α → List Char}
    (hsep : P sep)
    (hcloses : P closes) {xs : List α} (h : ∀ x ∈ xs, ∀ c ∈ enc x, P c) :
    ∀ c ∈ joined sep closes enc xs, P c := by
  induction xs using joined.induct with
  | case1 => simpa [joined] using hcloses
  | case2 x =>
    rw [joined, List.forall_mem_append, List.forall_mem_singleton]
    exact ⟨h x List.mem_cons_self, hcloses⟩
  | case3 x y xs ih =>
    obtain ⟨hx, hxs⟩ := List.forall_mem_cons.mp h
    rw [joined, List.forall_mem_append, List.forall_mem_cons]
    exact ⟨hx, hsep, ih hxs⟩

theorem ascii_quote (s : String) : ∀ c ∈ quote s, ascii c := by
  have hbody : ∀ cs : List Char, ∀ c ∈ terminated '"' escape cs, ascii c := by
    intro cs
    induction cs with
    | nil => exact List.forall_mem_singleton.mpr (by decide)
    | cons c cs ih =>
      rw [terminated, List.forall_mem_append]
      exact ⟨ascii_escape c, ih⟩
  rw [quote, List.forall_mem_cons]
  exact ⟨by decide, hbody s.toList⟩

theorem mem_floatChars_of_isDigit {c : Char} (h : c.isDigit) : c ∈ floatChars := by
  have hall : ∀ n < 10, Char.ofNat (48 + n) ∈ floatChars := by decide
  simp only [Char.isDigit, Bool.and_eq_true, decide_eq_true_eq, UInt32.le_iff_toNat_le] at h
  have hn : c = Char.ofNat (48 + (c.toNat - 48)) := by
    have hc : 48 + (c.toNat - 48) = c.toNat := Nat.add_sub_cancel' h.1
    rw [hc, Char.ofNat_toNat]
  have hlt : c.toNat - 48 < 10 := by
    have hle : c.toNat ≤ 57 := h.2
    omega
  rw [hn]
  exact hall _ hlt

theorem numberChars_mem (n : Number) : ∀ c ∈ numberChars n, c ∈ floatChars := by
  cases n with
  | int n =>
    have hdigits : ∀ m : Nat, ∀ c ∈ (toString m).toList, c ∈ floatChars := by
      intro m c hc
      have hd : c ∈ Nat.toDigits 10 m := by simpa using hc
      exact mem_floatChars_of_isDigit (Nat.isDigit_of_mem_toDigits (by decide) (by decide) hd)
    cases n with
    | ofNat m => exact hdigits m
    | negSucc m =>
      have hneg : numberChars (.int (.negSucc m)) = '-' :: (toString (m + 1)).toList := by
        simp [numberChars, toString, Int.repr]
      rw [hneg, List.forall_mem_cons]
      exact ⟨by decide, hdigits (m + 1)⟩
  | float x => exact fun c hc => of_decide_eq_true (List.all_eq_true.mp x.chars c hc)

theorem ascii_serialize (v : Json) : ∀ c ∈ serialize v, ascii c := by
  have hnumber : ∀ n, ∀ c ∈ numberChars n, ascii c := by
    have hfloat : floatChars.all ascii := by decide
    exact fun n c hc => List.all_eq_true.mp hfloat c (numberChars_mem n c hc)
  unfold serialize
  induction v using JsonOf.induct with
  | null => exact List.all_eq_true.mp (by decide : "null".toList.all ascii)
  | bool b =>
    cases b with
    | true => exact List.all_eq_true.mp (by decide : "true".toList.all ascii)
    | false => exact List.all_eq_true.mp (by decide : "false".toList.all ascii)
  | num n => exact hnumber n
  | str s => exact ascii_quote s
  | arr items ih =>
    rw [dumpsChars_arr, dumpsItems_eq, List.forall_mem_cons]
    exact ⟨by decide, forall_mem_joined (by decide) (by decide) ih⟩
  | obj fields ih =>
    rw [dumpsChars_obj, dumpsFields_eq, List.forall_mem_cons]
    refine ⟨by decide, forall_mem_joined (by decide) (by decide) fun p hp => ?_⟩
    rw [dumpsField, List.forall_mem_append, List.forall_mem_cons]
    exact ⟨ascii_quote p.1, by decide, ih p hp⟩

theorem utf8ByteSize_of_ascii {text : List Char} (h : ∀ c ∈ text, ascii c) :
    (String.ofList text).utf8ByteSize = text.length := by
  induction text with
  | nil => rfl
  | cons c text ih =>
    obtain ⟨hc, htext⟩ := List.forall_mem_cons.mp h
    have hsize : c.utf8Size = 1 := by
      have hn : c.toNat < 128 := of_decide_eq_true hc
      exact Char.utf8Size_eq_one_iff.mpr (Nat.le_of_lt_succ hn)
    have hsplit : String.ofList (c :: text) = String.singleton c ++ String.ofList text := by
      apply String.toList_inj.mp
      simp
    rw [hsplit, String.utf8ByteSize_append, String.utf8ByteSize_singleton, hsize, ih htext, List.length_cons,
      Nat.add_comm]

/-- The text has as many bytes as characters. -/
theorem utf8ByteSize_serialize (v : Json) :
    (String.ofList (serialize v)).utf8ByteSize = (serialize v).length :=
  utf8ByteSize_of_ascii (ascii_serialize v)

end Ascii

section Truncated

theorem prefix_sliceTo (text : List Char) (n : Int) : sliceTo text n <+: text := by
  rw [sliceTo]
  split <;> exact List.take_prefix _ _

theorem sliceTo_ne {text : List Char} {n : Int} (hne : text ≠ []) (h : n < text.length) :
    sliceTo text n ≠ text := by
  have hpos := List.length_pos_iff.mpr hne
  intro heq
  have hlen := congrArg List.length heq
  rw [sliceTo] at hlen
  split at hlen <;> rw [List.length_take] at hlen <;> omega

theorem isContainer_sortKeys {body : Json} (h : isContainer body = true) :
    isContainer (sortKeys body) = true := by
  cases body with
  | arr items | obj fields => rw [sortKeys]; rfl
  | null | bool b | num n | str s => cases h

theorem serialize_ne_nil {body : Json} (h : isContainer body = true) : serialize body ≠ [] := by
  cases body with
  | arr items =>
    rw [serialize, dumpsChars_arr]
    exact List.cons_ne_nil _ _
  | obj fields =>
    rw [serialize, dumpsChars_obj]
    exact List.cons_ne_nil _ _
  | null | bool b | num n | str s => cases h

/-- No proper prefix of the text of an object or an array is a JSON text. -/
theorem loads_cut (floatOf : List Char → PyFloat) {body : Json} (h : isContainer body = true)
    {u : List Char} (hu : u <+: serialize body) (hproper : u ≠ serialize body) :
    loads floatOf u = none := by
  have hflat : ∀ n, ∀ c ∈ numberChars n, flat c := by
    have hfloat : floatChars.all flat := by decide
    exact fun n c hc => List.all_eq_true.mp hfloat c (numberChars_mem n c hc)
  cases body with
  | arr items => exact loads_cut_array floatOf hflat items hu hproper
  | obj fields => exact loads_cut_object floatOf hflat fields hu hproper
  | null | bool b | num n | str s => cases h

/-- An object or an array that does not fit the cap is never kept in part. -/
theorem normalize_container (settings : Settings) (maxBytes : Option Int) {body : Json}
    (h : isContainer body = true) :
    normalize settings maxBytes body =
      if capOf settings maxBytes < (serialize (sortKeys body)).length then
        truncationMarker (serialize (sortKeys body)).length
      else sortKeys body := by
  have hsorted := isContainer_sortKeys h
  rw [normalize]
  split
  · next hcap =>
    have hcut : loads settings.floatOf
        (sliceTo (serialize (sortKeys body)) (capOf settings maxBytes)) = none :=
      loads_cut settings.floatOf hsorted (prefix_sliceTo _ _)
        (sliceTo_ne (serialize_ne_nil hsorted) hcap)
    rw [hcut]
  · rfl

/-- A body beyond the cap becomes the marker, and no cut of its text could have been read. -/
theorem normalize_truncated (settings : Settings) {body : Json} (hbody : isContainer body = true)
    {cap : Int} (hcap : 1 ≤ cap)
    (hsize : cap < (String.ofList (serialize (sortKeys body))).utf8ByteSize) :
    normalize settings (some cap) body =
        truncationMarker (String.ofList (serialize (sortKeys body))).utf8ByteSize ∧
      ∀ v, isContainer v = true → ∀ u, u <+: serialize v → u ≠ serialize v →
        loads settings.floatOf u = none := by
  have hcapOf : capOf settings (some cap) = cap := if_neg (by omega)
  rw [utf8ByteSize_serialize] at hsize ⊢
  refine ⟨?_, fun v hv u hu hproper => loads_cut settings.floatOf hv hu hproper⟩
  rw [normalize_container settings (some cap) hbody, hcapOf, if_pos hsize]

theorem normalize_truncated_nested :
    let body : Json := .arr [.str "]", .obj [("b", .num (.int (-12))), ("a", .arr [.null])]]
    let settings : Settings := ⟨262144, fun _ => ⟨"NaN", by decide⟩⟩
    normalize settings (some 25) body =
        truncationMarker (String.ofList (serialize (sortKeys body))).utf8ByteSize ∧
      ∀ v, isContainer v = true → ∀ u, u <+: serialize v → u ≠ serialize v →
        loads settings.floatOf u = none := by
  intro body settings
  have hsize : (25 : Int) < (String.ofList (serialize (sortKeys body))).utf8ByteSize := by
    rw [utf8ByteSize_serialize]
    decide
  exact normalize_truncated settings rfl (by decide) hsize

end Truncated

section Rekeyed

/-- One value becomes the other by reordering the keys of objects, at any depth. -/
inductive Rekeyed : Json → Json → Prop
  | refl (v : Json) : Rekeyed v v
  | trans {u v w : Json} : Rekeyed u v → Rekeyed v w → Rekeyed u w
  | entries {fs gs : List (String × Json)} : fs.Perm gs → Rekeyed (.obj fs) (.obj gs)
  | item (l r : List Json) {x y : Json} :
    Rekeyed x y → Rekeyed (.arr (l ++ x :: r)) (.arr (l ++ y :: r))
  | entry (l r : List (String × Json)) (k : String) {v w : Json} :
    Rekeyed v w → Rekeyed (.obj (l ++ (k, v) :: r)) (.obj (l ++ (k, w) :: r))

/-- Sorting the keys picks one of all the values that differ in key order alone. -/
theorem sortKeys_of_rekeyed {v w : Json} (h : Rekeyed v w) (hv : v.wf) :
    w.wf ∧ sortKeys v = sortKeys w := by
  induction h with
  | refl v => exact ⟨hv, rfl⟩
  | trans _ _ ih ih' =>
    obtain ⟨hw, heq⟩ := ih hv
    obtain ⟨hu, heq'⟩ := ih' hw
    exact ⟨hu, heq.trans heq'⟩
  | @entries fs gs hp =>
    obtain ⟨hn, hfs⟩ := (JsonOf.wf_obj_iff fs).mp hv
    have hgn : (keys gs).Nodup := (hp.map Prod.fst).nodup_iff.mp hn
    refine ⟨(JsonOf.wf_obj_iff gs).mpr ⟨hgn, fun p hp' => hfs p (hp.mem_iff.mpr hp')⟩, ?_⟩
    have hkeys : ∀ d : List (String × Json), keys (sortKeysFields d) = keys d := by
      intro d
      rw [sortKeysFields_eq, keys, List.map_map]
      rfl
    rw [sortKeys, sortKeys, JsonOf.obj.injEq, sortByKey_eq_iff (by rwa [hkeys]) (by rwa [hkeys])]
    intro k
    rw [sortKeysFields_eq, sortKeysFields_eq, lookup_map_snd, lookup_map_snd, lookup_perm hn hp]
  | item l r _ ih =>
    simp only [JsonOf.wf_arr_iff, List.forall_mem_append, List.forall_mem_cons] at hv ⊢
    obtain ⟨hl, hx, hr⟩ := hv
    obtain ⟨hy, heq⟩ := ih hx
    refine ⟨⟨hl, hy, hr⟩, ?_⟩
    simp only [sortKeys, sortKeysItems_eq, List.map_append, List.map_cons, heq]
  | entry l r k _ ih =>
    simp only [JsonOf.wf_obj_iff, keys, List.map_append, List.map_cons, List.forall_mem_append,
      List.forall_mem_cons] at hv ⊢
    obtain ⟨hn, hl, hx, hr⟩ := hv
    obtain ⟨hy, heq⟩ := ih hx
    refine ⟨⟨hn, hl, hy, hr⟩, ?_⟩
    simp only [sortKeys, sortKeysFields_eq, List.map_append, List.map_cons, heq]

/-- Normalising forgets the order of keys, whether or not the body fits the cap, and so do the
schema inferred from the result and its hash. -/
theorem normalize_eq_of_rekeyed (settings : Settings) (maxBytes : Option Int)
    (sha256 : ByteArray → String)
    {b₁ b₂ : Json} (hb₁ : b₁.wf) (h : Rekeyed b₁ b₂) :
    normalize settings maxBytes b₁ = normalize settings maxBytes b₂ ∧
      inferSchema (normalize settings maxBytes b₁) = inferSchema (normalize settings maxBytes b₂) ∧
      stableSchemaHash sha256 (inferSchema (normalize settings maxBytes b₁)) =
        stableSchemaHash sha256 (inferSchema (normalize settings maxBytes b₂)) := by
  have hnormal : normalize settings maxBytes b₁ = normalize settings maxBytes b₂ := by
    rw [normalize, normalize, (sortKeys_of_rekeyed h hb₁).2]
  exact ⟨hnormal, by rw [hnormal], by rw [hnormal]⟩

theorem normalize_eq_of_rekeyed_nested :
    let b₁ : Json := .obj [("user", .obj [("id", .num (.int 1)), ("name", .str "x")]), ("a", .arr [.null])]
    let b₂ : Json := .obj [("a", .arr [.null]), ("user", .obj [("name", .str "x"), ("id", .num (.int 1))])]
    let settings : Settings := ⟨262144, fun _ => ⟨"NaN", by decide⟩⟩
    b₁ ≠ b₂ ∧ normalize settings none b₁ = normalize settings none b₂ := by
  intro b₁ b₂ settings
  have hmember : Rekeyed b₁ (.obj [("user", .obj [("name", .str "x"), ("id", .num (.int 1))]), ("a", .arr [.null])]) :=
    .entry [] [("a", .arr [.null])] "user" (.entries (List.Perm.swap _ _ _))
  have h : Rekeyed b₁ b₂ := hmember.trans (.entries (List.Perm.swap _ _ _))
  exact ⟨by decide, (normalize_eq_of_rekeyed settings none (sampleSha256 []) (by decide) h).1⟩

end Rekeyed

end SchemaPilot.Normalizer
