import SchemaPilot.Occurrences
import Mathlib.Data.Finset.Card

namespace SchemaPilot.NodeTypes

open Keyed SchemaInfer SchemaNotes NodeSummary Occurrences

section Enum

def asText : Json → Option String
  | .str s => some s
  | _ => none

/-- The distinct strings that occur at a path. -/
def textsAt (data : Json) (path : String) : Finset String :=
  ((valuesAt data path).filterMap asText).toFinset

theorem mem_texts_iff {data : Json} {path text : String} :
    text ∈ texts (notesAt path (walkNotes data)) ↔ text ∈ textsAt data path := by
  have hnotes : text ∈ texts (notesAt path (walkNotes data)) ↔
      .scalar (.str text) ∈ notesAt path (walkNotes data) := by
    simp only [texts, List.mem_filterMap]
    constructor
    · rintro ⟨n, hn, heq⟩
      split at heq
      · cases heq
        exact hn
      · cases heq
    · exact fun h => ⟨_, h, rfl⟩
  rw [hnotes, mem_notesAt_iff data path rfl, textsAt, List.mem_toFinset, List.mem_filterMap]
  refine exists_congr fun v => and_congr_right fun _ => ?_
  cases v <;> simp [noteOf, asText]

theorem sort_toFinset_eq (values : List String) :
    values.toFinset.sort (· ≤ ·) = sortedStrings values.dedup := by
  have hnodup : (sortedStrings values.dedup).Nodup :=
    (List.perm_insertionSort _ _).nodup_iff.mpr (List.nodup_dedup values)
  have hset : values.toFinset = (sortedStrings values.dedup).toFinset := by
    ext x
    rw [List.mem_toFinset, List.mem_toFinset, sortedStrings, List.mem_insertionSort, List.mem_dedup]
  rw [hset]
  exact (List.toFinset_sort (· ≤ ·) hnodup).mpr (List.pairwise_insertionSort _ _)

theorem enumOf_eq (values : List String) :
    enumOf values = if 1 ≤ values.toFinset.card ∧ values.toFinset.card ≤ ENUM_THRESHOLD then
      some (values.toFinset.sort (· ≤ ·)) else none := by
  rw [sort_toFinset_eq, enumOf, List.card_toFinset]
  by_cases hnil : values = []
  · simp [hnil]
  · have hpos : 1 ≤ values.dedup.length :=
      List.length_pos_iff.mpr fun h => hnil ((List.dedup_eq_nil values).mp h)
    by_cases hlong : ENUM_THRESHOLD < values.dedup.length
    · rw [if_pos (.inr hlong), if_neg fun h => absurd h.2 (Nat.not_le.mpr hlong)]
    · rw [if_neg (not_or.mpr ⟨hnil, hlong⟩), if_pos ⟨hpos, Nat.not_lt.mp hlong⟩]

/-- A node is nullable when a null occurs at its path, and its enum is the sorted set of the strings
that occur there, unless there are none or too many. -/
theorem nullable_enum_of_occurrences (data : Json) (n : SchemaNode) (h : n ∈ inferSchema data) :
    (n.nullable = true ↔ .null ∈ valuesAt data n.path) ∧
      n.enumValues =
        if 1 ≤ (textsAt data n.path).card ∧ (textsAt data n.path).card ≤ 10 then
          some ((textsAt data n.path).sort (· ≤ ·))
        else none := by
  obtain ⟨s, rfl, -, hs⟩ := summary_of_mem h
  constructor
  · have hnull : .null ∈ valuesAt data (finalize s).path ↔
        .null ∈ notesAt (finalize s).path (walkNotes data) := by
      rw [mem_notesAt_iff data _ rfl]
      constructor
      · exact fun hv => ⟨_, hv, rfl⟩
      · rintro ⟨v, hv, heq⟩
        cases v with
        | null => exact hv
        | _ => cases heq
    rw [hnull]
    exact hs.nullable
  · have htexts : (texts (notesAt (finalize s).path (walkNotes data))).toFinset =
        textsAt data (finalize s).path := by
      ext text
      rw [List.mem_toFinset, mem_texts_iff]
    rw [← htexts, enumValues_finalize hs.enum, enumOf_eq]
    rfl

theorem nullable_enum_of_occurrences_status :
    let data : Json := .obj [("users", .arr [.obj [("status", .str "b")], .obj [("status", .null)],
      .obj [("status", .str "a")], .obj [("status", .str "b")]])]
    ∃ n ∈ inferSchema data, n.path = "users[*].status" ∧ n.nullable = true ∧
      n.enumValues = some ((textsAt data "users[*].status").sort (· ≤ ·)) := by
  intro data
  obtain ⟨n, hn, hpath⟩ : ∃ n ∈ inferSchema data, n.path = "users[*].status" := by
    rw [← List.mem_map]
    decide +kernel
  obtain ⟨hnull, henum⟩ := nullable_enum_of_occurrences data n hn
  rw [hpath] at hnull henum
  exact ⟨n, hn, hpath, hnull.mpr (by decide +kernel), henum.trans (if_pos (by decide +kernel))⟩

end Enum

section Kinds

/-- The kind of a value that is not null. -/
def kindOf : Json → Option JsonType
  | .null => none
  | .obj _ => some .object
  | .arr _ => some .array
  | v => some (scalarType v)

/-- The kinds of the values that occur at a path. -/
def kindsAt (data : Json) (path : String) : Finset JsonType :=
  ((valuesAt data path).filterMap kindOf).toFinset

/-- The type that joins some kinds, whatever their order. -/
structure IsJoin (kinds : Finset JsonType) (t : JsonType) : Prop where
  one : ∀ k, kinds = {k} → t = k
  many : 1 < kinds.card → t = .mixed
  none : kinds = ∅ → t = .null

def containers : Finset JsonType := {.object, .array}

def isContainer : Json → Bool
  | .obj _ | .arr _ => true
  | _ => false

/-- Neither an object nor an array occurs at the path, or scalars of two kinds do, or the first
value there is an object or an array, and a scalar comes after it or no container of the other kind. -/
def Joinable (data : Json) (path : String) : Prop :=
  Disjoint (kindsAt data path) containers ∨ 1 < (kindsAt data path \ containers).card ∨
    (∃ first ∈ (valuesAt data path).head?, isContainer first = true) ∧
      ((kindsAt data path \ containers).Nonempty ∨ (kindsAt data path).card = 1)

theorem mem_kindsAt {data : Json} {path : String} {k : JsonType} :
    k ∈ kindsAt data path ↔ ∃ v ∈ valuesAt data path, kindOf v = some k := by
  rw [kindsAt, List.mem_toFinset, List.mem_filterMap]

theorem isJoin_merged {ts : List JsonType} : IsJoin ts.toFinset (merged ts) := by
  refine ⟨fun k hk => ?_, fun hcard => ?_, fun hempty => ?_⟩
  · have hmem : ∀ u, u ∈ ts ↔ u = k := fun u => by
      rw [← List.mem_toFinset, hk, Finset.mem_singleton]
    exact merged_of_all ((hmem k).mpr rfl) fun u hu => (hmem u).mp hu
  · obtain ⟨t, ht, u, hu, hne⟩ := Finset.one_lt_card.mp hcard
    exact merged_of_ne (List.mem_toFinset.mp ht) (List.mem_toFinset.mp hu) hne
  · rw [(List.toFinset_eq_empty_iff ts).mp hempty]
    rfl

theorem IsJoin.cases {K : Finset JsonType} {t : JsonType} (h : IsJoin K t) :
    (K = ∅ ∧ t = .null) ∨ K = {t} ∨ (1 < K.card ∧ t = .mixed) := by
  obtain hempty | hne := K.eq_empty_or_nonempty
  · exact .inl ⟨hempty, h.none hempty⟩
  · by_cases hmany : 1 < K.card
    · exact .inr (.inr ⟨hmany, h.many hmany⟩)
    · have hpos : 0 < K.card := Finset.card_pos.mpr hne
      obtain ⟨k, rfl⟩ := Finset.card_eq_one.mp (show K.card = 1 by omega)
      exact .inr (.inl (by rw [h.one k rfl]))

theorem IsJoin.unique {K : Finset JsonType} {t u : JsonType} (ht : IsJoin K t) (hu : IsJoin K u) :
    t = u := by
  obtain ⟨hempty, rfl⟩ | hone | ⟨hmany, rfl⟩ := ht.cases
  · exact (hu.none hempty).symm
  · exact (hu.one t hone).symm
  · exact (hu.many hmany).symm

section AtPath

variable (data : Json) (path : String)

/-- The scalar types of the notes are the kinds that are neither object nor array. -/
theorem toFinset_scalarTypes :
    (scalarTypes (notesAt path (walkNotes data))).toFinset = kindsAt data path \ containers := by
  ext t
  rw [List.mem_toFinset, mem_scalarTypes, Finset.mem_sdiff, mem_kindsAt]
  constructor
  · rintro ⟨v, hv, rfl⟩
    obtain ⟨w, hw, heq⟩ := (mem_notesAt_iff data path rfl).mp hv
    cases w with
    | null | arr items | obj fields => cases heq
    | bool b | str s =>
      cases heq
      exact ⟨⟨_, hw, rfl⟩, by simp [containers, scalarType]⟩
    | num x =>
      cases heq
      refine ⟨⟨_, hw, rfl⟩, ?_⟩
      cases x <;> simp [containers, scalarType]
  · rintro ⟨⟨v, hv, hkind⟩, hnot⟩
    cases v with
    | null => cases hkind
    | arr items | obj fields =>
      cases hkind
      exact absurd (by decide) hnot
    | bool b | str s | num x =>
      exact ⟨_, (mem_notesAt_iff data path rfl).mpr ⟨_, hv, rfl⟩, Option.some.inj hkind⟩

theorem opening_eq_some_iff {t : JsonType} :
    opening (notesAt path (walkNotes data)) = some t ↔
      ∃ v ∈ (valuesAt data path).head?, isContainer v = true ∧ kindOf v = some t := by
  have hhead : ∀ ns : List Note, opening ns = some t ↔ ns.head? = some (.container t) := by
    intro ns
    cases ns with
    | nil => simp [opening]
    | cons n ns => cases n <;> simp [opening]
  rw [hhead, head?_notesAt, Option.map_eq_some_iff]
  refine exists_congr fun v => and_congr_right fun _ => ?_
  cases v <;> simp [noteOf, isContainer, kindOf]

end AtPath

theorem ne_of_mem_containers {t : JsonType} (h : t ∈ containers) : t ≠ .mixed ∧ t ≠ .null := by
  simp only [containers, Finset.mem_insert, Finset.mem_singleton] at h
  obtain rfl | rfl := h <;> decide

theorem one_lt_card_of_mem {K : Finset JsonType} {t u : JsonType} (ht : t ∈ K) (hu : u ∈ K)
    (hne : t ≠ u) : 1 < K.card :=
  Finset.one_lt_card.mpr ⟨t, ht, u, hu, hne⟩

/-- More kinds than one have no other join than `mixed`. -/
theorem isJoin_iff_of_card {K : Finset JsonType} (h : 1 < K.card) {t : JsonType} :
    IsJoin K t ↔ t = .mixed := by
  refine ⟨fun hj => hj.many h, fun ht => ⟨fun k hk => ?_, fun _ => ht, fun hempty => ?_⟩⟩
  · rw [hk, Finset.card_singleton] at h
    exact absurd h (lt_irrefl 1)
  · rw [hempty, Finset.card_empty] at h
    exact absurd h (Nat.not_lt_zero 1)

/-- A path whose first value is an object or an array. -/
theorem isJoin_opened {K scalars : Finset JsonType} {t : JsonType}
    (hscalars : K \ containers = scalars)
    (ht : t ∈ K) (hcontainer : t ∈ containers) :
    IsJoin K (if scalars = ∅ then t else .mixed) ↔ scalars.Nonempty ∨ K.card = 1 := by
  by_cases hempty : scalars = ∅
  · rw [if_pos hempty, or_iff_right (Finset.not_nonempty_iff_eq_empty.mpr hempty)]
    constructor
    · intro hj
      by_contra hcard
      have hpos : 0 < K.card := Finset.card_pos.mpr ⟨t, ht⟩
      exact (ne_of_mem_containers hcontainer).1 (hj.many (by omega))
    · intro hcard
      obtain ⟨k, rfl⟩ := Finset.card_eq_one.mp hcard
      obtain rfl := Finset.mem_singleton.mp ht
      refine ⟨fun j hj => Finset.singleton_injective hj, fun hlt => ?_, fun hnil => ?_⟩
      · exact absurd hlt (by rw [hcard]; decide)
      · exact absurd hnil (Finset.singleton_ne_empty _)
  · rw [if_neg hempty]
    have hne := Finset.nonempty_iff_ne_empty.mpr hempty
    refine iff_of_true ?_ (.inl hne)
    obtain ⟨u, hu⟩ := hne
    rw [← hscalars, Finset.mem_sdiff] at hu
    exact (isJoin_iff_of_card (one_lt_card_of_mem ht hu.1 fun h => hu.2 (h ▸ hcontainer))).mpr rfl

/-- A path whose first value is null or a scalar. -/
theorem isJoin_unopened {K scalars : Finset JsonType} {t : JsonType}
    (hscalars : K \ containers = scalars)
    (hproper : ∀ u ∈ scalars, u ≠ .mixed) (ht : IsJoin scalars t) :
    IsJoin K t ↔ Disjoint K containers ∨ 1 < scalars.card := by
  by_cases hdisjoint : Disjoint K containers
  · rw [Finset.sdiff_eq_self_of_disjoint hdisjoint] at hscalars
    exact iff_of_true (hscalars ▸ ht) (.inl hdisjoint)
  · rw [or_iff_right hdisjoint]
    obtain ⟨c, hc, hcontainer⟩ := Finset.not_disjoint_iff.mp hdisjoint
    obtain ⟨hcmixed, hcnull⟩ := ne_of_mem_containers hcontainer
    have hsub : scalars ⊆ K := hscalars ▸ Finset.sdiff_subset
    by_cases hcard : 1 < scalars.card
    · refine iff_of_true ?_ hcard
      exact (isJoin_iff_of_card (hcard.trans_le (Finset.card_le_card hsub))).mpr (ht.many hcard)
    · refine iff_of_false (fun hj => ?_) hcard
      obtain hempty | ⟨u, hu⟩ := scalars.eq_empty_or_nonempty
      · have hnull : t = .null := ht.none hempty
        by_cases hK : 1 < K.card
        · rw [hj.many hK] at hnull
          cases hnull
        · have hpos : 0 < K.card := Finset.card_pos.mpr ⟨c, hc⟩
          obtain ⟨k, rfl⟩ := Finset.card_eq_one.mp (show K.card = 1 by omega)
          obtain rfl := Finset.mem_singleton.mp hc
          exact hcnull ((hj.one c rfl).symm.trans hnull)
      · have hone : scalars = {u} := by
          have hpos : 0 < scalars.card := Finset.card_pos.mpr ⟨u, hu⟩
          obtain ⟨w, rfl⟩ := Finset.card_eq_one.mp (show scalars.card = 1 by omega)
          rw [Finset.mem_singleton.mp hu]
        have hcu : c ≠ u := by
          rintro rfl
          exact (Finset.mem_sdiff.mp (hscalars ▸ hu)).2 hcontainer
        exact hproper u hu ((ht.one u hone).symm.trans (hj.many (one_lt_card_of_mem hc (hsub hu) hcu)))

section Opened

variable {data : Json} {n : SchemaNode}

/-- The type of a node whose first value is an object or an array. -/
theorem type_of_opened (hn : n ∈ inferSchema data)
    (h : ∃ first ∈ (valuesAt data n.path).head?, isContainer first = true) :
    ∃ t ∈ containers, t ∈ kindsAt data n.path ∧
      n.type = if kindsAt data n.path \ containers = ∅ then t else .mixed := by
  obtain ⟨s, rfl, -, hs⟩ := summary_of_mem hn
  obtain ⟨v, hv, hcontainer⟩ := h
  obtain ⟨t, ht, hmem⟩ : ∃ t, kindOf v = some t ∧ t ∈ containers := by
    cases v <;> cases hcontainer <;> exact ⟨_, rfl, by decide⟩
  have htype : (finalize s).type = typeOf (notesAt (finalize s).path (walkNotes data)) := hs.type
  have hnil := List.toFinset_eq_empty_iff (scalarTypes (notesAt (finalize s).path (walkNotes data)))
  rw [toFinset_scalarTypes] at hnil
  rw [typeOf, (opening_eq_some_iff data _).mpr ⟨v, hv, hcontainer, ht⟩] at htype
  refine ⟨t, hmem, mem_kindsAt.mpr ⟨v, List.mem_of_mem_head? hv, ht⟩, ?_⟩
  exact htype.trans (if_congr hnil.symm rfl rfl)

theorem isJoin_of_not_opened (hn : n ∈ inferSchema data)
    (h : ¬∃ first ∈ (valuesAt data n.path).head?, isContainer first = true) :
    IsJoin (kindsAt data n.path \ containers) n.type := by
  obtain ⟨s, rfl, -, hs⟩ := summary_of_mem hn
  have htype : (finalize s).type = typeOf (notesAt (finalize s).path (walkNotes data)) := hs.type
  have hopening : opening (notesAt (finalize s).path (walkNotes data)) = none := by
    by_contra hne
    obtain ⟨t, ht⟩ := Option.ne_none_iff_exists'.mp hne
    obtain ⟨v, hv, hcontainer, -⟩ := (opening_eq_some_iff data _).mp ht
    exact h ⟨v, hv, hcontainer⟩
  rw [htype, typeOf, hopening, ← toFinset_scalarTypes]
  exact isJoin_merged

theorem ne_mixed_of_scalar {path : String} {t : JsonType} (h : t ∈ kindsAt data path \ containers) :
    t ≠ .mixed := by
  rw [← toFinset_scalarTypes, List.mem_toFinset] at h
  have hnotes : ∀ m ∈ notesAt path (walkNotes data), m.Proper :=
    fun m hm => proper_walkNotes data (_, m) (mem_notesAt.mp hm)
  exact (proper_scalarTypes hnotes h).2.1

end Opened

/-- The type of a node joins the kinds that occur at its path exactly in these cases. -/
theorem type_isJoin_iff (data : Json) (n : SchemaNode) (h : n ∈ inferSchema data) :
    IsJoin (kindsAt data n.path) n.type ↔ Joinable data n.path := by
  rw [Joinable]
  by_cases hopened : ∃ first ∈ (valuesAt data n.path).head?, isContainer first = true
  · obtain ⟨t, hcontainer, ht, htype⟩ := type_of_opened h hopened
    have hdisjoint : ¬Disjoint (kindsAt data n.path) containers :=
      fun hd => Finset.disjoint_left.mp hd ht hcontainer
    rw [htype, isJoin_opened rfl ht hcontainer, or_iff_right hdisjoint]
    constructor
    · exact fun hrest => .inr ⟨hopened, hrest⟩
    · rintro (hcard | ⟨-, hrest⟩)
      · exact .inl (Finset.card_pos.mp (by omega))
      · exact hrest
  · rw [isJoin_unopened rfl (fun _ => ne_mixed_of_scalar) (isJoin_of_not_opened h hopened), ← or_assoc]
    exact (or_iff_left fun hfirst => hopened hfirst.1).symm

theorem type_isJoin_iff_items :
    let data : Json := .obj [("items", .arr [.num (.int 1), .null, .str "two"])]
    ∃ n ∈ inferSchema data, n.path = "items[*]" ∧ IsJoin (kindsAt data n.path) n.type := by
  intro data
  obtain ⟨n, hn, hpath⟩ : ∃ n ∈ inferSchema data, n.path = "items[*]" := by
    rw [← List.mem_map]
    decide +kernel
  refine ⟨n, hn, hpath, (type_isJoin_iff data n hn).mpr ?_⟩
  rw [hpath]
  exact .inl (by decide +kernel)

/-- An object after a null leaves the type `null`. -/
theorem object_after_null :
    let data : Json := .obj [("users", .arr [.obj [("profile", .null)], .obj [("profile", .obj [])]])]
    ∃ n ∈ inferSchema data, n.path = "users[*].profile" ∧ n.type = .null ∧
      kindsAt data n.path = {.object} ∧ ¬IsJoin (kindsAt data n.path) n.type := by
  intro data
  have hnode : (inferSchema data).map (fun n => (n.path, n.type)) =
      [("users", .array), ("users[*].profile", .null)] := by decide +kernel
  obtain ⟨n, hn, heq⟩ : ∃ n ∈ inferSchema data, (n.path, n.type) = ("users[*].profile", .null) := by
    rw [← List.mem_map (f := fun n : SchemaNode => (n.path, n.type)), hnode]
    decide
  obtain ⟨hpath, htype⟩ := Prod.mk.inj heq
  have hkinds : kindsAt data "users[*].profile" = {.object} := by decide +kernel
  refine ⟨n, hn, hpath, htype, hpath ▸ hkinds, fun h => ?_⟩
  rw [hpath, htype] at h
  cases h.one .object hkinds

end Kinds

end SchemaPilot.NodeTypes
