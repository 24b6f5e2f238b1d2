import SchemaPilot.SchemaNotes

namespace SchemaPilot.NodeSummary

open Keyed SchemaInfer SchemaNotes

section ClosedForm

def scalarTypes (ns : List Note) : List JsonType :=
  ns.filterMap (fun n => match n with | .scalar v => some (scalarType v) | _ => none)

def texts (ns : List Note) : List String :=
  ns.filterMap (fun n => match n with | .scalar (.str s) => some s | _ => none)

def itemTypes (ns : List Note) : List JsonType :=
  ns.filterMap (fun n => match n with | .items t => some t | _ => none)

def merged : List JsonType → JsonType
  | [] => .null
  | t :: ts => if ∀ u ∈ ts, u = t then t else .mixed

/-- The object or array that the notes begin with. -/
def opening : List Note → Option JsonType
  | .container t :: _ => some t
  | _ => none

def typeOf (ns : List Note) : JsonType :=
  match opening ns with
  | some t => if scalarTypes ns = [] then t else .mixed
  | none => merged (scalarTypes ns)

def enumOf (values : List String) : Option (List String) :=
  if values = [] ∨ ENUM_THRESHOLD < values.dedup.length then none else some (sortedStrings values.dedup)

/-- What a state has kept of the strings seen at its path. -/
structure EnumOk (values : List String) (s : NodeState) : Prop where
  leaf : s.isStringLeaf = decide (values ≠ [])
  disabled : s.enumDisabled = decide (ENUM_THRESHOLD < values.dedup.length)
  nodup : s.enumValues.Nodup
  mem_iff : s.enumDisabled = false → ∀ text, text ∈ s.enumValues ↔ text ∈ values

/-- What a state holds after the notes of its path. -/
structure Summary (path : String) (ns : List Note) (s : NodeState) : Prop where
  path : s.path = path
  type : s.type = typeOf ns
  required : s.required = false ↔ .optional ∈ ns
  nullable : s.nullable = true ↔ .null ∈ ns
  item : s.arrayItemType = (itemTypes ns).getLast?.map JsonType.text
  enum : EnumOk (texts ns) s

theorem merged_of_all {ts : List JsonType} {t : JsonType} (ht : t ∈ ts) (hall : ∀ u ∈ ts, u = t) :
    merged ts = t := by
  cases ts with
  | nil => cases ht
  | cons u ts =>
    obtain ⟨rfl, hts⟩ := List.forall_mem_cons.mp hall
    rw [merged, if_pos hts]

theorem merged_of_ne {ts : List JsonType} {t u : JsonType} (ht : t ∈ ts) (hu : u ∈ ts) (hne : t ≠ u) :
    merged ts = .mixed := by
  cases ts with
  | nil => cases ht
  | cons w ts =>
    rw [merged, if_neg]
    intro hall
    have hw : ∀ x ∈ w :: ts, x = w := List.forall_mem_cons.mpr ⟨rfl, hall⟩
    exact hne ((hw t ht).trans (hw u hu).symm)

theorem merged_concat {ts : List JsonType} (hts : ∀ u ∈ ts, u ≠ .null ∧ u ≠ .mixed) (t : JsonType) :
    merged (ts ++ [t]) = if merged ts = .null ∨ merged ts = t then t else .mixed := by
  have ht : t ∈ ts ++ [t] := List.mem_append_right _ (List.mem_singleton.mpr rfl)
  cases ts with
  | nil => simp [merged]
  | cons u ts =>
    have hu : u ∈ u :: ts ++ [t] := List.mem_append_left _ List.mem_cons_self
    by_cases hall : ∀ w ∈ u :: ts, w = u
    · rw [merged_of_all List.mem_cons_self hall]
      by_cases htu : u = t
      · subst htu
        rw [if_pos (.inr rfl)]
        refine merged_of_all ht fun w hw => ?_
        obtain hw | hw := List.mem_append.mp hw
        · exact hall w hw
        · exact List.mem_singleton.mp hw
      · rw [merged_of_ne hu ht htu, if_neg]
        simp [(hts u List.mem_cons_self).1, htu]
    · simp only [not_forall] at hall
      obtain ⟨w, hw, hne⟩ := hall
      rw [merged_of_ne hw List.mem_cons_self hne,
        merged_of_ne (List.mem_append_left _ hw) hu hne]
      split
      · next h => exact h.elim nofun id
      · rfl

theorem merged_eq_null_iff {ts : List JsonType} (hts : ∀ u ∈ ts, u ≠ .null) :
    merged ts = .null ↔ ts = [] := by
  cases ts with
  | nil => simp [merged]
  | cons u ts =>
    have hu := hts u List.mem_cons_self
    simp only [merged, reduceCtorEq, iff_false]
    split
    · exact hu
    · simp

theorem proper_scalar {v : Json} (h : (Note.scalar v).Proper) :
    scalarType v ≠ .null ∧ scalarType v ≠ .mixed ∧ scalarType v ≠ .object ∧ scalarType v ≠ .array := by
  simp only [Note.Proper, List.mem_cons, List.not_mem_nil, or_false] at h
  obtain h | h | h | h := h <;> simp [h]

theorem mem_scalarTypes {ns : List Note} {t : JsonType} :
    t ∈ scalarTypes ns ↔ ∃ v, .scalar v ∈ ns ∧ scalarType v = t := by
  simp only [scalarTypes, List.mem_filterMap]
  constructor
  · rintro ⟨n, hn, ht⟩
    cases n with
    | scalar v => exact ⟨v, hn, Option.some.inj ht⟩
    | container t | null | items t | optional => cases ht
  · rintro ⟨v, hv, rfl⟩
    exact ⟨.scalar v, hv, rfl⟩

theorem proper_scalarTypes {ns : List Note} (h : ∀ n ∈ ns, n.Proper) {t : JsonType}
    (ht : t ∈ scalarTypes ns) : t ≠ .null ∧ t ≠ .mixed ∧ t ≠ .object ∧ t ≠ .array := by
  obtain ⟨v, hv, rfl⟩ := mem_scalarTypes.mp ht
  exact proper_scalar (h _ hv)

theorem opening_append {ns : List Note} (hns : ns ≠ []) (ms : List Note) :
    opening (ns ++ ms) = opening ns := by
  cases ns with
  | nil => exact absurd rfl hns
  | cons n ns => cases n <;> rfl

/-- A scalar settles the type of a path, or makes it mixed. -/
theorem typeOf_concat_scalar {ns : List Note} (hns : ns ≠ []) (h : ∀ n ∈ ns, n.Proper) {v : Json}
    (hv : (Note.scalar v).Proper) :
    typeOf (ns ++ [.scalar v]) =
      if typeOf ns = .null ∨ typeOf ns = scalarType v then scalarType v else .mixed := by
  have hs : scalarTypes (ns ++ [.scalar v]) = scalarTypes ns ++ [scalarType v] := by
    simp [scalarTypes]
  rw [typeOf, typeOf, opening_append hns, hs]
  cases ho : opening ns with
  | some t =>
    have ht : t = .object ∨ t = .array := by
      cases ns with
      | nil => cases ho
      | cons n ns =>
        cases n with
        | container u => exact Option.some.inj ho ▸ h _ List.mem_cons_self
        | null | scalar v | items u | optional => cases ho
    obtain ⟨hnull, hmixed, hobject, harray⟩ := proper_scalar hv
    simp only [List.append_eq_nil_iff, List.cons_ne_nil, and_false, if_false]
    rw [if_neg]
    split
    · obtain rfl | rfl := ht
      · simp [Ne.symm hobject]
      · simp [Ne.symm harray]
    · simp [Ne.symm hmixed]
  | none =>
    exact merged_concat (fun u hu => ⟨(proper_scalarTypes h hu).1, (proper_scalarTypes h hu).2.1⟩) _

theorem null_mem_of_typeOf {n : Note} {ns : List Note} (hn : n.opens.isSome)
    (h : ∀ m ∈ n :: ns, m.Proper) (ht : typeOf (n :: ns) = .null) : .null ∈ n :: ns := by
  cases n with
  | null => exact List.mem_cons_self
  | container t =>
    have hc : t = .object ∨ t = .array := h _ List.mem_cons_self
    rw [typeOf, opening] at ht
    dsimp only at ht
    split at ht
    · obtain rfl | rfl := hc <;> cases ht
    · cases ht
  | scalar v =>
    have hnil := (merged_eq_null_iff fun u hu => (proper_scalarTypes h hu).1).mp ht
    cases hnil
  | items t | optional => cases hn

theorem dedup_length_le_append (values ws : List String) :
    values.dedup.length ≤ (values ++ ws).dedup.length := by
  refine ((List.nodup_dedup values).subperm fun x hx => ?_).length_le
  exact List.mem_dedup.mpr (List.mem_append_left _ (List.mem_dedup.mp hx))

theorem enumOk_sawString_str {values : List String} {s : NodeState} (h : EnumOk values s)
    (text : String) : EnumOk (values ++ [text]) (s.sawString (.str text)) := by
  have hleaf : decide (values ++ [text] ≠ []) = true := by simp
  unfold NodeState.sawString
  by_cases hd : s.enumDisabled
  · have hlong : ENUM_THRESHOLD < values.dedup.length := of_decide_eq_true (h.disabled.symm.trans hd)
    simp only [hd, if_true]
    refine ⟨hleaf.symm, ?_, h.nodup, fun hfalse => absurd hfalse (by simp)⟩
    exact (decide_eq_true (hlong.trans_le (dedup_length_le_append _ _))).symm
  · rw [Bool.not_eq_true] at hd
    have hmem := h.mem_iff hd
    simp only [hd, Bool.false_eq_true, if_false]
    have hvalues : ∀ vs : List String, vs.Nodup → (∀ x, x ∈ vs ↔ x ∈ values ++ [text]) →
        EnumOk (values ++ [text]) (if ENUM_THRESHOLD < vs.length then
          { s with isStringLeaf := true, enumDisabled := true, enumValues := [] }
        else { s with isStringLeaf := true, enumDisabled := false, enumValues := vs }) := by
      intro vs hn hvs
      have hlen : vs.length = (values ++ [text]).dedup.length := by
        refine ((List.perm_ext_iff_of_nodup hn (List.nodup_dedup _)).mpr fun x => ?_).length_eq
        rw [hvs, List.mem_dedup]
      split
      · next hlong => exact ⟨hleaf.symm, (decide_eq_true (hlen ▸ hlong)).symm, List.nodup_nil, nofun⟩
      · next hshort => exact ⟨hleaf.symm, (decide_eq_false (hlen ▸ hshort)).symm, hn, fun _ => hvs⟩
    by_cases hm : text ∈ s.enumValues
    · rw [if_pos hm]
      refine hvalues _ h.nodup fun x => ?_
      rw [hmem, List.mem_append, List.mem_singleton]
      exact ⟨.inl, fun hx => hx.elim id fun he => he ▸ (hmem text).mp hm⟩
    · rw [if_neg hm]
      refine hvalues _ (List.nodup_cons.mpr ⟨hm, h.nodup⟩) fun x => ?_
      rw [List.mem_cons, hmem, List.mem_append, List.mem_singleton, or_comm]

theorem EnumOk.congr {values : List String} {s s' : NodeState} (h : EnumOk values s)
    (hleaf : s'.isStringLeaf = s.isStringLeaf) (hdisabled : s'.enumDisabled = s.enumDisabled)
    (hvalues : s'.enumValues = s.enumValues) : EnumOk values s' :=
  ⟨hleaf.trans h.leaf, hdisabled.trans h.disabled, hvalues ▸ h.nodup,
    fun hd => hvalues ▸ h.mem_iff (hdisabled ▸ hd)⟩

theorem enumOk_scalar {ns : List Note} {s : NodeState} (h : EnumOk (texts ns) s) (v : Json) :
    EnumOk (texts (ns ++ [.scalar v]))
      (((s.sawType (scalarType v)).sawExample v).sawString v) := by
  have hs : EnumOk (texts ns) ((s.sawType (scalarType v)).sawExample v) := by
    unfold NodeState.sawExample NodeState.sawType
    apply h.congr <;> split_ifs <;> rfl
  rw [texts, List.filterMap_append]
  cases v with
  | str text => exact enumOk_sawString_str hs text
  | null | bool b | num n | arr items | obj fields =>
    simp only [List.filterMap_cons, List.filterMap_nil, List.append_nil]
    exact hs

/-- Only the type and the nullability of a state depend on how a scalar's type meets it. -/
theorem apply_scalar (v : Json) (s : NodeState) :
    ((Note.scalar v).apply s).path = s.path ∧
      ((Note.scalar v).apply s).type = (s.sawType (scalarType v)).type ∧
      ((Note.scalar v).apply s).required = s.required ∧
      ((Note.scalar v).apply s).nullable = (s.sawType (scalarType v)).nullable ∧
      ((Note.scalar v).apply s).arrayItemType = s.arrayItemType := by
  have hstring : ∀ s' : NodeState, (s'.sawString v).path = s'.path ∧ (s'.sawString v).type = s'.type ∧
      (s'.sawString v).required = s'.required ∧ (s'.sawString v).nullable = s'.nullable ∧
      (s'.sawString v).arrayItemType = s'.arrayItemType := by
    intro s'
    cases v with
    | str text =>
      simp only [NodeState.sawString]
      split_ifs <;> exact ⟨rfl, rfl, rfl, rfl, rfl⟩
    | null | bool b | num n | arr items | obj fields => exact ⟨rfl, rfl, rfl, rfl, rfl⟩
  obtain ⟨hp, ht, hr, hn, hi⟩ := hstring ((s.sawType (scalarType v)).sawExample v)
  rw [Note.apply, hp, ht, hr, hn, hi]
  rw [NodeState.sawExample]
  split_ifs <;> refine ⟨?_, rfl, ?_, rfl, ?_⟩ <;> unfold NodeState.sawType <;> split_ifs <;> rfl

theorem summary_scalar {path : String} {n : Note} {ns : List Note} {s : NodeState}
    (hn : n.opens.isSome) (hproper : ∀ m ∈ n :: ns, m.Proper) (h : Summary path (n :: ns) s) {v : Json}
    (hv : (Note.scalar v).Proper) :
    Summary path (n :: ns ++ [.scalar v]) ((Note.scalar v).apply s) := by
  obtain ⟨hp, ht, hr, hnl, hi⟩ := apply_scalar v s
  refine ⟨hp.trans h.path, ?_, ?_, ?_, ?_, enumOk_scalar h.enum v⟩
  · rw [ht, typeOf_concat_scalar (List.cons_ne_nil _ _) hproper hv, ← h.type]
    rw [NodeState.sawType]
    split_ifs with h1 h2 h3 h3 <;> simp_all
  · rw [hr, h.required]
    simp
  · have hmem : .null ∈ n :: ns ++ [.scalar v] ↔ .null ∈ n :: ns := by simp
    rw [hnl, hmem, ← h.nullable]
    rw [NodeState.sawType]
    split_ifs with h1
    · have hnull := null_mem_of_typeOf hn hproper (h.type.symm.trans h1)
      exact ⟨fun _ => h.nullable.mpr hnull, fun _ => rfl⟩
    · rfl
    · rfl
  · rw [hi, h.item]
    simp [itemTypes]

theorem typeOf_concat {ns : List Note} (hns : ns ≠ []) (m : Note) (hm : scalarTypes [m] = []) :
    typeOf (ns ++ [m]) = typeOf ns := by
  have hs : scalarTypes (ns ++ [m]) = scalarTypes ns := by
    rw [scalarTypes, List.filterMap_append]
    exact (congrArg _ hm).trans (List.append_nil _)
  rw [typeOf, typeOf, opening_append hns, hs]

theorem itemTypes_concat (ns : List Note) (m : Note) (hm : itemTypes [m] = []) :
    itemTypes (ns ++ [m]) = itemTypes ns := by
  rw [itemTypes, List.filterMap_append]
  exact (congrArg _ hm).trans (List.append_nil _)

theorem EnumOk.concat {ns : List Note} {s : NodeState} (h : EnumOk (texts ns) s) (m : Note)
    (hm : texts [m] = []) (hleaf : (m.apply s).isStringLeaf = s.isStringLeaf)
    (hdisabled : (m.apply s).enumDisabled = s.enumDisabled)
    (hvalues : (m.apply s).enumValues = s.enumValues) : EnumOk (texts (ns ++ [m])) (m.apply s) := by
  have htexts : texts (ns ++ [m]) = texts ns := by
    rw [texts, List.filterMap_append]
    exact (congrArg _ hm).trans (List.append_nil _)
  exact htexts ▸ h.congr hleaf hdisabled hvalues

theorem summary_concat {path : String} {n : Note} {ns : List Note} {s : NodeState}
    (hn : n.opens.isSome) (hproper : ∀ m ∈ n :: ns, m.Proper) (h : Summary path (n :: ns) s) {m : Note}
    (hm : m.Proper) : Summary path (n :: ns ++ [m]) (m.apply s) := by
  have hne : n :: ns ≠ [] := List.cons_ne_nil _ _
  cases m with
  | scalar v => exact summary_scalar hn hproper h hm
  | container t =>
    refine ⟨h.path, h.type.trans (typeOf_concat hne (.container t) rfl).symm, ?_, ?_, ?_,
      h.enum.concat (.container t) rfl rfl rfl rfl⟩
    · simpa [Note.apply] using h.required
    · simpa [Note.apply] using h.nullable
    · rw [itemTypes_concat _ (.container t) rfl]
      exact h.item
  | null =>
    refine ⟨h.path, h.type.trans (typeOf_concat hne .null rfl).symm, ?_, ?_, ?_,
      h.enum.concat .null rfl rfl rfl rfl⟩
    · simpa [Note.apply, NodeState.sawNull] using h.required
    · simp [Note.apply, NodeState.sawNull]
    · rw [itemTypes_concat _ .null rfl]
      exact h.item
  | items t =>
    refine ⟨h.path, h.type.trans (typeOf_concat hne (.items t) rfl).symm, ?_, ?_, ?_,
      h.enum.concat (.items t) rfl rfl rfl rfl⟩
    · simpa [Note.apply] using h.required
    · simpa [Note.apply] using h.nullable
    · rw [itemTypes, List.filterMap_append]
      simp [Note.apply]
  | optional =>
    refine ⟨h.path, h.type.trans (typeOf_concat hne .optional rfl).symm, ?_, ?_, ?_,
      h.enum.concat .optional rfl rfl rfl rfl⟩
    · simp [Note.apply]
    · simpa [Note.apply] using h.nullable
    · rw [itemTypes_concat _ .optional rfl]
      exact h.item

/-- The first note of a path makes its state. -/
theorem summary_start (path : String) {n : Note} (hn : n.opens.isSome) (hproper : n.Proper) :
    ∃ s, noteAt path none n = some s ∧ Summary path [n] s := by
  cases n with
  | container t =>
    refine ⟨{ path, type := t }, rfl, rfl, rfl, ?_, ?_, rfl, rfl, rfl, List.nodup_nil, fun _ _ => Iff.rfl⟩
    · simp
    · simp
  | null =>
    refine ⟨_, rfl, rfl, rfl, ?_, ?_, rfl, rfl, rfl, List.nodup_nil, fun _ _ => Iff.rfl⟩
    · simp [Note.apply, NodeState.sawNull]
    · simp [Note.apply, NodeState.sawNull]
  | scalar v =>
    have hbase : EnumOk (texts []) ({ path, type := scalarType v } : NodeState) :=
      ⟨rfl, rfl, List.nodup_nil, fun _ _ => Iff.rfl⟩
    obtain ⟨hp, ht, hr, hnl, hi⟩ := apply_scalar v { path, type := scalarType v }
    have hsaw : NodeState.sawType { path, type := scalarType v } (scalarType v) =
        { path, type := scalarType v } := by
      simp [NodeState.sawType, (proper_scalar hproper).1]
    refine ⟨_, rfl, hp, ht.trans (by rw [hsaw]; rfl), ?_, ?_, hi, enumOk_scalar hbase v⟩
    · simp [hr]
    · simp [hnl, hsaw]
  | items t | optional => cases hn

/-- The notes of one path begin with one that makes its state. -/
def Started (ns : List Note) : Prop := ∀ n ∈ ns.head?, n.opens.isSome

theorem summary_foldl {path : String} {ns : List Note} (hns : ns ≠ []) (hstart : Started ns)
    (hproper : ∀ n ∈ ns, n.Proper) :
    ∃ s, ns.foldl (noteAt path) none = some s ∧ Summary path ns s := by
  induction ns using List.reverseRecOn with
  | nil => exact absurd rfl hns
  | append_singleton ns m ih =>
    have hm := hproper m (List.mem_append_right _ List.mem_cons_self)
    cases ns with
    | nil => exact summary_start path (hstart m rfl) hm
    | cons n ns =>
      have hn : n.opens.isSome := hstart n rfl
      have hold : ∀ m ∈ n :: ns, m.Proper := fun k hk => hproper k (List.mem_append_left _ hk)
      obtain ⟨s, hs, hsum⟩ := ih (List.cons_ne_nil _ _) (fun k hk => hstart k hk) hold
      refine ⟨m.apply s, ?_, summary_concat hn hold hsum hm⟩
      rw [List.foldl_append, hs]
      rfl

end ClosedForm

section Made

theorem lookup_tally (ks : List String) (seen : List (String × Nat)) (k : String) :
    (ks.foldl (fun seen k => set seen k ((seen.lookup k).getD 0 + 1)) seen).lookup k =
      if k ∈ ks then some ((seen.lookup k).getD 0 + ks.count k) else seen.lookup k := by
  induction ks generalizing seen with
  | nil => simp
  | cons j ks ih =>
    rw [List.foldl_cons, ih, lookup_set]
    by_cases hj : k = j
    · subst hj
      by_cases hk : k ∈ ks
      · simp [hk, Nat.add_assoc, Nat.add_comm 1]
      · simp [hk, List.count_eq_zero_of_not_mem hk]
    · simp [hj, Ne.symm hj]

theorem lookup_keysSeen (items : List Json) (k : String) :
    (keysSeen items).lookup k =
      if k ∈ items.flatMap (fun x => keys (members x)) then
        some ((items.flatMap (fun x => keys (members x))).count k)
      else none := by
  rw [keysSeen, lookup_tally]
  simp

theorem nodup_keysSeen (items : List Json) : (keys (keysSeen items)).Nodup := by
  have h : ∀ (ks : List String) (seen : List (String × Nat)), (keys seen).Nodup →
      (keys (ks.foldl (fun seen k => set seen k ((seen.lookup k).getD 0 + 1)) seen)).Nodup := by
    intro ks
    induction ks with
    | nil => exact fun _ h => h
    | cons k ks ih => exact fun seen h => ih _ (nodup_set h _ _)
  exact h _ [] List.nodup_nil

theorem mem_of_mem_keysSeen {items : List Json} {p : String × Nat} (h : p ∈ keysSeen items) :
    ∃ x ∈ items, p.1 ∈ keys (members x) := by
  have hl := (lookup_eq_some_iff_mem (nodup_keysSeen items)).mpr h
  rw [lookup_keysSeen] at hl
  split at hl
  · next hk => exact List.mem_flatMap.mp hk
  · cases hl

theorem joinPath_ne_empty {parent : String} (h : parent ≠ "") (k : String) : joinPath parent k ≠ "" := by
  rw [joinPath, if_neg h]
  simp [h]

theorem arrayPath_ne_empty (parent : String) : arrayPath parent ≠ "" := by
  rw [arrayPath]
  split <;> simp

/-- Every value leaves a note at its own path. -/
theorem mem_paths_notes {path : String} (h : path ≠ "") (v : Json) : path ∈ keys (notes path v) := by
  cases v with
  | null | bool b | num n | str s => exact List.mem_singleton.mpr rfl
  | obj fields => exact List.mem_cons_self
  | arr items =>
    rw [notes, orItems, if_neg h]
    exact List.mem_cons_self

theorem paths_relaxNotes {itemPath : String} (h : itemPath ≠ "") {items : List Json} {p : String × Note}
    (hp : p ∈ relaxNotes itemPath items) :
    p.1 ∈ keys (memberNotes itemPath items) := by
  obtain ⟨q, hq, rfl⟩ := List.mem_map.mp hp
  obtain ⟨x, hx, hk⟩ := mem_of_mem_keysSeen (List.mem_filter.mp hq).1
  obtain ⟨⟨k, v⟩, hv, hkey⟩ := List.mem_map.mp hk
  obtain ⟨r, hr, hpath⟩ := List.mem_map.mp (mem_paths_notes (joinPath_ne_empty h k) v)
  refine List.mem_map.mpr ⟨r, ?_, hpath.trans (by rw [← hkey])⟩
  rw [memberNotes_eq]
  refine List.mem_flatMap.mpr ⟨x, hx, ?_⟩
  rw [fieldNotes_eq]
  exact List.mem_flatMap.mpr ⟨(k, v), hv, hr⟩

theorem notesAt_append (path : String) (ns ms : List (String × Note)) :
    notesAt path (ns ++ ms) = notesAt path ns ++ notesAt path ms :=
  List.filterMap_append ..

theorem mem_notesAt {path : String} {ns : List (String × Note)} {n : Note} :
    n ∈ notesAt path ns ↔ (path, n) ∈ ns := by
  simp only [notesAt, List.mem_filterMap, Option.ite_none_right_eq_some, Option.some.injEq]
  constructor
  · rintro ⟨⟨q, m⟩, hm, rfl, rfl⟩
    exact hm
  · exact fun h => ⟨(path, n), h, rfl, rfl⟩

theorem notesAt_eq_nil_iff {path : String} {ns : List (String × Note)} :
    notesAt path ns = [] ↔ path ∉ keys ns := by
  rw [List.eq_nil_iff_forall_not_mem]
  simp only [mem_notesAt, keys, List.mem_map, Prod.exists, exists_and_right, exists_eq_right, not_exists]

/-- Notes that begin, at every path, with one that makes the state. -/
def AllStarted (ns : List (String × Note)) : Prop := ∀ path, Started (notesAt path ns)

theorem allStarted_append {ns ms : List (String × Note)} (hn : AllStarted ns)
    (hm : ∀ path, path ∉ keys ns → Started (notesAt path ms)) : AllStarted (ns ++ ms) := by
  intro path
  rw [notesAt_append]
  by_cases h : notesAt path ns = []
  · rw [h, List.nil_append]
    exact hm path (notesAt_eq_nil_iff.mp h)
  · intro n hh
    rw [List.head?_append_of_ne_nil _ h] at hh
    exact hn path n hh

theorem AllStarted.append {ns ms : List (String × Note)} (hn : AllStarted ns) (hm : AllStarted ms) :
    AllStarted (ns ++ ms) :=
  allStarted_append hn fun path _ => hm path

/-- Notes about paths that have been noted before. -/
theorem AllStarted.append_of_paths {ns ms : List (String × Note)} (hn : AllStarted ns)
    (hm : ∀ p ∈ ms, p.1 ∈ keys ns) : AllStarted (ns ++ ms) := by
  refine allStarted_append hn fun path hp n hh => ?_
  have hmem := mem_notesAt.mp (List.mem_of_mem_head? hh)
  exact absurd (hm _ hmem) hp

theorem allStarted_singleton (path : String) {n : Note} (h : n.opens.isSome) : AllStarted [(path, n)] := by
  intro q m hm
  obtain ⟨-, rfl⟩ := Prod.mk.inj (List.mem_singleton.mp (mem_notesAt.mp (List.mem_of_mem_head? hm)))
  exact h

theorem allStarted_flatMap {α : Type} {xs : List α} {f : α → List (String × Note)}
    (h : ∀ x ∈ xs, AllStarted (f x)) : AllStarted (xs.flatMap f) := by
  induction xs with
  | nil => exact fun path n hn => absurd hn (by simp [notesAt])
  | cons x xs ih =>
    obtain ⟨hx, hxs⟩ := List.forall_mem_cons.mp h
    rw [List.flatMap_cons]
    exact hx.append (ih hxs)

theorem allStarted_notes (v : Json) (path : String) :
    AllStarted (notes path v) ∧ AllStarted (fieldNotes path (members v)) := by
  have hnil : AllStarted [] := fun _ n hn => absurd hn (by simp [notesAt])
  induction v using JsonOf.induct generalizing path with
  | null | bool b | num n | str s => exact ⟨allStarted_singleton path rfl, hnil⟩
  | obj fields ih =>
    have hf : AllStarted (fieldNotes path fields) := by
      rw [fieldNotes_eq]
      exact allStarted_flatMap fun p hp => (ih p hp _).1
    refine ⟨?_, hf⟩
    rw [notes]
    refine (allStarted_singleton path rfl).append (AllStarted.append ?_ hf)
    split
    · exact hnil
    · exact allStarted_singleton path rfl
  | arr items ih =>
    refine ⟨?_, hnil⟩
    have hfirst : AllStarted [(orItems path, .container .array)] := allStarted_singleton _ rfl
    have hitem : ∀ t, AllStarted [(orItems path, .container .array), (orItems path, .items t)] := by
      intro t
      exact hfirst.append_of_paths fun p hp => by rw [List.mem_singleton.mp hp]; exact List.mem_cons_self
    rw [notes]
    split_ifs
    · exact hitem _
    · have hmembers : AllStarted (memberNotes (arrayPath path) items) := by
        rw [memberNotes_eq]
        exact allStarted_flatMap fun x hx => (ih x hx _).2
      exact (hitem .object).append (hmembers.append_of_paths fun p =>
        paths_relaxNotes (arrayPath_ne_empty path))
    · have hitems : AllStarted (itemNotes (arrayPath path) items) := by
        rw [itemNotes_eq]
        exact allStarted_flatMap fun x hx => (ih x hx _).1
      exact (hfirst.append hitems).append_of_paths fun p hp => by
        rw [List.mem_singleton.mp hp]
        exact List.mem_cons_self

theorem proper_notes (v : Json) (path : String) :
    (∀ p ∈ notes path v, p.2.Proper) ∧ ∀ p ∈ fieldNotes path (members v), p.2.Proper := by
  have hnil : ∀ p ∈ ([] : List (String × Note)), p.2.Proper := by simp
  induction v using JsonOf.induct generalizing path with
  | null => exact ⟨by simp [notes, Note.Proper], hnil⟩
  | bool b => exact ⟨by simp [notes, Note.Proper, scalarType], hnil⟩
  | num n => cases n <;> exact ⟨by simp [notes, Note.Proper, scalarType], hnil⟩
  | str s => exact ⟨by simp [notes, Note.Proper, scalarType], hnil⟩
  | obj fields ih =>
    have hf : ∀ p ∈ fieldNotes path fields, p.2.Proper := by
      intro p hp
      rw [fieldNotes_eq] at hp
      obtain ⟨q, hq, hp⟩ := List.mem_flatMap.mp hp
      exact (ih q hq _).1 p hp
    refine ⟨?_, hf⟩
    rw [notes]
    simp only [List.forall_mem_cons, List.forall_mem_append]
    refine ⟨.inl rfl, ?_, hf⟩
    split
    · exact hnil
    · simp [Note.Proper]
  | arr items ih =>
    refine ⟨?_, hnil⟩
    rw [notes]
    split_ifs
    · simp [Note.Proper]
    · simp only [List.forall_mem_cons, List.forall_mem_append]
      refine ⟨.inr rfl, trivial, fun p hp => ?_, fun p hp => ?_⟩
      · rw [memberNotes_eq] at hp
        obtain ⟨x, hx, hp⟩ := List.mem_flatMap.mp hp
        exact (ih x hx _).2 p hp
      · obtain ⟨q, -, rfl⟩ := List.mem_map.mp hp
        trivial
    · simp only [List.forall_mem_cons, List.forall_mem_append]
      refine ⟨.inr rfl, fun p hp => ?_, trivial, hnil⟩
      rw [itemNotes_eq] at hp
      obtain ⟨x, hx, hp⟩ := List.mem_flatMap.mp hp
      exact (ih x hx _).1 p hp

theorem walkNotes_cases (data : Json) :
    (∃ path, walkNotes data = notes path data) ∨ walkNotes data = fieldNotes "" (members data) := by
  cases data with
  | obj fields => exact .inr rfl
  | arr items => exact .inl ⟨"", rfl⟩
  | null | bool b | num n | str s => exact .inl ⟨"[root]", rfl⟩

theorem allStarted_walkNotes (data : Json) : AllStarted (walkNotes data) := by
  obtain ⟨path, h⟩ | h := walkNotes_cases data
  · exact h ▸ (allStarted_notes data path).1
  · exact h ▸ (allStarted_notes data "").2

theorem proper_walkNotes (data : Json) : ∀ p ∈ walkNotes data, p.2.Proper := by
  obtain ⟨path, h⟩ | h := walkNotes_cases data
  · exact h ▸ (proper_notes data path).1
  · exact h ▸ (proper_notes data "").2

/-- A path has a state after the walk if notes were made there, and those are what it holds. -/
theorem lookup_walk (data : Json) (path : String) :
    (notesAt path (walkNotes data) = [] → (walk data []).lookup path = none) ∧
      (notesAt path (walkNotes data) ≠ [] →
        ∃ s, (walk data []).lookup path = some s ∧ Summary path (notesAt path (walkNotes data)) s) := by
  rw [walk_eq, lookup_foldl_note]
  refine ⟨fun h => congrArg (List.foldl (noteAt path) none) h, fun h => ?_⟩
  refine summary_foldl h (allStarted_walkNotes data path) fun n hn => ?_
  exact proper_walkNotes data (path, n) (mem_notesAt.mp hn)

theorem sortedStrings_perm {xs ys : List String} (h : xs.Perm ys) : sortedStrings xs = sortedStrings ys := by
  have hp : (sortedStrings xs).Perm (sortedStrings ys) :=
    (List.perm_insertionSort _ xs).trans (h.trans (List.perm_insertionSort _ ys).symm)
  exact hp.eq_of_pairwise (fun _ _ _ _ => le_antisymm) (List.pairwise_insertionSort _ _)
    (List.pairwise_insertionSort _ _)

theorem enumValues_finalize {values : List String} {s : NodeState} (h : EnumOk values s) :
    (finalize s).enumValues = enumOf values := by
  simp only [finalize, enumOf, h.leaf, h.disabled]
  by_cases hnil : values = []
  · simp [hnil]
  · by_cases hlong : ENUM_THRESHOLD < values.dedup.length
    · simp [hlong]
    · have hmem := h.mem_iff (h.disabled.trans (decide_eq_false hlong))
      have hperm : s.enumValues.Perm values.dedup :=
        (List.perm_ext_iff_of_nodup h.nodup (List.nodup_dedup _)).mpr fun x =>
          (hmem x).trans List.mem_dedup.symm
      have hne : s.enumValues ≠ [] := by
        obtain ⟨x, hx⟩ := List.exists_mem_of_ne_nil _ hnil
        exact List.ne_nil_of_mem ((hmem x).mpr hx)
      simp [hnil, hlong, hne, sortedStrings_perm hperm]

end Made

end SchemaPilot.NodeSummary
