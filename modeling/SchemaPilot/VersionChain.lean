import SchemaPilot.Coverage
import SchemaPilot.VersionClassification

namespace SchemaPilot.VersionChain

open Keyed Canonical Classifier PayloadPaths DiffReport Coverage

section Equal

theorem pyEqItems_iff (xs ys : List Schema) :
    pyEqItems xs ys = true ↔ List.Forall₂ (fun x y => pyEq x y = true) xs ys := by
  induction xs generalizing ys with
  | nil => cases ys <;> simp [pyEqItems]
  | cons x xs ih => cases ys <;> simp [pyEqItems, ih]

theorem pyEqFields_iff (fs gs : List (String × Schema)) :
    pyEqFields fs gs = true ↔ ∀ p ∈ fs, ∃ w, gs.lookup p.1 = some w ∧ pyEq p.2 w = true := by
  induction fs with
  | nil => simp [pyEqFields]
  | cons p fs ih =>
    rw [pyEqFields, Bool.and_eq_true, ih, List.forall_mem_cons]
    apply and_congr_left'
    cases gs.lookup p.1 <;> simp

/-- Equal objects have the same keys. -/
theorem keys_perm_of_pyEq {fs gs : List (String × Schema)} (hn : (keys fs).Nodup)
    (h : pyEq (.obj fs) (.obj gs) = true) : (keys fs).Perm (keys gs) := by
  rw [pyEq, Bool.and_eq_true, beq_iff_eq, pyEqFields_iff] at h
  obtain ⟨hlen, hfields⟩ := h
  have hsub : keys fs ⊆ keys gs := by
    intro k hk
    obtain ⟨p, hp, rfl⟩ := List.mem_map.mp hk
    obtain ⟨w, hw, -⟩ := hfields p hp
    exact List.mem_map.mpr ⟨_, mem_of_lookup hw, rfl⟩
  apply (List.subperm_of_subset hn hsub).perm_of_length_le
  rw [keys, keys, List.length_map, List.length_map, hlen]

theorem mem_of_pyEq {fs gs : List (String × Schema)} (hn : (keys fs).Nodup)
    (h : pyEq (.obj fs) (.obj gs) = true) {q : String × Schema} (hq : q ∈ gs) :
    ∃ v, (q.1, v) ∈ fs ∧ pyEq v q.2 = true := by
  have hperm := keys_perm_of_pyEq hn h
  obtain ⟨p, hp, hpq⟩ := List.mem_map.mp (hperm.mem_iff.mpr (List.mem_map_of_mem hq))
  rw [pyEq, Bool.and_eq_true, pyEqFields_iff] at h
  obtain ⟨w, hw, heq⟩ := h.2 p hp
  have hlookup : gs.lookup q.1 = some q.2 := (lookup_eq_some_iff_mem (hperm.nodup_iff.mp hn)).mpr hq
  rw [hpq, hlookup] at hw
  refine ⟨p.2, hpq ▸ hp, ?_⟩
  rwa [Option.some.inj hw]

theorem lookup_isSome_of_pyEq {fs gs : List (String × Schema)} (hn : (keys fs).Nodup)
    (h : pyEq (.obj fs) (.obj gs) = true) (k : String) :
    (fs.lookup k).isSome = (gs.lookup k).isSome := by
  rw [Bool.eq_iff_iff, lookup_isSome_iff_mem_keys, lookup_isSome_iff_mem_keys]
  exact (keys_perm_of_pyEq hn h).mem_iff

/-- The places of two schemas, with equal nodes under the same paths. -/
def SamePlaces (xs ys : List (String × Schema)) : Prop :=
  (∀ e ∈ xs, ∃ node, (e.1, node) ∈ ys ∧ pyEq e.2 node = true) ∧
    ∀ e ∈ ys, ∃ node, (e.1, node) ∈ xs ∧ pyEq node e.2 = true

theorem samePlaces_singleton {path : String} {a b : Schema} (h : pyEq a b = true) :
    SamePlaces [(path, a)] [(path, b)] := by
  simp [SamePlaces, h]

theorem pyEq_arrayMarker : pyEq arrayMarker arrayMarker = true := by decide

/-- Equal schemas have equal places, whatever the order of their keys. -/
theorem samePlaces_of_pyEq {s t : Schema} (hwf : s.wf) (h : pyEq s t = true) (pre : String) :
    SamePlaces (places s pre) (places t pre) := by
  induction s using JsonOf.induct generalizing t pre with
  | null | bool _ | str _ =>
    cases t <;> first | exact samePlaces_singleton (by decide) | cases h
  | num n => exact n.elim
  | arr xs ih =>
    cases t with
    | arr ys =>
      have hitems : List.Forall₂ (fun x y => pyEq x y = true) xs ys := (pyEqItems_iff xs ys).mp h
      have hget : ∀ (n : Nat) x y, xs[n]? = some x → ys[n]? = some y → pyEq x y = true := by
        intro n x y hx hy
        obtain ⟨hlx, rfl⟩ := List.getElem?_eq_some_iff.mp hx
        obtain ⟨hly, rfl⟩ := List.getElem?_eq_some_iff.mp hy
        exact hitems.get hlx hly
      have hws := (JsonOf.wf_arr_iff xs).mp hwf
      constructor
      · intro e he
        rw [places, List.mem_cons, mem_placesItems] at he
        obtain rfl | ⟨n, x, hx, he⟩ := he
        · exact ⟨arrayMarker, List.mem_cons_self, pyEq_arrayMarker⟩
        · have hlt : n < ys.length := hitems.length_eq ▸ (List.getElem?_eq_some_iff.mp hx).1
          have hm := List.mem_of_getElem? hx
          obtain ⟨node, hnode, heq⟩ :=
            (ih x hm (hws x hm) (hget n x _ hx (List.getElem?_eq_getElem hlt)) _).1 e he
          refine ⟨node, ?_, heq⟩
          rw [places, List.mem_cons, mem_placesItems]
          exact .inr ⟨n, _, List.getElem?_eq_getElem hlt, hnode⟩
      · intro e he
        rw [places, List.mem_cons, mem_placesItems] at he
        obtain rfl | ⟨n, y, hy, he⟩ := he
        · exact ⟨arrayMarker, List.mem_cons_self, pyEq_arrayMarker⟩
        · have hlt : n < xs.length := hitems.length_eq ▸ (List.getElem?_eq_some_iff.mp hy).1
          have hx := List.getElem?_eq_getElem hlt
          have hm := List.mem_of_getElem? hx
          obtain ⟨node, hnode, heq⟩ := (ih _ hm (hws _ hm) (hget n _ y hx hy) _).2 e he
          refine ⟨node, ?_, heq⟩
          rw [places, List.mem_cons, mem_placesItems]
          exact .inr ⟨n, _, hx, hnode⟩
    | _ => cases h
  | obj fs ih =>
    cases t with
    | obj gs =>
      obtain ⟨hn, hws⟩ := (JsonOf.wf_obj_iff fs).mp hwf
      rw [places, places, ← lookup_isSome_of_pyEq hn h]
      split
      · exact samePlaces_singleton h
      · constructor
        · intro e he
          obtain ⟨p, hp, he⟩ := (mem_placesFields fs pre e).mp he
          have hfields := h
          rw [pyEq, Bool.and_eq_true, pyEqFields_iff] at hfields
          obtain ⟨w, hw, heq⟩ := hfields.2 p hp
          obtain ⟨node, hnode, hsame⟩ := (ih p hp (hws p hp) heq _).1 e he
          exact ⟨node, (mem_placesFields gs pre _).mpr ⟨_, mem_of_lookup hw, hnode⟩, hsame⟩
        · intro e he
          obtain ⟨q, hq, he⟩ := (mem_placesFields gs pre e).mp he
          obtain ⟨v, hv, heq⟩ := mem_of_pyEq hn h hq
          obtain ⟨node, hnode, hsame⟩ := (ih _ hv (hws _ hv) heq _).2 e he
          exact ⟨node, (mem_placesFields fs pre _).mpr ⟨_, hv, hnode⟩, hsame⟩
    | _ => cases h

theorem pyEq_self {s : Schema} (h : s.wf) : pyEq s s = true := by
  induction s using JsonOf.induct with
  | null => rfl
  | bool b => exact beq_self_eq_true b
  | str t => exact beq_self_eq_true t
  | num n => exact n.elim
  | arr items ih =>
    rw [pyEq, pyEqItems_iff]
    exact List.forall₂_same.mpr fun x hx => ih x hx ((JsonOf.wf_arr_iff items).mp h x hx)
  | obj fields ih =>
    obtain ⟨hn, hws⟩ := (JsonOf.wf_obj_iff fields).mp h
    rw [pyEq, Bool.and_eq_true, pyEqFields_iff]
    exact ⟨beq_self_eq_true _, fun p hp =>
      ⟨p.2, (lookup_eq_some_iff_mem hn).mpr hp, ih p hp (hws p hp)⟩⟩

theorem wf_canonicalize {j : Json} (h : j.wf) : (canonicalize j).wf := by
  induction j using payload_induct with
  | scalar j k hs hc =>
    rw [hc]
    cases k <;> decide
  | arr items ih =>
    rw [canonicalize, canonicalizeItems_eq, JsonOf.wf_arr_iff, List.forall_mem_map]
    exact fun x hx => ih x hx ((JsonOf.wf_arr_iff items).mp h x hx)
  | obj fields ih =>
    obtain ⟨hn, hws⟩ := (JsonOf.wf_obj_iff fields).mp h
    rw [canonicalize, JsonOf.wf_obj_iff, canonicalizeFields_eq]
    refine ⟨nodup_sortByKey ?_, fun p hp => ?_⟩
    · rwa [keys_map_snd]
    · rw [mem_sortByKey] at hp
      obtain ⟨q, hq, rfl⟩ := List.mem_map.mp hp
      exact ih q hq (hws q hq)

end Equal

section Types

variable (isPrintable : Char → Bool)

/-- The node is the leaf of a type, as it was made or as a column returns it. -/
def LeafNode (node : Schema) (type : String) : Prop := pyEq (leaf type (type = "null")) node = true

theorem lookup_of_leafNode {node : Schema} {type : String} (h : LeafNode node type) :
    Classifier.get node "type" = some (.str type) ∧ Classifier.get node "nullable" = some (.bool (type = "null")) ∧
      ∀ key, key ≠ "type" → key ≠ "nullable" → Classifier.get node key = none := by
  cases node with
  | obj gs =>
    rw [LeafNode, leaf] at h
    have hn : (keys [("type", (.str type : Schema)), ("nullable", .bool (type = "null"))]).Nodup := by simp [keys]
    have hfields := h
    rw [pyEq, Bool.and_eq_true, pyEqFields_iff, List.forall_mem_cons, List.forall_mem_singleton] at hfields
    obtain ⟨-, ⟨t, ht, hte⟩, n, hn', hne⟩ := hfields
    refine ⟨?_, ?_, fun key htype hnullable => ?_⟩
    · cases t <;> first | cases hte | skip
      rw [pyEq, beq_iff_eq] at hte
      rw [Classifier.get, ht, hte]
    · cases n <;> first | cases hne | skip
      rw [pyEq, beq_iff_eq] at hne
      rw [Classifier.get, hn', hne]
    · have hsome := lookup_isSome_of_pyEq hn h key
      rw [← Option.not_isSome_iff_eq_none, Classifier.get, ← hsome]
      simp [lookup_cons_ite, htype, hnullable]
  | _ => cases h

theorem leafNode_spec {node : Schema} {type : String} (h : LeafNode node type) :
    typeOf isPrintable node = type ∧ nullableOf node = some (decide (type = "null")) ∧
      requiredOf node true = true ∧ EnumOpaque node := by
  obtain ⟨htype, hnullable, hother⟩ := lookup_of_leafNode h
  refine ⟨?_, ?_, ?_, ?_⟩
  · cases node with
    | obj gs =>
      rw [Classifier.get] at htype
      rw [typeOf, htype]
      rfl
    | _ => cases htype
  · rw [nullableOf, hnullable]
    rfl
  · have hreq := hother "required" (by decide) (by decide)
    cases node with
    | obj gs =>
      rw [Classifier.get] at hreq
      rw [requiredOf, hreq]
      rfl
    | _ => cases htype
  · intro xs hxs
    cases (hother "enum" (by decide) (by decide)).symm.trans hxs

/-- Whatever a schema shows is a leaf. -/
def Marked (s : Schema) : Prop := ∀ path, ∀ node ∈ shows s path, ∃ type, LeafNode node type

def typeAt (s : Schema) (path : String) : Option String := (shows s path).map (typeOf isPrintable)

/-- Who reads the old type at a path can read the new one. -/
def Widens : Option String → Option String → Prop
  | none, _ => True
  | some old, new => new = some old ∨ old = "integer" ∧ new = some "number"

theorem Widens.trans {a b c : Option String} (hab : Widens a b) (hbc : Widens b c) :
    Widens a c := by
  cases a with
  | none => trivial
  | some t =>
    obtain rfl | ⟨rfl, rfl⟩ := hab
    · exact hbc
    · obtain rfl | ⟨hne, -⟩ := hbc
      · exact .inr ⟨rfl, rfl⟩
      · exact absurd hne (by decide)

/-- The new schema still has every path of the old one, with its type or a wider one. -/
def Extends (old new : Schema) :
    Prop := ∀ path, Widens (typeAt isPrintable old path) (typeAt isPrintable new path)

variable {isPrintable}

theorem Extends.refl (s : Schema) : Extends isPrintable s s := by
  intro path
  cases typeAt isPrintable s path with
  | none => trivial
  | some type => exact .inl rfl

theorem Extends.trans {a b c : Schema} (hab : Extends isPrintable a b)
    (hbc : Extends isPrintable b c) :
    Extends isPrintable a c :=
  fun path => (hab path).trans (hbc path)

theorem breaking_iff_not_widens {old new : Option Schema}
    (hold : ∀ node ∈ old, ∃ type, LeafNode node type)
    (hnew : ∀ node ∈ new, ∃ type, LeafNode node type) :
    breaking isPrintable old new = true ↔ ¬Widens (old.map (typeOf isPrintable)) (new.map (typeOf isPrintable)) := by
  cases old with
  | none => exact iff_of_false nofun (not_not.mpr trivial)
  | some a =>
    obtain ⟨t, ht⟩ := hold a rfl
    obtain ⟨hta, hna, hra, -⟩ := leafNode_spec isPrintable ht
    cases new with
    | none => exact iff_of_true hra (by simp [Widens])
    | some b =>
      obtain ⟨u, hu⟩ := hnew b rfl
      obtain ⟨htb, hnb, -, -⟩ := leafNode_spec isPrintable hu
      rw [breaking, hta, htb, becomesRequired, hna, hnb, Option.map_some, Option.map_some, hta, htb, Widens]
      by_cases htu : t = u
      · subst htu
        simp
      · rw [if_neg htu]
        simp [Ne.symm htu, imp_iff_not_or]

/-- Equal nodes have one type. -/
theorem not_breaking_of_pyEq {old new : Option Schema}
    (hold : ∀ node ∈ old, ∃ type, LeafNode node type)
    (hnew : ∀ node ∈ new, ∃ type, LeafNode node type) (h : pyEqOption old new = true) :
    Widens (old.map (typeOf isPrintable)) (new.map (typeOf isPrintable)) := by
  cases old with
  | none => trivial
  | some a =>
    cases new with
    | none => cases h
    | some b =>
      obtain ⟨t, ht⟩ := hold a rfl
      obtain ⟨u, hu⟩ := hnew b rfl
      have htype := (lookup_of_leafNode ht).1
      have htype' := (lookup_of_leafNode hu).1
      have htu : t = u := by
        cases a with
        | obj fs =>
          cases b with
          | obj gs =>
            rw [pyEqOption, pyEq, Bool.and_eq_true, pyEqFields_iff] at h
            rw [Classifier.get] at htype htype'
            obtain ⟨w, hw, heq⟩ := h.2 _ (mem_of_lookup htype)
            obtain rfl := Option.some.inj (hw.symm.trans htype')
            simpa [pyEq] using heq
          | _ => cases htype'
        | _ => cases htype
      rw [Option.map_some, Option.map_some, (leafNode_spec isPrintable ht).1, (leafNode_spec isPrintable hu).1, htu]
      exact .inl rfl

theorem not_clash_of_marked {old new : Schema} (hold : Marked old) (path : String) :
    clash isPrintable (shows old path) (shows new path) = false := by
  cases ho : shows old path with
  | none => rfl
  | some a =>
    obtain ⟨t, ht⟩ := hold path a ho
    have henum := (lookup_of_leafNode ht).2.2 "enum" (by decide) (by decide)
    cases shows new path with
    | none => rfl
    | some b => simp [clash, enumsUnhashable, henum]

theorem reports_breaking_iff (isPrintable : Char → Bool) {old new : Schema} (hold : Marked old)
    (hnew : Marked new) :
    (∃ ds, diffAndClassify isPrintable old new = .ok ds ∧ ∃ d ∈ ds, d.classification = .BREAKING) ↔
      ¬Extends isPrintable old new := by
  have hclassify : ∀ path, (∃ reason, classify isPrintable (shows old path) (shows new path) =
      .ok (.BREAKING, reason)) ↔ ¬Widens (typeAt isPrintable old path) (typeAt isPrintable new path) := by
    intro path
    rw [classify_breaking_iff]
    · exact breaking_iff_not_widens (hold path) (hnew path)
    · intro n hn
      obtain ⟨t, ht⟩ := hold path n hn
      exact (leafNode_spec isPrintable ht).2.2.2
    · intro n hn
      obtain ⟨t, ht⟩ := hnew path n hn
      exact (leafNode_spec isPrintable ht).2.2.2
  rw [diffAndClassify_spec isPrintable old new (· = .BREAKING), Extends, not_forall]
  constructor
  · rintro ⟨-, path, -, c, r, hr, rfl⟩
    exact ⟨path, (hclassify path).mp ⟨r, hr⟩⟩
  · rintro ⟨path, hpath⟩
    refine ⟨fun path _ => not_clash_of_marked hold path, path, ?_, ?_⟩
    · by_contra heq
      exact hpath (not_breaking_of_pyEq (hold path) (hnew path) (Bool.not_eq_false _ ▸ heq))
    · obtain ⟨r, hr⟩ := (hclassify path).mpr hpath
      exact ⟨_, r, hr, rfl⟩

/-- Two schemas that show nothing but leaves can be compared, and the report is not BREAKING
exactly when the new one extends the old one. -/
theorem compatible_iff_extends {old new : Schema} (hold : Marked old) (hnew : Marked new) :
    (∃ ds, diffAndClassify isPrintable old new = .ok ds ∧ summarizeClassification ds ≠ .BREAKING) ↔
      Extends isPrintable old new := by
  obtain ⟨ds, hds⟩ : ∃ ds, diffAndClassify isPrintable old new = .ok ds := by
    rw [diffAndClassify, mapM_succeeds_iff]
    intro path _
    obtain ⟨⟨c, r⟩, hr⟩ := (classify_isOk_iff isPrintable _ _).mpr (not_clash_of_marked hold path)
    obtain ⟨d, hd, -⟩ := (diffItem_ok_iff isPrintable old new path c).mpr ⟨r, hr⟩
    exact ⟨d, hd⟩
  have hreport := reports_breaking_iff isPrintable hold hnew
  rw [← not_iff_not, ← hreport, hds]
  simp only [Except.ok.injEq, exists_eq_left', not_not, summarize_eq_breaking_iff]

end Types

section Stored

variable {p : Payload} {stored : Schema}

theorem leaf_of_isMark {mark : Schema} (h : IsMark mark) :
    ∃ type, mark = leaf type (type = "null") := by
  obtain ⟨k, rfl⟩ | rfl := h
  · cases k
    · exact ⟨"null", rfl⟩
    · exact ⟨"boolean", rfl⟩
    · exact ⟨"integer", rfl⟩
    · exact ⟨"number", rfl⟩
    · exact ⟨"string", rfl⟩
  · exact ⟨"array", rfl⟩

theorem leafNode_leaf (type : String) : LeafNode (leaf type (type = "null")) type := by
  rw [LeafNode, leaf, pyEq, Bool.and_eq_true, pyEqFields_iff, List.forall_mem_cons, List.forall_mem_singleton]
  exact ⟨beq_self_eq_true _, ⟨_, rfl, by simp [pyEq]⟩, _, rfl, by simp [pyEq]⟩

/-- A path of a plain payload leads to one node only, in whatever order the keys are stored. -/
theorem shows_of_stored (hp : plain p) (h : pyEq (canonicalize p.json) stored = true)
    (path : String) :
    match shows stored path with
    | some node => ∃ mark, IsMark mark ∧ shown p path = some mark ∧ pyEq mark node = true
    | none => shown p path = none := by
  obtain ⟨hleft, hright⟩ := samePlaces_of_pyEq (wf_canonicalize p.wf) h ""
  cases hs : shows stored path with
  | some node =>
    obtain ⟨mark, hmark, heq⟩ := hright _ (mem_places_of_shows hs)
    obtain ⟨loc, hm, hpath⟩ := (mem_places_iff p.wf (untyped_of_plain hp) "" path mark).mp hmark
    have hl := plainLocation_of_markAt hp hm
    refine ⟨mark, isMark_of_markAt hm, ?_, heq⟩
    rw [hpath]
    exact (shows_pathText hp hl).trans hm
  | none =>
    by_contra hne
    obtain ⟨mark, hmark⟩ := Option.ne_none_iff_exists'.mp hne
    obtain ⟨node, hnode, -⟩ := hleft _ (mem_places_of_shows hmark)
    have hsome : (shows stored path).isSome := by
      rw [shows, lookup_isSome_iff_mem_keys, keys, List.map_reverse, List.mem_reverse]
      exact List.mem_map_of_mem hnode
    rw [hs] at hsome
    cases hsome

theorem marked_of_stored (hp : plain p) (h : pyEq (canonicalize p.json) stored = true) :
    Marked stored := by
  intro path node hnode
  have hspec := shows_of_stored hp h path
  rw [Option.mem_def.mp hnode] at hspec
  obtain ⟨mark, hmark, -, heq⟩ := hspec
  obtain ⟨type, rfl⟩ := leaf_of_isMark hmark
  exact ⟨type, heq⟩

theorem marked_canonicalize (hp : plain p) : Marked (canonicalize p.json) := by
  intro path node hnode
  obtain ⟨type, rfl⟩ := leaf_of_isMark (isMark_of_shown hp hnode)
  exact ⟨type, leafNode_leaf type⟩

/-- A column keeps the types of a plain payload. -/
theorem typeAt_of_stored (isPrintable : Char → Bool) (hp : plain p)
    (h : pyEq (canonicalize p.json) stored = true) (path : String) :
    typeAt isPrintable stored path = typeAt isPrintable (canonicalize p.json) path := by
  have hspec := shows_of_stored hp h path
  rw [typeAt, typeAt]
  cases hs : shows stored path with
  | none =>
    rw [hs] at hspec
    rw [show shows (canonicalize p.json) path = none from hspec]
  | some node =>
    rw [hs] at hspec
    obtain ⟨mark, hmark, hshown, heq⟩ := hspec
    obtain ⟨type, rfl⟩ := leaf_of_isMark hmark
    rw [show shows (canonicalize p.json) path = some _ from hshown, Option.map_some, Option.map_some,
      (leafNode_spec isPrintable heq).1, (leafNode_spec isPrintable (leafNode_leaf type)).1]

end Stored

section Sources

open Registry RegistryTxn RegistryHistory Runs TrackRuns

variable {ι : Type} {c : TrackRuns.Config ι}

/-- The row holds the stored schema of a request. -/
def Sourced (c : TrackRuns.Config ι) (r : SchemaVersionRecord) : Prop :=
  ∃ i, c.base.jsonb (c.schema i) = some r.canonicalSchema

/-- Every version, committed or not, has its schema from a request. -/
structure AllSourced (c : TrackRuns.Config ι) (registry : RegistryTxn.State ι) : Prop where
  rows : ∀ r ∈ registry.db.versions, Sourced c r
  drafts : ∀ i r, (registry.txn i).row = some r → Sourced c r

theorem Sourced.congr {r r' : SchemaVersionRecord} (h : Sourced c r)
    (hsame : r'.canonicalSchema = r.canonicalSchema) : Sourced c r' := by
  obtain ⟨i, hi⟩ := h
  exact ⟨i, hsame ▸ hi⟩

variable [DecidableEq ι] {registry registry' : RegistryTxn.State ι}

/-- One transaction is at another place, or has another row of its own. -/
theorem AllSourced.set (h : AllSourced c registry) (db : Db) (i : ι) (t : Txn)
    (hrows : ∀ r ∈ db.versions, Sourced c r) (hrow : ∀ r, t.row = some r → Sourced c r) :
    AllSourced c ({ registry with db }.set i t) := by
  refine ⟨hrows, fun j r hr => ?_⟩
  by_cases hj : j = i
  · subst hj
    rw [txn_set_self] at hr
    exact hrow r hr
  · rw [txn_set_of_ne _ _ hj] at hr
    exact h.drafts j r hr

theorem AllSourced.moved (h : AllSourced c registry) {i : ι} (hm : Moved c registry registry' i) :
    AllSourced c registry' := by
  refine ⟨hm.versions ▸ h.rows, fun j r hr => ?_⟩
  by_cases hj : j = i
  · subst hj
    have hok := hm.upsert
    rw [UpsertOk] at hok
    split at hok
    · obtain ⟨r', hr', hdraft, -⟩ := hok
      obtain rfl := Option.some.inj (hr.symm.trans hr')
      exact ⟨j, hdraft.stored⟩
    · exact hok.elim
    · cases hr.symm.trans hok
  · rw [hm.others j hj] at hr
    exact h.drafts j r hr

theorem AllSourced.classify (h : AllSourced c registry) (i : ι) (id : Nat)
    (classification : Compatibility) :
    AllSourced c (setClassification registry i id classification) := by
  refine h.set registry.db i _ h.rows fun r hr => ?_
  obtain ⟨r₀, hr₀, rfl⟩ := Option.map_eq_some_iff.mp hr
  apply (h.drafts i r₀ hr₀).congr
  unfold relabel
  split <;> rfl

variable [Fintype ι]

theorem AllSourced.commit (h : AllSourced c registry) {i : ι}
    (hpc : ∃ record b, (registry.txn i).pc = .done record b ∨
      (registry.txn i).pc = .committed record b) :
    AllSourced c (commitSession c registry i) := by
  obtain ⟨record, b, hpc | hpc⟩ := hpc
  · rw [commitSession_done hpc]
    refine h.set _ i _ (fun r hr => ?_) fun r hr => ?_
    · obtain ⟨r₀, hr₀, hsame⟩ | hr := mem_commit hr
      · exact (h.rows r₀ hr₀).congr (hsame.column SchemaVersionRecord.canonicalSchema fun _ => rfl)
      · exact h.drafts i r hr
    · cases hr
  · rw [commitSession_committed hpc]
    exact h

theorem AllSourced.perform (h : AllSourced c registry) {i : ι} (effect : Webhook.Effect)
    (hpc : ∃ record b, (registry.txn i).pc = .done record b ∨
      (registry.txn i).pc = .committed record b) :
    AllSourced c (perform c registry i effect) := by
  cases effect with
  | commit => exact h.commit hpc
  | read | selectForUpdate | write | close | send => exact h

omit [Fintype ι] in
theorem AllSourced.fail (h : AllSourced c registry) (i : ι) :
    AllSourced c (registry.set i (.finish (.aborted false))) :=
  h.set registry.db i _ h.rows nofun

variable {s s' : TrackRuns.State ι}

theorem allSourced_advance (hi : TrackRuns.RunInv c [] s) (h : AllSourced c s.registry) {i : ι}
    {fresh now : Nat} (hs : advanceCall c s i fresh now = some s') : AllSourced c s'.registry := by
  have hcall := hi.calls i
  rw [advanceCall] at hs
  cases hpc : s.pc i with
  | upsert =>
    simp only [hpc, advanceUpsert] at hs
    split at hs
    · cases hs
      exact h
    · cases hs
      exact h
    · next hdone _ =>
      obtain ⟨registry, hadv, rfl⟩ := Option.map_eq_some_iff.mp hs
      exact h.moved (moved_advance hi.base hdone hadv)
  | selectPrior new =>
    simp only [hpc] at hs
    split at hs
    · cases hs
      exact h.fail i
    · split at hs <;> cases hs
      · exact h.fail i
      · exact h
  | setClassification new prior diffs =>
    rw [hpc] at hs
    cases hs
    exact h.classify i _ _
  | selectAffected new prior diffs =>
    rw [hpc] at hs
    cases hs
    exact h
  | enqueue prior drift pc =>
    rw [hpc] at hs hcall
    by_cases hcount : pc = .count
    · subst hcount
      cases hs
      exact h
    · have hmap : (Enqueue.next c.base s.tables fresh now (fun _ => false) pc).map (fun p =>
          { s with registry := perform c s.registry i p.1 }.goto i (.enqueue prior drift p.2)) = some s' := by
        rw [← hs]
        cases pc <;> first | rfl | exact absurd rfl hcount
      obtain ⟨⟨effect, pc'⟩, -, rfl⟩ := Option.map_eq_some_iff.mp hmap
      exact h.perform effect (announced_pc hcall.1)
  | commit =>
    rw [hpc] at hs hcall
    cases hs
    exact h.commit hcall.1
  | finished | failed =>
    rw [hpc] at hs
    cases hs

theorem allSourced_step (hi : TrackRuns.RunInv c [] s) (h : AllSourced c s.registry)
    {a : TrackRuns.Action ι} (hs : TrackRuns.step c s a = some s') : AllSourced c s'.registry := by
  cases a with
  | advance i fresh now => exact allSourced_advance hi h hs
  | respond i outcome =>
    rw [TrackRuns.step] at hs
    split at hs
    · obtain ⟨pc', -, rfl⟩ := Option.map_eq_some_iff.mp hs
      exact h
    · cases hs
  | fail i =>
    rw [TrackRuns.step] at hs
    split at hs <;> cases hs
    exact h.fail i
  | subscribe subscriptions =>
    cases hs
    exact h
  | publish i event =>
    rw [TrackRuns.step] at hs
    split at hs <;> cases hs
    exact h

theorem reachable_allSourced (h : Reachable (TrackRuns.step c) always TrackRuns.init s) :
    TrackRuns.RunInv c [] s ∧ AllSourced c s.registry := by
  apply h.invariant (I := fun s => TrackRuns.RunInv c [] s ∧ AllSourced c s.registry)
  · refine ⟨TrackRuns.RunInv.init c, fun r hr => ?_, fun i r hr => ?_⟩
    · cases hr
    · cases hr
  · exact fun s s' a ⟨hi, hsourced⟩ _ hs => ⟨hi.step hs, allSourced_step hi hsourced hs⟩

omit [DecidableEq ι] [Fintype ι] in
theorem pyEq_of_stored (hjsonb : ∀ a b, a.wf → c.base.jsonb a = some b → pyEq a b = true) {i : ι} {stored : Schema}
    (h : c.base.jsonb (c.schema i) = some stored) : pyEq (canonicalize (c.call i).payload.json) stored = true :=
  hjsonb _ _ (wf_canonicalize (c.call i).payload.wf) h

omit [DecidableEq ι] [Fintype ι] in
/-- A row is recorded as not BREAKING exactly when it extends the version before it. -/
theorem not_breaking_iff_extends (hjsonb : ∀ a b, a.wf → c.base.jsonb a = some b → pyEq a b = true)
    (hplain : ∀ i, plain (c.call i).payload) {prev r : SchemaVersionRecord} (hprev : Sourced c prev)
    (h : Explained c prev r) :
    r.compatibilityClassification ≠ .BREAKING ↔
      Extends c.base.isPrintable prev.canonicalSchema r.canonicalSchema := by
  obtain ⟨i, diffs, hstored, -, hdiffs, hsummary⟩ := h
  obtain ⟨j, hj⟩ := hprev
  have hmarked := marked_of_stored (hplain j) (pyEq_of_stored hjsonb hj)
  have hext : _ ↔ Extends c.base.isPrintable prev.canonicalSchema (canonicalize (c.call i).payload.json) :=
    compatible_iff_extends hmarked (marked_canonicalize (hplain i))
  have hsame : Extends c.base.isPrintable prev.canonicalSchema r.canonicalSchema ↔
      Extends c.base.isPrintable prev.canonicalSchema (canonicalize (c.call i).payload.json) := by
    apply forall_congr'
    intro path
    rw [typeAt_of_stored _ (hplain i) (pyEq_of_stored hjsonb hstored)]
  rw [hsame, ← hext, hsummary]
  constructor
  · exact fun hne => ⟨diffs, hdiffs, hne⟩
  · rintro ⟨ds, hds, hne⟩
    rwa [Except.ok.inj (hdiffs.symm.trans hds)]

omit [DecidableEq ι] [Fintype ι] in
/-- The classification of a version is that of its difference from the version before it. -/
theorem explained_next {s : TrackRuns.State ι} (hinv : TrackRuns.RunInv c [] s)
    {u v : SchemaVersionRecord}
    (hu : u ∈ s.registry.db.versions) (hv : v ∈ s.registry.db.versions)
    (hendpoint : v.endpointId = u.endpointId)
    (hnext : v.version = u.version + 1) : Explained c u v := by
  have hhistory := hinv.base.history u.endpointId
  have hmem := mem_versionsOf.mpr ⟨hv, hendpoint⟩
  obtain ⟨i, hi⟩ := List.mem_iff_getElem?.mp hmem
  have hvi := hhistory.version i v hi
  have hpos := (hhistory.version_le (mem_versionsOf.mpr ⟨hu, rfl⟩)).1
  have hprevious := hhistory.previous i v hi
  have hlast : i - 1 < (versionsOf s.registry.db.versions u.endpointId).length := by
    have := (List.getElem?_eq_some_iff.mp hi).1
    omega
  obtain ⟨p, hp⟩ : ∃ p, (versionsOf s.registry.db.versions u.endpointId)[i - 1]? = some p :=
    ⟨_, List.getElem?_eq_getElem hlast⟩
  rw [if_neg (by omega), hp, Option.map_some] at hprevious
  have hpversion := hhistory.version _ p hp
  obtain rfl : u = p :=
    hhistory.eq_of_version (mem_versionsOf.mpr ⟨hu, rfl⟩) (List.mem_of_getElem? hp) (by omega)
  have hclassified := hinv.rows v hv
  rw [Classified, hprevious] at hclassified
  obtain ⟨prev, hprev, hid, hexplained⟩ := hclassified
  rwa [hinv.drafts.eq_of_id hprev hu hid] at hexplained

/-- A version extends every earlier one of its endpoint after which none is recorded as BREAKING. -/
theorem later_version_extends (hjsonb : ∀ a b, a.wf → c.base.jsonb a = some b → pyEq a b = true)
    (hplain : ∀ i, plain (c.call i).payload) {s : TrackRuns.State ι}
    (h : Reachable (TrackRuns.step c) always TrackRuns.init s) {r r' : SchemaVersionRecord}
    (hr : r ∈ s.registry.db.versions) (hr' : r' ∈ s.registry.db.versions)
    (hendpoint : r'.endpointId = r.endpointId) (hlt : r.version < r'.version)
    (hnone : ∀ v ∈ s.registry.db.versions, v.endpointId = r.endpointId → r.version < v.version →
      v.version ≤ r'.version → v.compatibilityClassification ≠ .BREAKING) :
    Extends c.base.isPrintable r.canonicalSchema r'.canonicalSchema := by
  obtain ⟨hinv, hsourced⟩ := reachable_allSourced h
  have hhistory := hinv.base.history r.endpointId
  -- induction on how far the later version is from the earlier one
  have hextends : ∀ n, ∀ v ∈ versionsOf s.registry.db.versions r.endpointId, v.version = r.version + n →
      v.version ≤ r'.version → Extends c.base.isPrintable r.canonicalSchema v.canonicalSchema := by
    intro n
    induction n with
    | zero =>
      intro v hv hversion _
      rw [hhistory.eq_of_version hv (mem_versionsOf.mpr ⟨hr, rfl⟩) hversion]
      exact Extends.refl _
    | succ n ih =>
      intro v hv hversion hle
      obtain ⟨hmem, hve⟩ := mem_versionsOf.mp hv
      obtain ⟨u, hu, hnext⟩ : ∃ u ∈ versionsOf s.registry.db.versions r.endpointId, v.version = u.version + 1 := by
        obtain ⟨i, hi⟩ := List.mem_iff_getElem?.mp hv
        have hvi := hhistory.version i v hi
        have hpos := (hhistory.version_le (mem_versionsOf.mpr ⟨hr, rfl⟩)).1
        have hlt := (List.getElem?_eq_some_iff.mp hi).1
        refine ⟨_, List.getElem_mem (show i - 1 < _ by omega), ?_⟩
        have := hhistory.version _ _ (List.getElem?_eq_getElem (show i - 1 < _ by omega))
        omega
      obtain ⟨humem, hue⟩ := mem_versionsOf.mp hu
      have hexplained := explained_next hinv humem hmem (hve.trans hue.symm) hnext
      have hgood := hnone v hmem hve (by omega) hle
      exact (ih u hu (by omega) (by omega)).trans
        ((not_breaking_iff_extends hjsonb hplain (hsourced.rows u humem) hexplained).mp hgood)
  obtain ⟨n, hn⟩ := Nat.exists_eq_add_of_lt hlt
  exact hextends (n + 1) r' (mem_versionsOf.mpr ⟨hr', hendpoint⟩) (by omega) le_rfl

/-- Whatever the interleaving and the failures: of two versions of an endpoint, the later one is
compatible with the earlier one when none after it up to the later one is recorded as BREAKING. -/
theorem later_version_compatible (c : TrackRuns.Config ι)
    (hjsonb : ∀ a b, a.wf → c.base.jsonb a = some b → pyEq a b = true)
    (hplain : ∀ i, plain (c.call i).payload) (s : TrackRuns.State ι)
    (h : Reachable (TrackRuns.step c) always TrackRuns.init s) (r r' : SchemaVersionRecord)
    (hr : r ∈ s.registry.db.versions) (hr' : r' ∈ s.registry.db.versions)
    (hendpoint : r'.endpointId = r.endpointId) (hlt : r.version < r'.version)
    (hnone : ∀ v ∈ s.registry.db.versions, v.endpointId = r.endpointId → r.version < v.version →
      v.version ≤ r'.version → v.compatibilityClassification ≠ .BREAKING) :
    ∃ diffs, diffAndClassify c.base.isPrintable r.canonicalSchema r'.canonicalSchema = .ok diffs ∧
      summarizeClassification diffs ≠ .BREAKING := by
  have hstored : ∀ v ∈ s.registry.db.versions, Marked v.canonicalSchema := by
    intro v hv
    obtain ⟨j, hj⟩ := (reachable_allSourced h).2.rows v hv
    exact marked_of_stored (hplain j) (pyEq_of_stored hjsonb hj)
  apply (compatible_iff_extends (hstored r hr) (hstored r' hr')).mpr
  exact later_version_extends hjsonb hplain h hr hr' hendpoint hlt hnone

end Sources

section Sample

open Digest JsonText Registry Runs TrackRuns VersionClassification

def tagged : Track.Call :=
  ⟨ordersKey, [("score", .num (.float ⟨"3.5", by decide⟩)), ("tag", .str "x")], by decide⟩

/-- An integer field that becomes a float, and then a new field. -/
def widenedTwice (i : Fin 3) : Track.Call :=
  match i with
  | 0 => widened false
  | 1 => widened true
  | 2 => tagged

def chainConfig : TrackRuns.Config (Fin 3) where
  base :=
    { sha256 := sampleSha256 [
        (dumpsSorted (canonicalize (widened false).payload.json),
          "0a729e6ab6035dcd37f199094b9a24d60279d01ee62db8fa3cca7c3fa2dcb417"),
        (dumpsSorted (canonicalize (widened true).payload.json),
          "73a603da77a37e886a14b8c2ac441c920e99006a4314627c9abef71b5aed1c6a"),
        (dumpsSorted (canonicalize tagged.payload.json),
          "237a3f4206a15c524dda7745ef5f2f8a2023076ac93b4b0556d75de3bec9b1c2")]
      isPrintable := fun _ => true
      jsonb := some
      batchSize := 50
      inlineDelivery := true }
  call := widenedTwice
  hash := fun i _ => i

theorem later_version_compatible_widened :
    ∃ s, Reachable (TrackRuns.step chainConfig) always TrackRuns.init s ∧
      ∃ r r', r ∈ s.registry.db.versions ∧ r' ∈ s.registry.db.versions ∧ r.version = 1 ∧ r'.version = 3 ∧
        ∃ diffs, diffAndClassify (fun _ => true) r.canonicalSchema r'.canonicalSchema = .ok diffs ∧
          summarizeClassification diffs ≠ .BREAKING := by
  have hmap : (run (TrackRuns.step chainConfig) always TrackRuns.init
      (List.replicate 10 (.advance 0 0 0) ++ List.replicate 16 (.advance 1 0 0) ++
        List.replicate 17 (.advance 2 0 0))).map (fun s => s.registry.db.versions.map fun r =>
          (r.endpointId, r.version, r.compatibilityClassification)) =
      some [(0, 1, .SAFE), (0, 2, .RISKY), (0, 3, .SAFE)] := by decide +kernel
  obtain ⟨s, hs, hv⟩ := Option.map_eq_some_iff.mp hmap
  have hreach := reachable_run (TrackRuns.step chainConfig) always .start hs
  have hrow : ∀ row ∈ [(0, 1, Compatibility.SAFE), (0, 2, .RISKY), (0, 3, .SAFE)],
      ∃ r ∈ s.registry.db.versions, (r.endpointId, r.version, r.compatibilityClassification) = row := by
    intro row hrow
    rw [← hv] at hrow
    exact List.mem_map.mp hrow
  obtain ⟨r, hr, heq⟩ := hrow (0, 1, .SAFE) (by decide)
  obtain ⟨r', hr', heq'⟩ := hrow (0, 3, .SAFE) (by decide)
  simp only [Prod.mk.injEq] at heq heq'
  refine ⟨s, hreach, r, r', hr, hr', heq.2.1, heq'.2.1, ?_⟩
  refine later_version_compatible chainConfig (fun a b ha hb => ?_) (by decide) s hreach r r' hr hr'
    (by omega) (by omega) fun v hmem _ _ _ => ?_
  · cases hb
    exact pyEq_self ha
  · have hv' : (v.endpointId, v.version, v.compatibilityClassification) ∈
        [(0, 1, Compatibility.SAFE), (0, 2, .RISKY), (0, 3, .SAFE)] := hv ▸ List.mem_map_of_mem hmem
    simp only [List.mem_cons, List.not_mem_nil, or_false, Prod.mk.injEq] at hv'
    obtain ⟨-, -, h⟩ | ⟨-, -, h⟩ | ⟨-, -, h⟩ := hv' <;> rw [h] <;> decide

end Sample

end SchemaPilot.VersionChain
