import SchemaPilot.Json

namespace SchemaPilot.SchemaInfer

open Keyed

inductive JsonType where
  | object | array | string | integer | number | boolean | null | mixed | unknown
  deriving DecidableEq

def JsonType.text : JsonType → String
  | .object => "object"
  | .array => "array"
  | .string => "string"
  | .integer => "integer"
  | .number => "number"
  | .boolean => "boolean"
  | .null => "null"
  | .mixed => "mixed"
  | .unknown => "unknown"

def ENUM_THRESHOLD : Nat := 10

def EXAMPLE_MAX_LEN : Nat := 200

structure SchemaNode where
  path : String
  type : JsonType
  required : Bool := true
  nullable : Bool := false
  arrayItemType : Option String := none
  enumValues : Option (List String) := none
  exampleValue : Option Json := none
  deriving DecidableEq

/-- What has been seen at one path so far. The set of enum values has no order. -/
structure NodeState where
  path : String
  type : JsonType
  required : Bool := true
  nullable : Bool := false
  arrayItemType : Option String := none
  exampleValue : Option Json := none
  enumValues : List String := []
  enumDisabled : Bool := false
  isStringLeaf : Bool := false

abbrev States := List (String × NodeState)

def scalarType : Json → JsonType
  | .null => .null
  | .bool _ => .boolean
  | .num (.int _) => .integer
  | .num (.float _) => .number
  | .str _ => .string
  | .arr _ | .obj _ => .unknown

def truncateExample : Json → Json
  | .str s =>
    if EXAMPLE_MAX_LEN < s.toList.length then .str (String.ofList (s.toList.take EXAMPLE_MAX_LEN))
    else .str s
  | v => v

def joinPath (parent key : String) : String := if parent = "" then key else parent ++ "." ++ key

def arrayPath (parent : String) : String := if parent = "" then "[*]" else parent ++ "[*]"

/-- `parent_path or "[*]"`. -/
def orItems (parent : String) : String := if parent = "" then "[*]" else parent

def ensure (states : States) (path : String) (type : JsonType) : States :=
  if path ∈ keys states then states else set states path { path, type }

def NodeState.sawNull (s : NodeState) : NodeState := { s with nullable := true }

def NodeState.sawType (s : NodeState) (t : JsonType) : NodeState :=
  if s.type = .null then { s with type := t, nullable := true }
  else if s.type ≠ t then { s with type := .mixed }
  else s

def NodeState.sawExample (s : NodeState) (v : Json) : NodeState :=
  if s.exampleValue = none then { s with exampleValue := some (truncateExample v) } else s

/-- A string joins the enum values until there are too many, which ends the enum for good. -/
def NodeState.sawString (s : NodeState) (v : Json) : NodeState :=
  match v with
  | .str text =>
    let s := { s with isStringLeaf := true }
    if s.enumDisabled then s
    else
      let values := if text ∈ s.enumValues then s.enumValues else text :: s.enumValues
      if ENUM_THRESHOLD < values.length then { s with enumDisabled := true, enumValues := [] }
      else { s with enumValues := values }
  | _ => s

def emitScalar (path : String) (v : Json) (states : States) : States :=
  let t := scalarType v
  if t = .null then modify (ensure states path .null) path NodeState.sawNull
  else
    modify (ensure states path t) path (fun s => ((s.sawType t).sawExample v).sawString v)

def setItemType (path : String) (t : JsonType) (states : States) : States :=
  modify states path (fun s => { s with arrayItemType := some t.text })

def isObject : Json → Bool
  | .obj _ => true
  | _ => false

def members : Json → List (String × Json)
  | .obj fields => fields
  | _ => []

/-- How many of the objects have each key, keys in order of first appearance. -/
def keysSeen (items : List Json) : List (String × Nat) :=
  (items.flatMap (fun item => keys (members item))).foldl
    (fun seen k => set seen k ((seen.lookup k).getD 0 + 1)) []

/-- A key that some object of the array lacks is not required. -/
def relaxRequired (itemPath : String) (items : List Json) (states : States) : States :=
  (keysSeen items).foldl
    (fun states p =>
      if p.2 < items.length then
        modify states (joinPath itemPath p.1) (fun s => { s with required := false })
      else states)
    states

def itemType (items : List Json) : JsonType :=
  match ((items.map scalarType).filter (· ≠ .null)).dedup with
  | [t] => t
  | [] => .null
  | _ => .mixed

mutual

/-- `_emit_value`, with `_walk` of an object or an array written out. -/
def emitValue (path : String) : Json → States → States
  | .obj fields, states =>
    let states := ensure states path .object
    emitFields path fields (if path = "" then states else ensure states path .object)
  | .arr items, states =>
    let states := ensure states (orItems path) .array
    if items = [] then setItemType (orItems path) .unknown states
    else if items.all isObject then
      relaxRequired (arrayPath path) items
        (emitMembers (arrayPath path) items (setItemType (orItems path) .object states))
    else setItemType (orItems path) (itemType items) (emitItems (arrayPath path) items states)
  | .null, states => emitScalar path .null states
  | .bool b, states => emitScalar path (.bool b) states
  | .num n, states => emitScalar path (.num n) states
  | .str s, states => emitScalar path (.str s) states

def emitFields (parent : String) : List (String × Json) → States → States
  | [], states => states
  | (k, v) :: fields, states => emitFields parent fields (emitValue (joinPath parent k) v states)

def emitMembers (itemPath : String) : List Json → States → States
  | [], states => states
  | .obj fields :: items, states => emitMembers itemPath items (emitFields itemPath fields states)
  | _ :: items, states => emitMembers itemPath items states

def emitItems (itemPath : String) : List Json → States → States
  | [], states => states
  | x :: items, states => emitItems itemPath items (emitValue itemPath x states)

end

/-- `_walk` as `infer_schema` calls it, with the empty parent path. -/
def walk (data : Json) (states : States) : States :=
  match data with
  | .obj fields => emitFields "" fields states
  | .arr items => emitValue "" (.arr items) states
  | v => emitValue "[root]" v states

def sortedStrings (xs : List String) : List String := xs.insertionSort (· ≤ ·)

def finalize (state : NodeState) : SchemaNode where
  path := state.path
  type := state.type
  required := state.required
  nullable := state.nullable
  arrayItemType := state.arrayItemType
  enumValues :=
    if state.isStringLeaf && !state.enumDisabled && state.enumValues ≠ [] then
      some (sortedStrings state.enumValues)
    else none
  exampleValue := state.exampleValue

def inferSchema (data : Json) : List SchemaNode :=
  ((walk data []).map (fun p => finalize p.2)).insertionSort (fun m n => m.path ≤ n.path)

/-- A state is filed under its own path and lists each enum value once. -/
def Tracks (path : String) (s : NodeState) : Prop := s.path = path ∧ s.enumValues.Nodup

def Tidy (states : States) : Prop := (keys states).Nodup ∧ ∀ p ∈ states, Tracks p.1 p.2

theorem tidy_ensure {states : States} (h : Tidy states) (path : String) (t : JsonType) :
    Tidy (ensure states path t) := by
  rw [ensure]
  split
  · exact h
  · next hp =>
    refine ⟨nodup_set h.1 _ _, fun p hm => ?_⟩
    have hl := (lookup_eq_some_iff_mem (nodup_set h.1 _ _)).mpr hm
    rw [lookup_set] at hl
    split at hl
    · next he => exact ⟨by rw [← Option.some.inj hl, he], by rw [← Option.some.inj hl]; simp⟩
    · exact h.2 _ (mem_of_lookup hl)

theorem tidy_modify {states : States} (h : Tidy states) {path : String} {f : NodeState → NodeState}
    (hf : ∀ s, Tracks path s → Tracks path (f s)) : Tidy (modify states path f) := by
  refine ⟨by rw [keys_modify]; exact h.1, fun p hm => ?_⟩
  obtain hp | ⟨hk, v, hv, he⟩ := mem_modify hm
  · exact h.2 p hp
  · rw [hk, he]
    exact hf v (h.2 _ hv)

theorem tracks_sawString {path : String} {s : NodeState} (h : Tracks path s) (v : Json) :
    Tracks path (s.sawString v) := by
  cases v with
  | str text =>
    simp only [NodeState.sawString]
    split_ifs with hd hm hlen
    · exact h
    · exact ⟨h.1, List.nodup_nil⟩
    · exact h
    · exact ⟨h.1, List.nodup_nil⟩
    · exact ⟨h.1, List.nodup_cons.mpr ⟨hm, h.2⟩⟩
  | null | bool _ | num _ | arr _ | obj _ => exact h

theorem tidy_emitScalar {states : States} (h : Tidy states) (path : String) (v : Json) :
    Tidy (emitScalar path v states) := by
  unfold emitScalar
  dsimp only
  split
  · exact tidy_modify (tidy_ensure h _ _) fun s hs => hs
  · refine tidy_modify (tidy_ensure h _ _) fun s hs => tracks_sawString ?_ v
    unfold NodeState.sawExample NodeState.sawType
    split_ifs <;> exact hs

theorem tidy_relaxRequired {states : States} (h : Tidy states) (itemPath : String)
    (items : List Json) : Tidy (relaxRequired itemPath items states) := by
  rw [relaxRequired]
  induction keysSeen items generalizing states with
  | nil => exact h
  | cons p seen ih =>
    rw [List.foldl_cons]
    apply ih
    split
    · exact tidy_modify h fun s hs => hs
    · exact h

theorem tidy_emitFields {fields : List (String × Json)}
    (ih : ∀ p ∈ fields, ∀ path {states}, Tidy states → Tidy (emitValue path p.2 states))
    (parent : String) {states : States} (h : Tidy states) :
    Tidy (emitFields parent fields states) := by
  induction fields generalizing states with
  | nil => exact h
  | cons p fields ihf =>
    obtain ⟨hp, hfields⟩ := List.forall_mem_cons.mp ih
    exact ihf hfields (hp _ h)

theorem tidy_emitItems {items : List Json}
    (ih : ∀ x ∈ items, ∀ path {states}, Tidy states → Tidy (emitValue path x states))
    (itemPath : String) {states : States} (h : Tidy states) :
    Tidy (emitItems itemPath items states) := by
  induction items generalizing states with
  | nil => exact h
  | cons x items ihx =>
    obtain ⟨hx, hitems⟩ := List.forall_mem_cons.mp ih
    exact ihx hitems (hx _ h)

theorem tidy_emitMembers {items : List Json}
    (ih : ∀ x ∈ items, ∀ path {states}, Tidy states → Tidy (emitFields path (members x) states))
    (itemPath : String) {states : States} (h : Tidy states) :
    Tidy (emitMembers itemPath items states) := by
  induction items generalizing states with
  | nil => exact h
  | cons x items ihx =>
    obtain ⟨hx, hitems⟩ := List.forall_mem_cons.mp ih
    cases x with
    | obj fields => exact ihx hitems (hx _ h)
    | null | bool _ | num _ | str _ | arr _ => exact ihx hitems h

/-- Emitting a value keeps the states tidy, and so does emitting the members of an object. -/
theorem tidy_emit (v : Json) (path : String) {states : States} (h : Tidy states) :
    Tidy (emitValue path v states) ∧ Tidy (emitFields path (members v) states) := by
  induction v using JsonOf.induct generalizing path states with
  | null => exact ⟨tidy_emitScalar h path .null, h⟩
  | bool b => exact ⟨tidy_emitScalar h path (.bool b), h⟩
  | num n => exact ⟨tidy_emitScalar h path (.num n), h⟩
  | str s => exact ⟨tidy_emitScalar h path (.str s), h⟩
  | obj fields ih =>
    have hf : ∀ parent {states}, Tidy states → Tidy (emitFields parent fields states) :=
      tidy_emitFields fun p hp path _ hs => (ih p hp path hs).1
    refine ⟨hf path ?_, hf path h⟩
    split
    · exact tidy_ensure h _ _
    · exact tidy_ensure (tidy_ensure h _ _) _ _
  | arr items ih =>
    have hset : ∀ path t {states}, Tidy states → Tidy (setItemType path t states) :=
      fun _ _ _ hs => tidy_modify hs fun s hs => hs
    refine ⟨?_, h⟩
    rw [emitValue]
    split_ifs
    · exact hset _ _ (tidy_ensure h _ _)
    · exact tidy_relaxRequired
        (tidy_emitMembers (fun x hx path _ hs => (ih x hx path hs).2) _
          (hset _ _ (tidy_ensure h _ _))) _ _
    · exact hset _ _
        (tidy_emitItems (fun x hx path _ hs => (ih x hx path hs).1) _ (tidy_ensure h _ _))

theorem tidy_walk (data : Json) : Tidy (walk data []) := by
  have h : Tidy [] := ⟨List.nodup_nil, by simp⟩
  cases data with
  | obj fields => exact (tidy_emit (.obj fields) "" h).2
  | arr items => exact (tidy_emit (.arr items) "" h).1
  | null => exact (tidy_emit .null "[root]" h).1
  | bool b => exact (tidy_emit (.bool b) "[root]" h).1
  | num n => exact (tidy_emit (.num n) "[root]" h).1
  | str s => exact (tidy_emit (.str s) "[root]" h).1

theorem mem_inferSchema {data : Json} {n : SchemaNode} (h : n ∈ inferSchema data) :
    ∃ p ∈ walk data [], finalize p.2 = n := by
  have hm := (List.perm_insertionSort _ _).mem_iff.mp h
  exact List.mem_map.mp hm

/-- Inferred nodes have distinct paths. -/
theorem nodup_inferSchema (data : Json) : ((inferSchema data).map SchemaNode.path).Nodup := by
  obtain ⟨hn, ht⟩ := tidy_walk data
  have hp := (List.perm_insertionSort (fun m n : SchemaNode => m.path ≤ n.path)
    ((walk data []).map (fun p => finalize p.2))).map SchemaNode.path
  have hk : ((walk data []).map (fun p => finalize p.2)).map SchemaNode.path =
      keys (walk data []) := by
    rw [List.map_map]
    exact List.map_congr_left fun p hm => (ht p hm).1
  rw [inferSchema, hp.nodup_iff, hk]
  exact hn

/-- The enum values of an inferred node are distinct and in order. -/
theorem enumValues_inferSchema {data : Json} {n : SchemaNode} (h : n ∈ inferSchema data)
    {values : List String} (hv : n.enumValues = some values) :
    values.Nodup ∧ values.Pairwise (· ≤ ·) := by
  obtain ⟨p, hp, rfl⟩ := mem_inferSchema h
  simp only [finalize] at hv
  split at hv
  · cases hv
    refine ⟨(List.perm_insertionSort _ _).nodup_iff.mpr ((tidy_walk data).2 p hp).2, ?_⟩
    exact List.pairwise_insertionSort _ _
  · cases hv

end SchemaPilot.SchemaInfer
