import SchemaPilot.SchemaInfer
import Mathlib.Data.List.Dedup
import Mathlib.Data.List.Induction
import Mathlib.Data.List.Perm.Subperm

namespace SchemaPilot.SchemaNotes

open Keyed SchemaInfer

/-- What the inference notes at a path: an object or an array, a null, another scalar, the
item type of an array, or that the field is not required. -/
inductive Note where
  | container (t : JsonType)
  | null
  | scalar (v : Json)
  | items (t : JsonType)
  | optional
  deriving DecidableEq

def note (states : States) : String × Note → States
  | (path, .container t) => ensure states path t
  | (path, .null) => modify (ensure states path .null) path NodeState.sawNull
  | (path, .scalar v) =>
    modify (ensure states path (scalarType v)) path
      (fun s => ((s.sawType (scalarType v)).sawExample v).sawString v)
  | (path, .items t) => setItemType path t states
  | (path, .optional) => modify states path (fun s => { s with required := false })

def relaxNotes (itemPath : String) (items : List Json) : List (String × Note) :=
  ((keysSeen items).filter (fun p => p.2 < items.length)).map
    (fun p => (joinPath itemPath p.1, .optional))

mutual

/-- The notes that `emitValue` makes, in their order. -/
def notes (path : String) : Json → List (String × Note)
  | .obj fields =>
    (path, .container .object) ::
      ((if path = "" then [] else [(path, .container .object)]) ++ fieldNotes path fields)
  | .arr items =>
    (orItems path, .container .array) ::
      (if items = [] then [(orItems path, .items .unknown)]
      else if items.all isObject then
        (orItems path, .items .object) ::
          (memberNotes (arrayPath path) items ++ relaxNotes (arrayPath path) items)
      else itemNotes (arrayPath path) items ++ [(orItems path, .items (itemType items))])
  | .null => [(path, .null)]
  | .bool b => [(path, .scalar (.bool b))]
  | .num n => [(path, .scalar (.num n))]
  | .str s => [(path, .scalar (.str s))]

def fieldNotes (parent : String) : List (String × Json) → List (String × Note)
  | [] => []
  | (k, v) :: fields => notes (joinPath parent k) v ++ fieldNotes parent fields

def memberNotes (itemPath : String) : List Json → List (String × Note)
  | [] => []
  | .obj fields :: items => fieldNotes itemPath fields ++ memberNotes itemPath items
  | _ :: items => memberNotes itemPath items

def itemNotes (itemPath : String) : List Json → List (String × Note)
  | [] => []
  | x :: items => notes itemPath x ++ itemNotes itemPath items

end

def walkNotes (data : Json) : List (String × Note) :=
  match data with
  | .obj fields => fieldNotes "" fields
  | .arr items => notes "" (.arr items)
  | v => notes "[root]" v

theorem fieldNotes_eq (parent : String) (fields : List (String × Json)) :
    fieldNotes parent fields = fields.flatMap (fun p => notes (joinPath parent p.1) p.2) := by
  induction fields with
  | nil => rfl
  | cons p fields ih => rw [fieldNotes, ih, List.flatMap_cons]

theorem memberNotes_eq (itemPath : String) (items : List Json) :
    memberNotes itemPath items = items.flatMap (fun x => fieldNotes itemPath (members x)) := by
  induction items with
  | nil => rfl
  | cons x items ih => cases x <;> simp [memberNotes, members, fieldNotes, ih]

theorem itemNotes_eq (itemPath : String) (items : List Json) :
    itemNotes itemPath items = items.flatMap (notes itemPath) := by
  induction items with
  | nil => rfl
  | cons x items ih => rw [itemNotes, ih, List.flatMap_cons]

section Emit

theorem relaxRequired_eq (itemPath : String) (items : List Json) (states : States) :
    relaxRequired itemPath items states = (relaxNotes itemPath items).foldl note states := by
  rw [relaxNotes, List.foldl_map, List.foldl_filter, relaxRequired]
  congr 1
  funext states p
  simp only [decide_eq_true_eq]
  rfl

/-- Emitting a value is making its notes one after the other, and so it is with the members
of an object. -/
theorem emit_eq (v : Json) (path : String) (states : States) :
    emitValue path v states = (notes path v).foldl note states ∧
      emitFields path (members v) states = (fieldNotes path (members v)).foldl note states := by
  induction v using JsonOf.induct generalizing path states with
  | null | bool b | str s => exact ⟨rfl, rfl⟩
  | num n => cases n <;> exact ⟨rfl, rfl⟩
  | obj fields ih =>
    have hf : ∀ parent states,
        emitFields parent fields states = (fieldNotes parent fields).foldl note states := by
      clear states path
      intro parent states
      induction fields generalizing states with
      | nil => rfl
      | cons p fields ihf =>
        obtain ⟨hp, hfields⟩ := List.forall_mem_cons.mp ih
        rw [fieldNotes, List.foldl_append, emitFields, (hp _ _).1]
        exact ihf hfields _
    refine ⟨?_, hf path states⟩
    rw [emitValue, notes, List.foldl_cons, List.foldl_append, hf]
    split <;> rfl
  | arr items ih =>
    refine ⟨?_, rfl⟩
    have hitems : ∀ states,
        emitItems (arrayPath path) items states =
          (itemNotes (arrayPath path) items).foldl note states := by
      clear states
      intro states
      induction items generalizing states with
      | nil => rfl
      | cons x items ihx =>
        obtain ⟨hx, hitems⟩ := List.forall_mem_cons.mp ih
        rw [itemNotes, List.foldl_append, emitItems, (hx _ _).1]
        exact ihx hitems _
    have hmembers : ∀ states,
        emitMembers (arrayPath path) items states =
          (memberNotes (arrayPath path) items).foldl note states := by
      clear states hitems
      intro states
      induction items generalizing states with
      | nil => rfl
      | cons x items ihx =>
        obtain ⟨hx, hitems⟩ := List.forall_mem_cons.mp ih
        cases x with
        | obj fields =>
          rw [memberNotes, List.foldl_append, emitMembers]
          exact (congrArg _ (hx _ _).2).trans (ihx hitems _)
        | null | bool b | num n | str s | arr xs => exact ihx hitems _
    rw [emitValue, notes, List.foldl_cons]
    split_ifs
    · rfl
    · rw [relaxRequired_eq, hmembers, List.foldl_cons, List.foldl_append]
      rfl
    · rw [hitems, List.foldl_append]
      rfl

theorem walk_eq (data : Json) : walk data [] = (walkNotes data).foldl note [] := by
  cases data with
  | obj fields => exact (emit_eq (.obj fields) "" []).2
  | arr items => exact (emit_eq (.arr items) "" []).1
  | null => exact (emit_eq .null "[root]" []).1
  | bool b => exact (emit_eq (.bool b) "[root]" []).1
  | num n => exact (emit_eq (.num n) "[root]" []).1
  | str s => exact (emit_eq (.str s) "[root]" []).1

end Emit

section AtPath

def notesAt (path : String) (ns : List (String × Note)) : List Note :=
  ns.filterMap (fun p => if p.1 = path then some p.2 else none)

/-- The type that a note gives to a path that has no state yet. -/
def Note.opens : Note → Option JsonType
  | .container t => some t
  | .null => some .null
  | .scalar v => some (scalarType v)
  | .items _ | .optional => none

/-- Notes carry the types that the inference gives. -/
def Note.Proper : Note → Prop
  | .container t => t = .object ∨ t = .array
  | .scalar v => scalarType v ∈ [.string, .integer, .number, .boolean]
  | _ => True

def Note.apply : Note → NodeState → NodeState
  | .container _, s => s
  | .null, s => s.sawNull
  | .scalar v, s => ((s.sawType (scalarType v)).sawExample v).sawString v
  | .items t, s => { s with arrayItemType := some t.text }
  | .optional, s => { s with required := false }

def noteAt (path : String) (s : Option NodeState) (n : Note) : Option NodeState :=
  (s.or (n.opens.map (fun type => { path, type }))).map n.apply

theorem lookup_ensure (states : States) (path q : String) (t : JsonType) :
    (ensure states path t).lookup q =
      if q = path then (states.lookup path).or (some { path, type := t }) else states.lookup q := by
  rw [ensure]
  split
  · next h =>
    obtain ⟨s, hs⟩ := Option.isSome_iff_exists.mp ((lookup_isSome_iff_mem_keys _ _).mpr h)
    split
    · next hq => rw [hq, hs, Option.some_or]
    · rfl
  · next h =>
    rw [lookup_set, (lookup_eq_none_iff_not_mem _ _).mpr h, Option.none_or]

theorem lookup_note (states : States) (path q : String) (n : Note) :
    (note states (path, n)).lookup q =
      if q = path then noteAt path (states.lookup path) n else states.lookup q := by
  cases n with
  | container t =>
    rw [note, lookup_ensure]
    exact if_congr Iff.rfl Option.map_id'.symm rfl
  | null | scalar v =>
    rw [note, lookup_modify, lookup_ensure, if_pos rfl, lookup_ensure]
    by_cases hq : q = path
    · simp only [if_pos hq]
      rfl
    · simp only [if_neg hq]
  | items t =>
    rw [note, setItemType, lookup_modify, noteAt, Note.opens, Option.map_none, Option.or_none]
    rfl
  | optional =>
    rw [note, lookup_modify, noteAt, Note.opens, Option.map_none, Option.or_none]
    rfl

/-- The state of a path comes from the notes made there. -/
theorem lookup_foldl_note (ns : List (String × Note)) (states : States) (q : String) :
    (ns.foldl note states).lookup q = (notesAt q ns).foldl (noteAt q) (states.lookup q) := by
  induction ns generalizing states with
  | nil => rfl
  | cons p ns ih =>
    obtain ⟨path, n⟩ := p
    rw [List.foldl_cons, ih, lookup_note]
    by_cases h : q = path
    · simp only [notesAt, List.filterMap_cons, h, if_true, List.foldl_cons]
    · simp only [notesAt, List.filterMap_cons, if_neg h, if_neg (Ne.symm h)]

end AtPath

end SchemaPilot.SchemaNotes
