import Mathlib.Data.Finset.SDiff
import Mathlib.Data.Finset.Insert
import Mathlib.Data.List.Infix

namespace SchemaPilot.Ddl

/-- The classes of names that PostgreSQL keeps. An index, also the one of a unique or primary key
constraint, is named like a table. -/
inductive ObjectKind where
  | relation | type | constraint | column | schema | function
  deriving DecidableEq

inductive SqlError where
  | DuplicateTable | DuplicateObject | DuplicateColumn | DuplicateSchema | DuplicateFunction
  | UndefinedTable | UndefinedObject | UndefinedColumn | InvalidSchemaName | UndefinedFunction
  | ProgrammingError
  deriving DecidableEq

def ObjectKind.duplicate : ObjectKind → SqlError
  | .relation => .DuplicateTable
  | .type | .constraint => .DuplicateObject
  | .column => .DuplicateColumn
  | .schema => .DuplicateSchema
  | .function => .DuplicateFunction

def ObjectKind.undefined : ObjectKind → SqlError
  | .relation => .UndefinedTable
  | .type | .constraint => .UndefinedObject
  | .column => .UndefinedColumn
  | .schema => .InvalidSchemaName
  | .function => .UndefinedFunction

structure DbObject where
  kind : ObjectKind
  name : String
  deriving DecidableEq

/-- A statement first looks up the objects that it needs. One that creates an object makes its parts
with it, as `CREATE TABLE` does its columns and the indexes of its constraints, from other objects that
it uses; where the object exists, IF NOT EXISTS skips the statement as a whole. An object takes its
dependents with it when it is dropped; where it is missing, so are they. -/
inductive Statement where
  | create (object : DbObject) (parts : List DbObject) (ifNotExists : Bool) (needs uses : List DbObject)
  | drop (object : DbObject) (ifExists : Bool) (needs dependents : List DbObject)
  | alter (needs : List DbObject)

def missing (needs : List DbObject) (objects : Finset DbObject) : Option DbObject :=
  needs.find? (· ∉ objects)

def Statement.execute (objects : Finset DbObject) : Statement → Except SqlError (Finset DbObject)
  | .create object parts ifNotExists needs uses =>
    match missing needs objects with
    | some o => .error o.kind.undefined
    | none =>
      if object ∈ objects then
        if ifNotExists then .ok objects else .error object.kind.duplicate
      else
        match missing uses objects with
        | some o => .error o.kind.undefined
        | none =>
          match parts.find? (· ∈ objects) with
          | some o => .error o.kind.duplicate
          | none => .ok (objects ∪ (object :: parts).toFinset)
  | .drop object ifExists needs dependents =>
    match missing needs objects with
    | some o => .error o.kind.undefined
    | none =>
      if object ∈ objects ∨ ifExists then .ok (objects \ (object :: dependents).toFinset)
      else .error object.kind.undefined
  | .alter needs =>
    match missing needs objects with
    | some o => .error o.kind.undefined
    | none => .ok objects

/-- The text of a file, sent as one query. -/
def execute (statements : List Statement) (objects : Finset DbObject) : Except SqlError (Finset DbObject) :=
  if statements = [] then .error .ProgrammingError else statements.foldlM Statement.execute objects

def Statement.creates : Statement → List DbObject
  | .create object parts _ _ _ => object :: parts
  | .drop _ _ _ _ | .alter _ => []

def Statement.drops : Statement → List DbObject
  | .drop object _ _ dependents => object :: dependents
  | .create _ _ _ _ _ | .alter _ => []

def creates (statements : List Statement) : List DbObject := statements.flatMap Statement.creates

def drops (statements : List Statement) : List DbObject := statements.flatMap Statement.drops

/-- A statement, with the objects that it finds. -/
structure Visit where
  objects : Finset DbObject
  statement : Statement

def visits : List Statement → Finset DbObject → List Visit
  | [], _ => []
  | s :: rest, objects =>
    ⟨objects, s⟩ ::
      match s.execute objects with
      | .ok objects => visits rest objects
      | .error _ => []

/-- IF NOT EXISTS skips the statement. -/
def Visit.skipped (v : Visit) : Bool :=
  match v.statement with
  | .create object _ ifNotExists _ _ => ifNotExists && decide (object ∈ v.objects)
  | .drop _ _ _ _ | .alter _ => false

def Visit.makes (v : Visit) : List DbObject := if v.skipped then [] else v.statement.creates

/-- The statement drops the object, or is skipped where that one of its objects is missing. -/
def Visit.leavesOut (v : Visit) (o : DbObject) : Bool :=
  decide (o ∈ v.statement.drops) || v.skipped && decide (o ∈ v.statement.creates ∧ o ∉ v.objects)

def makes (vs : List Visit) : List DbObject := vs.flatMap Visit.makes

/-- No statement drops the object or is skipped without it, unless a later one makes it. -/
def Keeps : List Visit → DbObject → Prop
  | [], _ => True
  | v :: rest, o => (v.leavesOut o = true → o ∈ makes rest) ∧ Keeps rest o

instance decidableKeeps : (vs : List Visit) → (o : DbObject) → Decidable (Keeps vs o)
  | [], _ => inferInstanceAs (Decidable True)
  | v :: rest, o =>
    have := decidableKeeps rest o
    inferInstanceAs (Decidable ((v.leavesOut o = true → o ∈ makes rest) ∧ Keeps rest o))

section Execute

theorem mem_creates_cons {s : Statement} {rest : List Statement} {o : DbObject} :
    o ∈ creates (s :: rest) ↔ o ∈ s.creates ∨ o ∈ creates rest :=
  List.mem_append

theorem mem_drops_cons {s : Statement} {rest : List Statement} {o : DbObject} :
    o ∈ drops (s :: rest) ↔ o ∈ s.drops ∨ o ∈ drops rest :=
  List.mem_append

variable {objects objects' : Finset DbObject}

/-- What a statement that succeeds leaves of an object. -/
theorem mem_of_statement {s : Statement} (h : s.execute objects = .ok objects') (o : DbObject) :
    o ∈ objects' ↔ o ∈ Visit.makes ⟨objects, s⟩ ∨ o ∈ objects ∧ o ∉ s.drops := by
  cases s with
  | create object parts ifNotExists needs uses =>
    rw [Statement.execute] at h
    split at h
    · cases h
    · split_ifs at h with hold hskip
      · obtain rfl := Except.ok.inj h
        simp [Visit.makes, Visit.skipped, hold, hskip, Statement.drops]
      · split at h
        · cases h
        · split at h
          · cases h
          · obtain rfl := Except.ok.inj h
            have hmakes : Visit.makes ⟨objects, .create object parts ifNotExists needs uses⟩ = object :: parts := by
              simp [Visit.makes, Visit.skipped, hold, Statement.creates]
            rw [hmakes, Finset.mem_union, List.mem_toFinset, or_comm]
            exact or_congr_right (and_iff_left List.not_mem_nil).symm
  | drop object ifExists needs dependents =>
    rw [Statement.execute] at h
    split at h
    · cases h
    · split_ifs at h
      obtain rfl := Except.ok.inj h
      simp [Visit.makes, Visit.skipped, Statement.creates, Statement.drops]
  | alter needs =>
    rw [Statement.execute] at h
    split at h
    · cases h
    · obtain rfl := Except.ok.inj h
      simp [Visit.makes, Visit.skipped, Statement.creates, Statement.drops]

/-- A statement leaves out the objects of its own, and those that it drops, that are missing after it. -/
theorem leavesOut_iff {s : Statement} (h : s.execute objects = .ok objects') {o : DbObject}
    (ho : o ∈ s.creates ∨ o ∈ s.drops) : Visit.leavesOut ⟨objects, s⟩ o = true ↔ o ∉ objects' := by
  rw [mem_of_statement h]
  cases s with
  | create object parts ifNotExists needs uses =>
    have hcreates : o ∈ object :: parts := ho.resolve_right List.not_mem_nil
    by_cases hskipped : Visit.skipped ⟨objects, .create object parts ifNotExists needs uses⟩ = true
    · simp [Visit.leavesOut, Visit.makes, hskipped, Statement.creates, Statement.drops, List.mem_cons.mp hcreates]
    · simp [Visit.leavesOut, Visit.makes, hskipped, Statement.creates, Statement.drops, List.mem_cons.mp hcreates]
  | drop object ifExists needs dependents =>
    have hdrops : o ∈ object :: dependents := ho.resolve_left List.not_mem_nil
    simp [Visit.leavesOut, Visit.makes, Visit.skipped, Statement.creates, Statement.drops, List.mem_cons.mp hdrops]
  | alter needs => exact absurd ho (not_or.mpr ⟨List.not_mem_nil, List.not_mem_nil⟩)

theorem foldlM_cons_eq_ok {s : Statement} {rest : List Statement} :
    (s :: rest).foldlM Statement.execute objects = .ok objects' ↔
      ∃ after, s.execute objects = .ok after ∧ rest.foldlM Statement.execute after = .ok objects' := by
  rw [List.foldlM_cons]
  cases s.execute objects with
  | error e => exact iff_of_false nofun nofun
  | ok after => exact ⟨fun h => ⟨after, rfl, h⟩, fun ⟨_, heq, h⟩ => Except.ok.inj heq ▸ h⟩

theorem leavesOut_imp {v : Visit} {o : DbObject} (h : v.leavesOut o = true) :
    o ∈ v.statement.creates ∨ o ∈ v.statement.drops := by
  obtain hdrops | hskipped := Bool.or_eq_true_iff.mp h
  · exact .inr (of_decide_eq_true hdrops)
  · exact .inl (of_decide_eq_true (Bool.and_eq_true_iff.mp hskipped).2).1

theorem visits_cons {s : Statement} (rest : List Statement) (h : s.execute objects = .ok objects') :
    visits (s :: rest) objects = ⟨objects, s⟩ :: visits rest objects' := by
  rw [visits, h]

theorem mem_makes_cons {v : Visit} {rest : List Visit} {o : DbObject} :
    o ∈ makes (v :: rest) ↔ o ∈ v.makes ∨ o ∈ makes rest :=
  List.mem_append

theorem makes_subset (v : Visit) : v.makes ⊆ v.statement.creates := by
  rw [Visit.makes]
  split
  · exact List.nil_subset _
  · exact List.Subset.refl _

/-- What is there after the statements was there before, or one of them has made it. -/
theorem mem_makes_or {statements : List Statement}
    (h : statements.foldlM Statement.execute objects = .ok objects') {o : DbObject} (ho : o ∈ objects') :
    o ∈ makes (visits statements objects) ∨ o ∈ objects := by
  induction statements generalizing objects with
  | nil =>
    obtain rfl := Except.ok.inj h
    exact .inr ho
  | cons s rest ih =>
    obtain ⟨after, hs, hrest⟩ := foldlM_cons_eq_ok.mp h
    rw [visits_cons rest hs, mem_makes_cons]
    obtain hmade | hafter := ih hrest
    · exact .inl (.inr hmade)
    · obtain hmade | ⟨hold, -⟩ := (mem_of_statement hs o).mp hafter
      · exact .inl (.inl hmade)
      · exact .inr hold

/-- An object that no statement creates is there if it was and none drops it. -/
theorem mem_of_not_created {statements : List Statement}
    (h : statements.foldlM Statement.execute objects = .ok objects') {o : DbObject}
    (ho : o ∉ creates statements) : o ∈ objects' ↔ o ∈ objects ∧ o ∉ drops statements := by
  induction statements generalizing objects with
  | nil =>
    obtain rfl := Except.ok.inj h
    simp [drops]
  | cons s rest ih =>
    obtain ⟨after, hs, hrest⟩ := foldlM_cons_eq_ok.mp h
    rw [mem_creates_cons, not_or] at ho
    have hmade : o ∉ Visit.makes ⟨objects, s⟩ := fun hmade => ho.1 (makes_subset _ hmade)
    rw [ih hrest ho.2, mem_of_statement hs, or_iff_right hmade, mem_drops_cons, not_or, and_assoc]

/-- What no statement creates, only a drop leaves out, and no statement makes it again. -/
theorem keeps_of_not_created {statements : List Statement}
    (h : statements.foldlM Statement.execute objects = .ok objects') {o : DbObject}
    (ho : o ∉ creates statements) :
    o ∉ makes (visits statements objects) ∧ (Keeps (visits statements objects) o ↔ o ∉ drops statements) := by
  induction statements generalizing objects with
  | nil => exact ⟨List.not_mem_nil, iff_of_true trivial List.not_mem_nil⟩
  | cons s rest ih =>
    obtain ⟨after, hs, hrest⟩ := foldlM_cons_eq_ok.mp h
    rw [mem_creates_cons, not_or] at ho
    obtain ⟨hmakes, hkeeps⟩ := ih hrest ho.2
    rw [visits_cons rest hs, mem_makes_cons, mem_drops_cons, not_or, not_or]
    refine ⟨⟨fun hmade => ho.1 (makes_subset _ hmade), hmakes⟩, ?_⟩
    refine and_congr ⟨fun hleft hdrops => ?_, fun hdrops hleft => ?_⟩ hkeeps
    · exact hmakes (hleft (Bool.or_eq_true_iff.mpr (.inl (decide_eq_true hdrops))))
    · exact absurd (leavesOut_imp hleft) (not_or.mpr ⟨ho.1, hdrops⟩)

/-- An object that the statements create is there after them if they keep it. -/
theorem mem_of_created {statements : List Statement}
    (h : statements.foldlM Statement.execute objects = .ok objects') {o : DbObject}
    (ho : o ∈ creates statements) : o ∈ objects' ↔ Keeps (visits statements objects) o := by
  induction statements generalizing objects with
  | nil => cases ho
  | cons s rest ih =>
    obtain ⟨after, hs, hrest⟩ := foldlM_cons_eq_ok.mp h
    rw [visits_cons rest hs, Keeps]
    by_cases hlater : o ∈ creates rest
    · rw [← ih hrest hlater]
      refine ⟨fun hthere => ⟨fun hleft => ?_, hthere⟩, And.right⟩
      -- left out here, it is there in the end because a later statement has made it
      exact (mem_makes_or hrest hthere).resolve_right ((leavesOut_iff hs (leavesOut_imp hleft)).mp hleft)
    · have hcreated : o ∈ s.creates := (mem_creates_cons.mp ho).resolve_right hlater
      obtain ⟨hmakes, hkeeps⟩ := keeps_of_not_created hrest hlater
      rw [mem_of_not_created hrest hlater, hkeeps]
      refine and_congr_left fun _ => ?_
      rw [leavesOut_iff hs (.inl hcreated)]
      exact ⟨fun hthere hmissing => absurd hthere hmissing,
        fun hleft => by_contra fun hmissing => hmakes (hleft hmissing)⟩

theorem mem_execute_iff {statements : List Statement} (h : execute statements objects = .ok objects')
    {o : DbObject} (ho : o ∈ creates statements) : o ∈ objects' ↔ Keeps (visits statements objects) o := by
  rw [execute] at h
  split_ifs at h
  exact mem_of_created h ho

end Execute

end SchemaPilot.Ddl
