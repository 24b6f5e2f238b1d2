import SchemaPilot.Json

namespace SchemaPilot.JsonContext

variable {ν : Type}

/-- Two values alike but for one place inside, at any depth, where a relation holds between them. -/
inductive Inside (R : JsonOf ν → JsonOf ν → Prop) : JsonOf ν → JsonOf ν → Prop
  | here {v w : JsonOf ν} : R v w → Inside R v w
  | item (l r : List (JsonOf ν)) {v w : JsonOf ν} :
    Inside R v w → Inside R (.arr (l ++ v :: r)) (.arr (l ++ w :: r))
  | entry (l r : List (String × JsonOf ν)) (k : String) {v w : JsonOf ν} :
    Inside R v w → Inside R (.obj (l ++ (k, v) :: r)) (.obj (l ++ (k, w) :: r))

/-- An array gets one more element, which is like one that it has. -/
inductive Appended (Alike : JsonOf ν → JsonOf ν → Prop) (x : JsonOf ν) : JsonOf ν → JsonOf ν → Prop
  | mk {items : List (JsonOf ν)} {y : JsonOf ν} :
    y ∈ items → Alike x y → Appended Alike x (.arr items) (.arr (items ++ [x]))

end SchemaPilot.JsonContext
