import ResourceUrl.Filter.Group
import ResourceUrl.Value.Reader

/-!
# Conditions as text

A condition is written `field[operator]value`. A field has no brackets and an operator no closing
one, so that the first brackets of a text divide it in the only possible way; everything after them,
further brackets included, is the value.
-/

namespace ResourceUrl.Condition

/-- An ASCII letter, digit or underscore. -/
def isWordChar (c : Char) : Bool :=
  c.isAlphanum || c == '_'

def isFieldChar (c : Char) : Bool :=
  isWordChar c || c == '\\' || c == '.' || c == '?'

/-- Field, operator and raw value of a token. None of the three is empty, and a value has no line
feed. -/
def split? (token : List Char) : Option (List Char × List Char × List Char) :=
  let (field, rest) := Text.cut '[' token
  let (operator, value) := Text.cut ']' rest
  if field ≠ [] ∧ field.all isFieldChar ∧ operator ≠ [] ∧ operator.all isWordChar ∧
      value ≠ [] ∧ '\n' ∉ value then
    some (field, operator, value)
  else none

def read (token : String) : Except Fault Condition :=
  match split? token.toList with
  | none => .error (.parse (.invalidCondition token))
  | some (field, operator, value) =>
    (Value.read (.ofList value)).map fun value =>
      { field := .ofList field, operator := .ofList operator, value }

def render (c : Condition) : List Char :=
  c.field.toList ++ '[' :: (c.operator.toList ++ ']' :: c.value.characters)

end ResourceUrl.Condition
