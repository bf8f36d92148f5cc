import ResourceUrl.Filter.Machine
import ResourceUrl.Sort

/-!
# Vocabulary

The names that the language of queries is made of, for those who want to list them.
-/

namespace ResourceUrl.Vocabulary

/-- A name and the label under which it is listed. -/
structure Entry where
  label : String
  name : String
deriving DecidableEq, Repr

/-- A name that is its own label, in capitals. -/
def Entry.ofName (name : String) : Entry :=
  { label := name.map Char.toUpper, name }

def comparisons : List Entry :=
  Comparison.all.map fun c => .ofName c.name

def logicals : List Entry :=
  Logical.all.map fun l => .ofName l.name

def directions : List Entry :=
  Direction.all.map fun d => .ofName d.name

/-- The name of a kind of token: a delimiter is known by its operator. -/
def kindName : Token.Kind → String
  | .condition => "condition"
  | .mark (.delimiter logical) => logical.name
  | .mark mark => .ofList [mark.toChar]

def tokenKinds : List Entry :=
  [.ofName (kindName .condition),
    { label := "OPEN", name := kindName (.mark .opening) },
    { label := "CLOSE", name := kindName (.mark .closing) },
    .ofName (kindName (.mark (.delimiter .and))),
    .ofName (kindName (.mark (.delimiter .or)))]

/-- The names of the known comparisons in alphabetical order. -/
def recognized : List String :=
  (Comparison.all.map Comparison.name).mergeSort fun a b => decide (a ≤ b)

end ResourceUrl.Vocabulary
