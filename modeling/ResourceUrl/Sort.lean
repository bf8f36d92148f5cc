import ResourceUrl.Error
import ResourceUrl.Text.Split

/-!
# Sort keys

The order of a result is a list of fields, each with a direction: `field:direction` between commas.
A missing or empty direction is ascending.
-/

namespace ResourceUrl

inductive Direction where
  | asc | desc
deriving DecidableEq, Repr

namespace Direction

def all : List Direction :=
  [.asc, .desc]

def name : Direction → String
  | .asc => "asc"
  | .desc => "desc"

def ofName? (name : String) : Option Direction :=
  all.find? (·.name == name)

theorem ofName?_name (d : Direction) : ofName? d.name = some d := by
  cases d <;> decide

end Direction

structure SortKey where
  field : String
  direction : Direction := .asc
deriving DecidableEq, Repr

namespace SortKey

/-- Reads one item of a sort parameter. A missing field is noticed before a bad direction. -/
def read (item : List Char) : Except ParseError SortKey :=
  let (field, direction) := Text.cut ':' item
  if field = [] then .error .missingSortField
  else if direction = [] then .ok { field := .ofList field }
  else
    match Direction.ofName? (.ofList direction) with
    | none => .error (.invalidDirection (.ofList direction))
    | some direction => .ok { field := .ofList field, direction }

/-- Reads a sort parameter; of several faults the first is reported. -/
def readAll (value : String) : Except ParseError (List SortKey) :=
  (value.toList.splitOn ',').mapM read

def render (key : SortKey) : List Char :=
  key.field.toList ++ ':' :: key.direction.name.toList

def renderAll (keys : List SortKey) : String :=
  .ofList ([','].intercalate (keys.map render))

end SortKey

end ResourceUrl
