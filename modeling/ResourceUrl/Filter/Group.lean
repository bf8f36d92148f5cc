import ResourceUrl.Text.Split
import ResourceUrl.Value.Basic

/-!
# Filter trees

A filter is a tree of conditions: a `Group` joins its children, conditions and groups alike, under
one `Logical` operator.
-/

namespace ResourceUrl

/-- The comparisons that are known by name. A condition may name any other. -/
inductive Comparison where
  | eq | ne | gt | lt | gte | lte | like
deriving DecidableEq, Repr

namespace Comparison

def all : List Comparison :=
  [.eq, .ne, .gt, .lt, .gte, .lte, .like]

def name : Comparison → String
  | .eq => "eq"
  | .ne => "ne"
  | .gt => "gt"
  | .lt => "lt"
  | .gte => "gte"
  | .lte => "lte"
  | .like => "like"

end Comparison

/-- How the children of a group are joined. -/
inductive Logical where
  | and | or
deriving DecidableEq, Repr

namespace Logical

def all : List Logical :=
  [.and, .or]

def name : Logical → String
  | .and => "and"
  | .or => "or"

def ofName? (name : String) : Option Logical :=
  all.find? (·.name == name)

theorem ofName?_name (l : Logical) : ofName? l.name = some l := by
  cases l <;> decide

/-- The mark that stands between two children. -/
def mark : Logical → Char
  | .and => ';'
  | .or => '|'

end Logical

/-- A leaf of a filter: a field is compared with a value. -/
structure Condition where
  field : String
  operator : String
  value : Value
deriving DecidableEq

namespace Condition

/-- The field as a path of names between points. -/
def path (c : Condition) : List String :=
  Text.pieces '.' c.field

def isRecognized (c : Condition) : Bool :=
  (Comparison.all.map Comparison.name).contains c.operator

def sameAs (c d : Condition) : Bool :=
  c.field == d.field && c.operator == d.operator && c.value.sameAs d.value

end Condition

/-- A child of a group. -/
inductive Node where
  | condition (c : Condition)
  | group (logical : Logical) (children : List Node)

/-- The root of a filter. The empty group that joins by `and` is no filter at all. -/
structure Group where
  logical : Logical := .and
  children : List Node := []

mutual

/-- The conditions below a node, depth first and from left to right. -/
def Node.leaves : Node → List Condition
  | .condition c => [c]
  | .group _ children => Node.leavesOf children

def Node.leavesOf : List Node → List Condition
  | [] => []
  | node :: rest => node.leaves ++ Node.leavesOf rest

end

mutual

/-- Equality of trees with values compared as values. -/
def Node.sameAs : Node → Node → Bool
  | .condition c, .condition d => c.sameAs d
  | .group k xs, .group l ys => k == l && Node.sameAll xs ys
  | _, _ => false

def Node.sameAll : List Node → List Node → Bool
  | [], [] => true
  | x :: xs, y :: ys => Node.sameAs x y && Node.sameAll xs ys
  | _, _ => false

end

namespace Group

/-- The group as a child of another. -/
def toNode (g : Group) : Node :=
  .group g.logical g.children

def isEmpty (g : Group) : Bool :=
  g.children.isEmpty

/-- The conditions of a filter, depth first and from left to right. -/
def leaves (g : Group) : List Condition :=
  Node.leavesOf g.children

def sameAs (g h : Group) : Bool :=
  g.logical == h.logical && Node.sameAll g.children h.children

end Group

end ResourceUrl
