import ResourceUrl.Filter.Condition
import ResourceUrl.Filter.Token

/-!
# From tokens to filter trees

A group is read from its tokens with the groups around it on a stack. The last delimiter that stands
in a group itself gives its operator. Reading stops at the parenthesis that closes the outermost
group, or at the end, and answers with the tokens that are left, also when it fails.

The stack takes the place of a recursion into the groups, which reads the same and leaves the same
tokens (`readGroup_eq_descend`).
-/

namespace ResourceUrl

namespace Filter

/-- The nesting that is allowed when nothing else is said. -/
def defaultMaxDepth : Int :=
  100

/-- How filters are read: whether unbalanced parentheses are refused, and how deep groups nest. -/
structure Mode where
  strict : Bool := false
  maxDepth : Int := defaultMaxDepth
deriving DecidableEq, Repr

/-- A group that is being read, its children in reverse. -/
structure Frame where
  logical : Logical := .and
  reversed : List Node := []

namespace Frame

/-- The group as far as it is read. -/
def group (frame : Frame) : Group :=
  { logical := frame.logical, children := frame.reversed.reverse }

def push (frame : Frame) (node : Node) : Frame :=
  { frame with reversed := node :: frame.reversed }

/-- Closes a group and every group around it. -/
def closeAll (frame : Frame) : List Frame → Group
  | [] => frame.group
  | parent :: outer => (parent.push frame.group.toNode).closeAll outer

end Frame

/-- Reads on in the group `top`, which stands in the groups of `outer`, the innermost first. The
outermost group is at the depth `base`. -/
def run (mode : Mode) (base : Int) (top : Frame) (outer : List Frame) :
    List Token → Except Fault Group × List Token
  | [] =>
    if mode.strict ∧ 0 < base + outer.length then
      (.error (.parse (.unbalanced .missingClose)), [])
    else (.ok (top.closeAll outer), [])
  | token :: rest =>
    match token.kind with
    | .mark .opening =>
      if mode.maxDepth ≤ base + outer.length then
        (.error (.parse (.tooDeep mode.maxDepth)), rest)
      else run mode base {} (top :: outer) rest
    | .mark .closing =>
      if mode.strict ∧ base + outer.length = 0 then
        (.error (.parse (.unbalanced (.unexpectedClose token.position))), rest)
      else
        match outer with
        | [] => (.ok top.group, rest)
        | parent :: outer => run mode base (parent.push top.group.toNode) outer rest
    | .mark (.delimiter logical) => run mode base { top with logical } outer rest
    | .condition =>
      match Condition.read token.text with
      | .error fault => (.error fault, rest)
      | .ok c => run mode base (top.push (.condition c)) outer rest

/-- Reads one group whose depth is `base`, with the tokens that are left after it. -/
def readGroup (mode : Mode) (base : Int) (tokens : List Token) : Except Fault Group × List Token :=
  run mode base {} [] tokens

/-- Reads the source of a filter: its tree, and the tokens after a stray closing parenthesis. -/
def readAll (mode : Mode) (source : String) : Except Fault (Group × List Token) :=
  match tokenize source with
  | .error error => .error (.parse error)
  | .ok tokens =>
    let (outcome, rest) := readGroup mode 0 tokens
    outcome.map fun group => (group, rest)

def read (mode : Mode) (source : String) : Except Fault Group :=
  (readAll mode source).map (·.1)

end Filter

end ResourceUrl
