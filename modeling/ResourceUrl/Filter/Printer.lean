import ResourceUrl.Filter.Condition

/-!
# Writing filters

Children stand between the marks of their group's operator, and nested groups in parentheses. A
group that joins by `or` and has fewer than two children ends in a mark all the same, so that its
operator is read again.
-/

namespace ResourceUrl

/-- The texts of children as the text of their group. -/
def Logical.join (logical : Logical) (texts : List (List Char)) : List Char :=
  [logical.mark].intercalate texts ++
    (if logical = .or ∧ texts.length < 2 then [logical.mark] else [])

mutual

def Node.render : Node → List Char
  | .condition c => c.render
  | .group logical children => '(' :: (logical.join (Node.renderAll children) ++ [')'])

def Node.renderAll : List Node → List (List Char)
  | [] => []
  | node :: rest => node.render :: Node.renderAll rest

end

namespace Group

def characters (g : Group) : List Char :=
  g.logical.join (Node.renderAll g.children)

def render (g : Group) : String :=
  .ofList g.characters

/-- Whether every integer of a filter keeps to the digit limit. -/
def isWritable (g : Group) : Bool :=
  g.leaves.all (·.value.isWritable)

/-- Writes a filter, unless an integer in it is too long. -/
def write (g : Group) : Except Fault String :=
  if g.isWritable then .ok g.render else .error .tooLongToWrite

end Group

end ResourceUrl
