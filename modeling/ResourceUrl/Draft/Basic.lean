import ResourceUrl.Draft.Checked
import ResourceUrl.Query.Basic

/-!
# Drafts

A draft is a query as it comes from outside, with parts missing or names unknown. `Draft.Query.check`
makes it a query or lists everything that is wrong with it, in the order of the parts.
-/

namespace ResourceUrl.Draft

/-- A node of a filter as it comes from outside. Its tag says which of the other parts matter. -/
inductive Node where
  | node (tag field operator : Option String) (value : Value) (logical : Option String)
    (children : List Node)

def checkCondition (field operator : Option String) (value : Value) : Checked Condition :=
  ((Checked.required "field" field).both (.required "operator" operator)).map
    fun (field, operator) => { field, operator, value }

/-- Checks a group whose children have been checked. -/
def checkGroup (logical : Option String) (children : List (Checked ResourceUrl.Node)) :
    Checked Group :=
  ((Checked.named "logical" Logical.ofName? .and logical).both
    ((Checked.all 0 children).under (.key "conditions"))).map
      fun (logical, children) => { logical, children }

namespace Node

mutual

def check : Node → Checked ResourceUrl.Node
  | .node tag field operator value logical children =>
    match tag with
    | none => .fail .missingTag
    | some "condition" =>
      ((checkCondition field operator value).map .condition).under (.key "condition")
    | some "group" =>
      ((checkGroup logical (checkAll children)).map Group.toNode).under (.key "group")
    | some _ => .fail .unknownTag

def checkAll : List Node → List (Checked ResourceUrl.Node)
  | [] => []
  | child :: rest => child.check :: checkAll rest

end

/-- Checks the root of a filter, which is a group and need not say so. -/
def checkRoot : Node → Checked Group
  | .node tag _ _ _ logical children =>
    let tagged : Checked Unit :=
      if tag.all (· == "group") then .passed () else (Checked.fail .wrongTag).under (.key "type")
    (tagged.both (checkGroup logical (checkAll children))).map fun (_, group) => group

end Node

structure SortKey where
  field : Option String
  direction : Option String
deriving DecidableEq, Repr

def SortKey.check (key : SortKey) : Checked ResourceUrl.SortKey :=
  ((Checked.required "field" key.field).both
    (.named "direction" Direction.ofName? .asc key.direction)).map
      fun (field, direction) => { field, direction }

structure Query where
  resourceType : Option String := none
  identifier : Option String := none
  filter : Option Node := none
  sort : List SortKey := []
  fields : List Selection := []
  limit : Option Int := none
  offset : Option Int := none

def Query.check (draft : Query) : Checked ResourceUrl.Query :=
  let filter := (draft.filter.elim (.passed {}) Node.checkRoot).under (.key "filter")
  let sort := (Checked.all 0 (draft.sort.map SortKey.check)).under (.key "sort")
  let page := ((Checked.bound "limit" draft.limit).both (.bound "offset" draft.offset)).under
    (.key "pagination")
  (filter.both (sort.both page)).map fun (filter, sort, limit, offset) =>
    { resourceType := draft.resourceType
      identifier := draft.identifier
      filter
      sort
      fields := .ofList draft.fields
      page := { limit, offset } }

end ResourceUrl.Draft
