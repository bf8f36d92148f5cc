import ResourceUrl.Filter.Machine
import ResourceUrl.Form
import ResourceUrl.Query.Basic
import ResourceUrl.Reference.Resolve

/-!
# Reading queries

`Options` name the parameters and set the limits. Each parameter is read on its own
(`Options.read`), and the query is the path with the changes of all parameters made in order; the
first parameter that fails stops the reading.
-/

namespace ResourceUrl

/-- How URLs are read. -/
structure Options where
  /-- What relative URLs are resolved against. -/
  baseUrl : String := "http://localhost"
  filterKey : String := "filter"
  sortKey : String := "sort"
  /-- Every key that begins with this text selects fields. -/
  fieldsStem : String := "fields"
  limitKey : String := "limit"
  offsetKey : String := "offset"
  strictGroups : Bool := false
  maxFilterDepth : Int := Filter.defaultMaxDepth
deriving DecidableEq, Repr

namespace Options

inductive Role where
  | filter | sort | fields | limit | offset | ignored
deriving DecidableEq, Repr

/-- The role of a key; the first that fits wins. -/
def role (options : Options) (key : String) : Role :=
  if key = options.filterKey then .filter
  else if key = options.sortKey then .sort
  else if options.fieldsStem.toList.isPrefixOf key.toList then .fields
  else if key = options.limitKey then .limit
  else if key = options.offsetKey then .offset
  else .ignored

def mode (options : Options) : Filter.Mode :=
  { strict := options.strictGroups, maxDepth := options.maxFilterDepth }

def read (options : Options) (param : Param) : Except Fault Change :=
  match options.role param.key with
  | .filter => (Filter.read options.mode param.value).map .filter
  | .sort => ((SortKey.readAll param.value).mapError .parse).map .sort
  | .fields => ((Selection.read param.value).mapError .parse).map .fields
  | .limit => (Page.readBound param.key param.value).map .limit
  | .offset => (Page.readBound param.key param.value).map .offset
  | .ignored => .ok .ignored

/-- Reads a path and its parameters, the path still escaped and the parameters decoded. -/
def readComponents (options : Options) (path : String) (params : List Param) : Except Fault Query :=
  (params.mapM options.read).map fun changes => changes.foldl Query.apply (.ofPath path)

/-- The path and the decoded parameters of a URL. -/
def components (options : Options) (url : String) : Except AddressError (String × List Param) := do
  let target ← Reference.resolve options.baseUrl.toList url.toList
  let reference ← Reference.split [] target
  return (.ofList reference.path, Form.read reference.query)

def readUrl (options : Options) (url : String) : Except Fault Query :=
  match options.components url with
  | .error error => .error (.address error)
  | .ok (path, params) => options.readComponents path params

end Options

end ResourceUrl
