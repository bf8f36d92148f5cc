import ResourceUrl.Filter.Printer
import ResourceUrl.Form
import ResourceUrl.Query.Basic

/-!
# Writing queries

`Query.params` lists the parameters of a query, and `Query.url` writes them after its path. Marks
that have a meaning in filters are not escaped. `Query.write` is the whole of it, and refuses a query
with an integer beyond the digit limit.
-/

namespace ResourceUrl

/-- The names of the parameters that are written. -/
structure Keys where
  filter : String := "filter"
  sort : String := "sort"
  fields : String := "fields"
  limit : String := "limit"
  offset : String := "offset"
deriving DecidableEq, Repr

namespace Query

/-- The characters that are not escaped in a query string. -/
def safeChars : List Char :=
  ['[', ']', '(', ')', ':', ';', '|', ',', '.', '\\', '?']

/-- The parameter of a bound, if it is set. -/
def boundParam (key : String) (bound : Option Nat) : List Param :=
  bound.toList.map fun n => { key, value := .ofList (Nat.toDigits 10 n) }

/-- The parameters of a query. No filter and no order are written as nothing. -/
def params (q : Query) (keys : Keys) : List Param :=
  (if q.filter.isEmpty ∧ q.filter.logical = .and then []
    else [{ key := keys.filter, value := q.filter.render }]) ++
  (if q.sort = [] then [] else [{ key := keys.sort, value := SortKey.renderAll q.sort }]) ++
  (q.fields.entries.map fun selection => { key := keys.fields, value := selection.render }) ++
  boundParam keys.limit q.page.limit ++ boundParam keys.offset q.page.offset

def queryString (q : Query) (keys : Keys) : List Char :=
  Form.write safeChars (q.params keys)

/-- The path of a query, relative to the base. -/
def path (q : Query) : List Char :=
  ['/'].intercalate
    ((q.resourceType.toList ++ q.identifier.toList).map fun s => Percent.encode [] s.toList)

/-- The URL of a query, relative to the base. -/
def url (q : Query) (keys : Keys) : List Char :=
  q.path ++ (if q.queryString keys = [] then [] else '?' :: q.queryString keys)

def isWritableBound (bound : Option Nat) : Bool :=
  bound.all fun n => n < Nat.pow 10 Fault.digitLimit

/-- Whether every integer of a query keeps to the digit limit. -/
def isWritable (q : Query) : Bool :=
  q.filter.isWritable && isWritableBound q.page.limit && isWritableBound q.page.offset

/-- A query as text: its query string and its URL. -/
structure Written where
  queryString : String
  url : String
deriving DecidableEq, Repr

/-- Writes a query, unless an integer in it is too long. -/
def write (q : Query) (keys : Keys) : Except Fault Written :=
  if q.isWritable then
    .ok { queryString := .ofList (q.queryString keys), url := .ofList (q.url keys) }
  else .error .tooLongToWrite

end Query

end ResourceUrl
