import ResourceUrl.Fields
import ResourceUrl.Filter.Group
import ResourceUrl.Page
import ResourceUrl.Percent
import ResourceUrl.Sort

/-!
# Queries

A query says what a resource URL asks for: a resource, possibly one of its members, a filter, an
order, columns, and a page. It is built up by changes, one for each parameter of the URL.
-/

namespace ResourceUrl

/-- What a resource URL asks for. -/
structure Query where
  resourceType : Option String := none
  identifier : Option String := none
  filter : Group := {}
  sort : List SortKey := []
  fields : Fields := .empty
  page : Page := {}

inductive Change where
  | filter (group : Group)
  | sort (keys : List SortKey)
  | fields (selection : Selection)
  | limit (bound : Nat)
  | offset (bound : Nat)
  | ignored

namespace Query

def segments (path : String) : List String :=
  ((path.toList.splitOn '/').filter (· ≠ [])).map fun segment => .ofList (Percent.decode segment)

/-- The query of a path alone: its first segment is the resource, its second the identifier. -/
def ofPath (path : String) : Query :=
  { resourceType := (segments path).head?, identifier := ((segments path).drop 1).head? }

/-- Makes a change. The last filter and the last bounds win, sort keys are appended, and selections
are merged by resource. -/
def apply (q : Query) : Change → Query
  | .filter group => { q with filter := group }
  | .sort keys => { q with sort := q.sort ++ keys }
  | .fields selection => { q with fields := q.fields.insert selection }
  | .limit bound => { q with page := { q.page with limit := some bound } }
  | .offset bound => { q with page := { q.page with offset := some bound } }
  | .ignored => q

/-- Equality with values compared as values and selections in any order. -/
def sameAs (q r : Query) : Bool :=
  q.resourceType == r.resourceType && q.identifier == r.identifier && q.filter.sameAs r.filter &&
    q.sort == r.sort && q.fields.sameAs r.fields && q.page == r.page

end Query

end ResourceUrl
