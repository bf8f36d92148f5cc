import ResourceUrl.Query.Options
import ResourceUrl.Query.Printer

/-!
# Round trips

A URL is read, the query is written, and what was written is read again.
-/

namespace ResourceUrl

/-- A query, its text, and what reading the text gives: a query, and whether it is the same. -/
structure RoundTrip where
  query : Query
  written : Query.Written
  reread : Except Fault (Query × Bool)

/-- Reads a URL, writes the query under the names of `keys`, and reads that URL again. -/
def Options.roundTrip (options : Options) (keys : Keys) (url : String) : Except Fault RoundTrip := do
  let query ← options.readUrl url
  let written ← query.write keys
  return { query, written, reread := (options.readUrl written.url).map fun r => (r, r.sameAs query) }

end ResourceUrl
