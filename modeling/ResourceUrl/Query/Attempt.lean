import ResourceUrl.Query.Options

/-!
# Attempts

An attempt keeps the outcome of reading a URL as a value: the query, or the error that a client
caused. Faults that are not parse errors are not kept.
-/

namespace ResourceUrl

/-- A query or the error that stopped it. -/
structure Attempt where
  query : Option Query := none
  error : Option ParseError := none

namespace Attempt

/-- Why an attempt gives no query. -/
inductive Failure where
  /-- It holds an error. -/
  | parse (error : ParseError)
  /-- It holds neither a query nor an error. -/
  | empty
deriving DecidableEq, Repr

def success (query : Query) : Attempt :=
  { query := some query }

def failure (error : ParseError) : Attempt :=
  { error := some error }

/-- Without an error an attempt counts as good. -/
def isOk (attempt : Attempt) : Bool :=
  attempt.error.isNone

/-- The query of an attempt; an error goes before it. -/
def unwrap (attempt : Attempt) : Except Failure Query :=
  match attempt.error, attempt.query with
  | some error, _ => .error (.parse error)
  | none, some query => .ok query
  | none, none => .error .empty

end Attempt

/-- Reads a URL and keeps a parse error as a value. -/
def Options.attempt (options : Options) (url : String) : Except Fault Attempt :=
  match options.readUrl url with
  | .ok query => .ok (.success query)
  | .error (.parse error) => .ok (.failure error)
  | .error fault => .error fault

end ResourceUrl
