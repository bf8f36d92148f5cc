import ResourceUrl.Filter.Machine

/-!
# Cursors

A cursor stands between the tokens of a filter. Single tokens and whole groups are taken from it in
any order; a group that fails leaves it behind the token at fault.
-/

namespace ResourceUrl.Filter

/-- How many tokens were taken, and those that are left. -/
structure Cursor where
  index : Nat
  rest : List Token
deriving DecidableEq, Repr

inductive Request where
  /-- The next token. -/
  | next
  /-- A group at the given depth. -/
  | group (depth : Int) (mode : Mode)
  /-- Nothing. -/
  | peek

inductive Answer where
  | token (token : Token)
  | group (outcome : Except Fault Group)
  | nothing
  /-- There is no next token. -/
  | exhausted

namespace Cursor

def start (tokens : List Token) : Cursor :=
  { index := 0, rest := tokens }

def remaining (cursor : Cursor) : Nat :=
  cursor.rest.length

/-- The cursor before `rest`, which has to be an end of what is left. -/
def moveTo (cursor : Cursor) (rest : List Token) : Cursor :=
  { index := cursor.index + (cursor.rest.length - rest.length), rest }

def step (cursor : Cursor) : Request → Answer × Cursor
  | .next =>
    match cursor.rest with
    | [] => (.exhausted, cursor)
    | token :: rest => (.token token, cursor.moveTo rest)
  | .group depth mode =>
    let (outcome, rest) := readGroup mode depth cursor.rest
    (.group outcome, cursor.moveTo rest)
  | .peek => (.nothing, cursor)

/-- Serves requests in order, with the cursor after each. -/
def serve (cursor : Cursor) : List Request → List (Answer × Cursor)
  | [] => []
  | request :: requests =>
    let served := cursor.step request
    served :: served.2.serve requests

end Cursor

end ResourceUrl.Filter
