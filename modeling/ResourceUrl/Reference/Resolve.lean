import ResourceUrl.Reference.Basic

/-!
# Relative references

`Reference.resolve` finds the target of a reference that is given relative to a base.
-/

namespace ResourceUrl.Reference

/-- Takes one segment on to a path that is held in reverse: two dots go up, one dot stays. -/
def walk (path : List (List Char)) (segment : List Char) : List (List Char) :=
  if segment = ['.', '.'] then path.drop 1
  else if segment = ['.'] then path
  else segment :: path

/-- A path without dot segments; one that ends in dots denotes a directory. -/
def removeDots (segments : List (List Char)) : List (List Char) :=
  let path := (segments.foldl walk []).reverse
  let last := segments.getLastD []
  if last = ['.'] ∨ last = ['.', '.'] then path ++ [[]] else path

/-- Drops the empty segments that are neither first nor last. -/
def dropInnerEmpty : List (List Char) → List (List Char)
  | [] => []
  | first :: rest => first :: (rest.dropLast.filter (· ≠ []) ++ rest.drop (rest.length - 1))

/-- The segments of a base path up to its directory. -/
def directory (path : List Char) : List (List Char) :=
  let segments := path.splitOn '/'
  if segments.getLastD [] = [] then segments else segments.dropLast

/-- The path that `path` denotes relative to `base`. -/
def resolvePath (base path : List Char) : List Char :=
  let segments := path.splitOn '/'
  let joined :=
    if path.head? = some '/' then segments else dropInnerEmpty (directory base ++ segments)
  match ['/'].intercalate (removeDots joined) with
  | [] => ['/']
  | resolved => resolved

/-- The reference that `r` denotes relative to `base`, when both are of one scheme that allows it.
A reference without a path keeps the path of the base, and its query too unless it has its own. -/
def relativeTo (base r : Reference) : Reference :=
  let hasAuthority := isSchemeOf authoritySchemes r.scheme
  if hasAuthority && r.authority ≠ [] then r
  else
    let authority := if hasAuthority then base.authority else r.authority
    if r.path = [] ∧ r.params = [] then
      { r with
        authority
        path := base.path
        params := base.params
        query := if r.query = [] then base.query else r.query }
    else { r with authority, path := resolvePath base.path r.path }

/-- The text of the reference that `text` denotes relative to `base`. A text of another scheme than
the base, or of one that knows no relative references, stands for itself. -/
def resolve (base text : List Char) : Except AddressError (List Char) :=
  if base = [] then .ok text
  else if text = [] then .ok base
  else do
    let b ← parse [] base
    let r ← parse b.scheme text
    if r.scheme = b.scheme && isSchemeOf relativeSchemes r.scheme then
      return unsplit (relativeTo b r)
    else return text

/-! ## Resolved paths -/

example : resolvePath ['/', 'a', '/', 'b'] ['.', '.', '/', 'c'] = ['/', 'c'] := by decide +kernel

example : resolvePath ['/', 'a', '/', 'b'] ['c', '/', '.'] = ['/', 'a', '/', 'c', '/'] := by decide +kernel

example : resolvePath [] ['c', '/', '/', 'd'] = ['/', 'c', '/', 'd'] := by decide +kernel

end ResourceUrl.Reference
