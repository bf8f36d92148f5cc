import ResourceUrl.Reference.Host

/-!
# References

A reference is a URL or a part of one, split into its components. `Reference.split` finds them,
`Reference.parse` also divides parameters off the last segment of the path where the scheme has
them, and `Reference.unsplit` writes the components as one text again. Of an authority only its
brackets are checked (`checkAuthority`), not its normal form.
-/

namespace ResourceUrl

/-- The components of a reference, each empty when it is absent. -/
structure Reference where
  scheme : List Char
  authority : List Char
  path : List Char
  params : List Char
  query : List Char
  fragment : List Char
deriving DecidableEq, Repr

namespace Reference

/-! ## What is known of the schemes -/

/-- Schemes under which a reference may be relative to a base. -/
def relativeSchemes : List String :=
  ["", "ftp", "http", "gopher", "nntp", "imap", "wais", "file", "https", "shttp", "mms", "prospero",
    "rtsp", "rtspu", "sftp", "svn", "svn+ssh", "ws", "wss"]

/-- Schemes whose references have an authority. -/
def authoritySchemes : List String :=
  ["", "ftp", "http", "gopher", "nntp", "telnet", "imap", "wais", "file", "mms", "https", "shttp",
    "snews", "prospero", "rtsp", "rtspu", "rsync", "svn", "svn+ssh", "sftp", "nfs", "git",
    "git+ssh", "ws", "wss"]

/-- Schemes whose paths have parameters. -/
def paramsSchemes : List String :=
  ["", "ftp", "hdl", "prospero", "http", "imap", "https", "shttp", "rtsp", "rtspu", "sip", "sips",
    "mms", "sftp", "tel"]

def isSchemeOf (schemes : List String) (scheme : List Char) : Bool :=
  schemes.contains (.ofList scheme)

/-! ## Splitting -/

def isSchemeChar (c : Char) : Bool :=
  c.isAlphanum || c == '+' || c == '-' || c == '.'

/-- Takes a scheme and its colon off the front, the scheme in lower case; `fallback` is the scheme
of a text that has none. -/
def takeScheme (fallback text : List Char) : List Char × List Char :=
  let (scheme, rest) := Text.cut ':' text
  if text.contains ':' && scheme.all isSchemeChar && (scheme.head?.any Char.isAlpha) then
    (scheme.map Char.toLower, rest)
  else (fallback, text)

def isAuthorityChar (c : Char) : Bool :=
  c != '/' && c != '?' && c != '#'

/-- Takes two slashes and the authority after them off the front. -/
def takeAuthority : List Char → List Char × List Char
  | '/' :: '/' :: rest => (rest.takeWhile isAuthorityChar, rest.dropWhile isAuthorityChar)
  | text => ([], text)

/-- Drops control characters and spaces at the front, and tabs and line ends everywhere. -/
def clean (text : List Char) : List Char :=
  (text.dropWhile (·.toNat ≤ 0x20)).filter fun c => c != '\t' && c != '\r' && c != '\n'

/-- Splits a text into the components of a reference; the parameters stay in the path. -/
def split (fallback text : List Char) : Except AddressError Reference := do
  let (scheme, rest) := takeScheme fallback (clean text)
  let (authority, rest) := takeAuthority rest
  checkAuthority authority
  let (rest, fragment) := Text.cut '#' rest
  let (path, query) := Text.cut '?' rest
  return { scheme, authority, path, params := [], query, fragment }

/-- Moves what follows the first semicolon of the last segment from the path to the parameters. -/
def divideParams (r : Reference) : Reference :=
  if isSchemeOf paramsSchemes r.scheme then
    let (directory, last) := Text.cutLast '/' r.path
    let (segment, params) := Text.cut ';' last
    { r with path := directory ++ segment, params }
  else r

/-- Splits a text into the components of a reference, the parameters included. -/
def parse (fallback text : List Char) : Except AddressError Reference :=
  (split fallback text).map divideParams

/-! ## Writing -/

/-- A component after its mark, or nothing when it is empty. -/
def marked (mark : Char) (component : List Char) : List Char :=
  if component = [] then [] else mark :: component

/-- The authority and the path. An empty authority is written too under a scheme that has authorities,
except before a path that begins with two slashes: such a path stands as it is, and what follows the
slashes is taken for the authority when the text is split again. -/
def unsplitPath (scheme authority path : List Char) : List Char :=
  if authority ≠ [] ∨
      (scheme ≠ [] ∧ isSchemeOf authoritySchemes scheme ∧ ¬ ['/', '/'].isPrefixOf path) then
    '/' :: '/' :: (authority ++
      (if path = [] ∨ path.head? = some '/' then path else '/' :: path))
  else path

def unsplit (r : Reference) : List Char :=
  (if r.scheme = [] then [] else r.scheme ++ [':']) ++
    unsplitPath r.scheme r.authority (r.path ++ marked ';' r.params) ++
    marked '?' r.query ++ marked '#' r.fragment

end Reference

end ResourceUrl
