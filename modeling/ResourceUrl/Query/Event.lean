import ResourceUrl.Query.Options

/-!
# Events

What is worth telling while a URL is read: how many tokens a filter has, what was ignored, and what
was read in the end. Events up to the first failure are told.
-/

namespace ResourceUrl

/-- Something that happened while a URL was read. -/
inductive Event where
  /-- A filter was divided into tokens. -/
  | tokenized (count : Nat)
  /-- Tokens after a stray closing parenthesis were ignored. -/
  | tokensIgnored (count : Nat)
  /-- A parameter of no known name was ignored. -/
  | paramIgnored (key : String)
  /-- The query was read. -/
  | queryRead (resourceType identifier : Option String) (sortKeys : Nat)
deriving DecidableEq, Repr

/-- The part of the library that tells an event. -/
inductive Event.Teller where
  | tokens | groups | queries
deriving DecidableEq, Repr

namespace Event

def teller : Event → Teller
  | .tokenized _ => .tokens
  | .tokensIgnored _ => .groups
  | .paramIgnored _ => .queries
  | .queryRead _ _ _ => .queries

def message : Event → String
  | .tokenized count => "Tokenized filter into " ++ toString count ++ " tokens"
  | .tokensIgnored count => "Ignoring " ++ toString count ++ " tokens after unmatched ')'"
  | .paramIgnored key => "Ignoring unknown query parameter " ++ Text.Quoted.quote key
  | .queryRead resourceType identifier sortKeys =>
    "Parsed query for " ++ resourceType.getD "None" ++ " (identifier=" ++ identifier.getD "None" ++
      ", " ++ toString sortKeys ++ " sort keys)"

def ofFilter (mode : Filter.Mode) (source : String) : List Event :=
  match tokenize source with
  | .error _ => []
  | .ok tokens =>
    .tokenized tokens.length ::
      match Filter.readGroup mode 0 tokens with
      | (.ok _, rest) => if rest = [] then [] else [.tokensIgnored rest.length]
      | (.error _, _) => []

end Event

namespace Options

def paramEvents (options : Options) (param : Param) : List Event :=
  match options.role param.key with
  | .filter => Event.ofFilter options.mode param.value
  | .ignored => [.paramIgnored param.key]
  | _ => []

/-- The events of reading parameters, up to the first that fails. -/
def paramsEvents (options : Options) : List Param → List Event
  | [] => []
  | param :: params =>
    options.paramEvents param ++
      match options.read param with
      | .ok _ => options.paramsEvents params
      | .error _ => []

def urlEvents (options : Options) (url : String) : List Event :=
  match options.components url with
  | .error _ => []
  | .ok (path, params) =>
    options.paramsEvents params ++
      match options.readComponents path params with
      | .ok q => [.queryRead q.resourceType q.identifier q.sort.length]
      | .error _ => []

end Options

end ResourceUrl
