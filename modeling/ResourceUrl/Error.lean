import ResourceUrl.Note
import ResourceUrl.Reference.Host

/-!
# Errors

A `ParseError` says why a query parameter is refused; each has a stable code, a message, and the
details that a client may want. A `Fault` is anything that stops reading or writing a query: a parse
error, a limit on the size of numbers, or a reference that is not one.
-/

namespace ResourceUrl

/-- How the parentheses of a filter fail to pair up. -/
inductive Imbalance where
  /-- A closing parenthesis that nothing opened, at a position of the source. -/
  | unexpectedClose (position : Nat)
  /-- A group that the end of the source leaves open. -/
  | missingClose
  /-- A report in the caller's own words. -/
  | reported (notes : List Note)
deriving DecidableEq, Repr

/-- Why a query parameter is refused. -/
inductive ParseError where
  /-- A refusal in the caller's own words. -/
  | general (notes : List Note)
  /-- A parameter against its grammar, in the caller's own words. -/
  | grammar (notes : List Note)
  /-- An opening parenthesis right after a condition. -/
  | missingDelimiter (position : Option Int)
  /-- A condition that is not `field[operator]value`. -/
  | invalidCondition (token : String)
  /-- Parentheses that do not pair up. -/
  | unbalanced (cause : Imbalance)
  /-- Groups nested beyond the limit. -/
  | tooDeep (maxDepth : Int)
  /-- A sort key without a field. -/
  | missingSortField
  /-- A sort direction that is not one. -/
  | invalidDirection (direction : String)
  /-- A field selection without resource or columns. -/
  | invalidFields (value : String)
  /-- A bound that is not a number, or is negative. -/
  | invalidBound (key value : String)
deriving DecidableEq, Repr

inductive ParseError.Family where
  /-- Nothing more is known than that the query is refused. -/
  | general
  /-- The text of a parameter is against its grammar. -/
  | grammar
  /-- A bound is of the wrong kind. -/
  | kind
deriving DecidableEq, Repr

inductive Detail where
  | text (value : String)
  | int (value : Int)
  | absent
deriving DecidableEq, Repr

def Imbalance.message : Imbalance → String
  | .unexpectedClose position =>
    "Invalid syntax: unexpected \")\" at position " ++ toString position
  | .missingClose => "Invalid syntax: missing closing \")\""
  | .reported notes => Note.join notes

namespace ParseError

/-- The stable name of the error. -/
def code : ParseError → String
  | .general _ => "QUERY_PARSE_ERROR"
  | .grammar _ => "SYNTAX_ERROR"
  | .missingDelimiter _ => "MISSING_GROUP_DELIMITER"
  | .invalidCondition _ => "INVALID_FILTER_CONDITION"
  | .unbalanced _ => "UNBALANCED_GROUP"
  | .tooDeep _ => "FILTER_TOO_DEEP"
  | .missingSortField => "MISSING_ORDER_FIELD"
  | .invalidDirection _ => "INVALID_SORT_DIRECTION"
  | .invalidFields _ => "INVALID_FIELDS_SELECTION"
  | .invalidBound _ _ => "INVALID_PAGINATION_VALUE"

def message : ParseError → String
  | .general notes => Note.join notes
  | .grammar notes => Note.join notes
  | .missingDelimiter _ => "Invalid syntax: missing delimiter before \"(\""
  | .invalidCondition token => "Invalid filter condition: \"" ++ token ++ "\""
  | .unbalanced cause => cause.message
  | .tooDeep maxDepth =>
    "Invalid syntax: groups nested deeper than " ++ toString maxDepth ++ " levels"
  | .missingSortField => "Missing order field"
  | .invalidDirection direction =>
    "Invalid sorting direction: '" ++ direction ++ "'. Expected 'asc' or 'desc'."
  | .invalidFields _ => "Invalid fields selection. Try 'resource:field1,field2[,fieldN]'"
  | .invalidBound key _ =>
    "Invalid pagination field '" ++ key ++ "'. The value must be an integer."

/-- What a report adds to code and message. -/
def details : ParseError → List (String × Detail)
  | .missingDelimiter position => [("position", position.elim .absent .int)]
  | .invalidCondition token => [("token", .text token)]
  | .tooDeep maxDepth => [("max_depth", .int maxDepth)]
  | .invalidDirection direction => [("direction", .text direction)]
  | .invalidFields value => [("value", .text value)]
  | .invalidBound key value => [("field", .text key), ("value", .text value)]
  | _ => []

/-- Every error but the general one and that of a bound is one of grammar. -/
def family : ParseError → Family
  | .general _ => .general
  | .invalidBound _ _ => .kind
  | _ => .grammar

end ParseError

/-- What stops reading or writing a query. -/
inductive Fault where
  /-- A parameter is refused. -/
  | parse (error : ParseError)
  /-- An integer is written with more digits than are read. -/
  | tooManyDigits (count : Nat)
  /-- An integer has more digits than are written. -/
  | tooLongToWrite
  /-- The exponent of a bound is outside the range of exact arithmetic. -/
  | exponentOutOfRange
  /-- A reference cannot be split. -/
  | address (error : AddressError)
deriving DecidableEq, Repr

namespace Fault

/-- The most digits that an integer is read or written with. -/
def digitLimit : Nat :=
  4300

/-- The wording of the digit limit, with what there is to say about the value. -/
def digitLimitMessage (value : String) : String :=
  "Exceeds the limit (" ++ toString digitLimit ++ " digits) for integer string conversion" ++ value ++
    "; use sys.set_int_max_str_digits() to increase the limit"

def message : Fault → String
  | .parse error => error.message
  | .tooManyDigits count => digitLimitMessage (": value has " ++ toString count ++ " digits")
  | .tooLongToWrite => digitLimitMessage ""
  | .exponentOutOfRange => "[<class 'decimal.InvalidOperation'>]"
  | .address error => error.message

end Fault

end ResourceUrl
