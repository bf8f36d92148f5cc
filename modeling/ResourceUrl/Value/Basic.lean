import ResourceUrl.Binary64.Shortest

/-!
# Values of conditions

A condition compares a field with a `Value`: null, an exact integer, a binary64 number or a text.
`Value.render` writes a value: an integer by its digits, a number by the shortest decimal that reads
back, with a point or an exponent in it.
-/

namespace ResourceUrl

/-- What a condition compares with. -/
inductive Value where
  | null
  | int (value : Int)
  | float (value : Binary64)
  | text (value : String)
deriving DecidableEq, Repr

namespace Value

/-- Numbers from 0.0001 up to the sixteenth digit before the point are written positionally, and an
exponent has two digits at least. -/
def floatLayout : Binary64.Layout :=
  { least := -4, most := 15, width := 2 }

def integerText : Int → List Char
  | .ofNat n => Nat.toDigits 10 n
  | .negSucc n => '-' :: Nat.toDigits 10 (n + 1)

def characters : Value → List Char
  | .null => ['n', 'u', 'l', 'l']
  | .int n => integerText n
  | .float x => x.render floatLayout
  | .text s => s.toList

def render (v : Value) : String :=
  .ofList v.characters

/-- A finite number in units of the least positive binary64 number. -/
def units? : Value → Option Int
  | .int n => some (n * Nat.pow 2 1074)
  | .float (.finite negative m) => some (if negative then -(m.units : Int) else m.units)
  | _ => none

/-- Equality by value: numbers of either kind are compared as numbers, and what is not a number
equals nothing. -/
def sameAs (v w : Value) : Bool :=
  match v.units?, w.units? with
  | some a, some b => a == b
  | none, none => v == w && v != .float .nan
  | _, _ => false

/-! ## Written forms -/

example : (Value.float (.ofDecimal false 1 15)).render = "1000000000000000.0" := by decide +kernel

example : (Value.float (.ofDecimal false 1 16)).render = "1e+16" := by decide +kernel

example : (Value.float (.ofDecimal true 1 (-4))).render = "-0.0001" := by decide +kernel

example : (Value.float (.ofDecimal false 12 (-6))).render = "1.2e-05" := by decide +kernel

example : (Value.float (.ofDecimal false 3 (-324))).render = "5e-324" := by decide +kernel

example : (Value.float (.ofDecimal true 0 0)).render = "-0.0" := by decide +kernel

end Value

end ResourceUrl
