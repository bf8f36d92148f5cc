import ResourceUrl.Error
import ResourceUrl.Form
import ResourceUrl.Numeral

/-!
# Pages

A page of a result is bounded by a limit and an offset. A bound is written as any number; its
fractional part is dropped, exactly and without rounding, and what is left must not be negative.
-/

namespace ResourceUrl

structure Page where
  limit : Option Nat := none
  offset : Option Nat := none
deriving DecidableEq, Repr

namespace Page

/-- The least power of ten that the last digit of a bound may stand for. -/
def leastPower : Int :=
  -1999999999999999997

/-- The greatest power of ten that the last digit of a zero may stand for. -/
def greatestZeroPower : Int :=
  999999999999999999

/-- Whether exact arithmetic takes a numeral with this exponent. -/
def isInRange (n : Numeral) : Bool :=
  leastPower ≤ n.power && (n.coefficient ≠ 0 || n.power ≤ greatestZeroPower)

/-- Reads a bound, which is given under `key`. -/
def readBound (key raw : String) : Except Fault Nat :=
  match Numeral.ofText? raw with
  | none => .error (.parse (.invalidBound key raw))
  | some n =>
    if !isInRange n then .error .exponentOutOfRange
    else if n.negative ∧ n.truncate ≠ 0 then .error (.parse (.invalidBound key raw))
    else .ok n.truncate

/-- The value of the last parameter of a key. -/
def lastValue? (params : List Param) (key : String) : Option String :=
  (params.reverse.find? (·.key == key)).map (·.value)

def readParam (params : List Param) (key : String) : Except Fault (Option Nat) :=
  match lastValue? params key with
  | none => .ok none
  | some raw => (readBound key raw).map some

def ofParams (limitKey offsetKey : String) (params : List Param) : Except Fault Page := do
  let limit ← readParam params limitKey
  let offset ← readParam params offsetKey
  return { limit, offset }

end Page

end ResourceUrl
