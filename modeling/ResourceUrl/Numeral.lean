import ResourceUrl.Binary64.Rounding
import ResourceUrl.Text.Blank

/-!
# Decimal numerals

A numeral is an optional sign, ASCII digits with an optional point (at least one digit on either
side of it), and an optional exponent. `Numeral.read?` accepts exactly these texts, and the numeral
keeps every digit, so that its whole part (`Numeral.truncate`) and its nearest binary64 number
(`Numeral.toBinary64`) are both taken from the exact value. `Numeral.ofText?` allows blanks around
a numeral and refuses one whose nearest number is infinite.
-/

namespace ResourceUrl

/-- The parts of a numeral as written. -/
structure Numeral where
  negative : Bool
  whole : List Char
  point : Bool
  fraction : List Char
  exponent : Option Int
deriving DecidableEq, Repr

namespace Numeral

/-- Takes a sign off the front: whether it is a minus, and the rest. -/
def takeSign : List Char → Bool × List Char
  | '+' :: rest => (false, rest)
  | '-' :: rest => (true, rest)
  | text => (false, text)

/-- Reads a non-empty run of digits that is the whole text. -/
def digits? (text : List Char) : Option Nat :=
  if text ≠ [] ∧ text.all Char.isDigit then some (Nat.ofDigitChars 10 text 0) else none

/-- Reads what follows the digits: nothing, or a mark and a signed run of digits. -/
def exponent? : List Char → Option (Option Int)
  | [] => some none
  | mark :: rest =>
    if mark = 'e' ∨ mark = 'E' then
      let (negative, magnitude) := takeSign rest
      (digits? magnitude).map fun n => some (if negative then -(n : Int) else n)
    else none

/-- Takes a point and the digits after it off the front: whether there is a point, those digits,
and the rest. -/
def takeFraction : List Char → Bool × List Char × List Char
  | '.' :: rest => (true, rest.takeWhile Char.isDigit, rest.dropWhile Char.isDigit)
  | text => (false, [], text)

/-- Reads a numeral that is the whole text. -/
def read? (text : List Char) : Option Numeral :=
  let (negative, unsigned) := takeSign text
  let whole := unsigned.takeWhile Char.isDigit
  let (point, fraction, rest) := takeFraction (unsigned.dropWhile Char.isDigit)
  if whole = [] ∧ fraction = [] then none
  else (exponent? rest).map fun exponent => { negative, whole, point, fraction, exponent }

/-- A numeral without point and exponent. -/
def isInteger (n : Numeral) : Bool :=
  !n.point && n.exponent.isNone

/-- All digits before the exponent, as one number. -/
def coefficient (n : Numeral) : Nat :=
  Nat.ofDigitChars 10 (n.whole ++ n.fraction) 0

/-- The power of ten that the last digit stands for; the absolute value of the numeral is
`coefficient * 10 ^ power`. -/
def power (n : Numeral) : Int :=
  n.exponent.getD 0 - n.fraction.length

def toBinary64 (n : Numeral) : Binary64 :=
  .ofDecimal n.negative n.coefficient n.power

/-- The absolute value without its fractional part. A negative exponent that takes more places than
the coefficient has leaves nothing; as 10 is more than 8, three bits go with each place. -/
def truncate (n : Numeral) : Nat :=
  if n.coefficient = 0 then 0
  else
    match n.power with
    | .ofNat up => n.coefficient * Nat.pow 10 up
    | .negSucc down =>
      if n.coefficient.log2 + 1 ≤ 3 * (down + 1) then 0
      else n.coefficient / Nat.pow 10 (down + 1)

/-- The signed value of a numeral without point and exponent. -/
def toInt (n : Numeral) : Int :=
  if n.negative then -(n.coefficient : Int) else n.coefficient

/-- Reads a numeral with blanks around it, if its nearest binary64 number is finite. -/
def ofText? (text : String) : Option Numeral :=
  (read? (Text.trim text.toList)).filter (·.toBinary64.isFinite)

end Numeral

/-- A text that is a finite number, blanks around it allowed. -/
def isNumeric (text : String) : Bool :=
  (Numeral.ofText? text).isSome

end ResourceUrl
