import ResourceUrl.Error
import ResourceUrl.Numeral
import ResourceUrl.Value.Basic

/-!
# Reading values

`Value.read` decides whether a raw text is null, an integer, a binary64 number or a text. Integers are
read and written with no more digits than `Fault.digitLimit`.
-/

namespace ResourceUrl.Value

/-- The integer of a numeral, if its digits keep to the limit; zeros at the front count. -/
def integerOf (n : Numeral) : Except Fault Int :=
  if n.whole.length ≤ Fault.digitLimit then .ok n.toInt
  else .error (.tooManyDigits n.whole.length)

/-- The value of a raw text. A text that is not a finite number stands for itself, blanks included;
a number without point and exponent is an integer. -/
def read (raw : String) : Except Fault Value :=
  if raw = "null" then .ok .null
  else
    match Numeral.ofText? raw with
    | none => .ok (.text raw)
    | some n =>
      if n.isInteger then (integerOf n).map .int
      else .ok (.float n.toBinary64)

/-- The integer that a text stands for, if it stands for one. -/
def readInteger (text : String) : Except Fault (Option Int) :=
  match Numeral.read? text.toList with
  | none => .ok none
  | some n => if n.isInteger then (integerOf n).map some else .ok none

/-- Reads the text of a binary64 number: infinite, not a number, or a numeral. -/
def float? (text : String) : Option Value :=
  match text with
  | "inf" => some (.float (.infinite false))
  | "-inf" => some (.float (.infinite true))
  | "nan" => some (.float .nan)
  | _ => (Numeral.read? text.toList).map fun n => .float n.toBinary64

/-- Whether the text of a value keeps to the digit limit. -/
def isWritable : Value → Bool
  | .int n => n.natAbs < Nat.pow 10 Fault.digitLimit
  | _ => true

end ResourceUrl.Value
