import ResourceUrl.Binary64.Rounding

/-!
# The shortest decimal that reads back

Every finite number of the format is a decimal fraction (`Magnitude.exact`). `Magnitude.shortest`
takes the coarsest decimal grid that has a point which reads back as the number, and of the two
points next to the number the nearer one; `Layout` lays its digits out, positionally or with an
exponent.
-/

namespace ResourceUrl

/-- The number `coefficient * 10 ^ power`. -/
structure Decimal where
  coefficient : Nat
  power : Int
deriving DecidableEq, Repr

namespace Decimal

/-- The last point at or before `d` on the grid that has `places` digits fewer. -/
def below (d : Decimal) (places : Nat) : Decimal :=
  ⟨d.coefficient / Nat.pow 10 places, d.power + places⟩

/-- The first point after `d` on the grid that has `places` digits fewer. -/
def above (d : Decimal) (places : Nat) : Decimal :=
  ⟨d.coefficient / Nat.pow 10 places + 1, d.power + places⟩

/-- Of `below` and `above` the one nearer to `d`, the even one of two. -/
def nearest (d : Decimal) (places : Nat) : Decimal :=
  ⟨Binary64.roundHalfEven d.coefficient (Nat.pow 10 places), d.power + places⟩

/-- The digits without zeros at the end, the first digit alone for zero. -/
def digits (d : Decimal) : List Char :=
  match ((Nat.toDigits 10 d.coefficient).reverse.dropWhile (· == '0')).reverse with
  | [] => ['0']
  | significant => significant

/-- The power of ten that the first digit stands for. -/
def exponent (d : Decimal) : Int :=
  d.power + (Nat.toDigits 10 d.coefficient).length - 1

end Decimal

namespace Binary64

namespace Magnitude

/-- The magnitude as a decimal fraction, digit for digit. -/
def exact (m : Magnitude) : Decimal :=
  if 1074 ≤ m.scale then
    ⟨m.significand * Nat.pow 2 (m.scale - 1074), 0⟩
  else
    ⟨m.significand * Nat.pow 5 (1074 - m.scale), .negOfNat (1074 - m.scale)⟩

/-- A decimal that is rounded to this magnitude. -/
def isReadFrom (m : Magnitude) (d : Decimal) : Bool :=
  ofDecimal false d.coefficient d.power == .finite false m

/-- The decimal that stands for `m` on the grid with `places` digits fewer than `m.exact`. -/
def onGrid (m : Magnitude) (places : Nat) : Option Decimal :=
  let lower := m.exact.below places
  let upper := m.exact.above places
  if m.isReadFrom lower then
    some (if m.isReadFrom upper then m.exact.nearest places else lower)
  else if m.isReadFrom upper then some upper
  else none

/-- The decimal with the fewest digits that reads back as `m`, and the nearest of those. Seventeen
digits are always enough. -/
def shortest (m : Magnitude) : Decimal :=
  let length := (Nat.toDigits 10 m.exact.coefficient).length
  ((List.range 17).findSome? fun count => m.onGrid (length - (count + 1))).getD m.exact

end Magnitude

/-- How a number is laid out as text: the exponents from `least` to `most` are written
positionally, and any other exponent after a mark, with its sign and `width` digits at least. -/
structure Layout where
  least : Int
  most : Int
  width : Nat

namespace Layout

/-- A point among the digits, with zeros to reach it and at least one digit on either side. -/
def positional (digits : List Char) : Int → List Char
  | .ofNat up =>
    let whole := (digits ++ List.replicate (up + 1 - digits.length) '0').take (up + 1)
    let fraction := digits.drop (up + 1)
    whole ++ '.' :: (if fraction.isEmpty then ['0'] else fraction)
  | .negSucc down => '0' :: '.' :: (List.replicate down '0' ++ digits)

/-- The exponent with its sign and at least `width` digits. -/
def signedExponent (width : Nat) (exponent : Int) : List Char :=
  let digits := Nat.toDigits 10 exponent.natAbs
  (if exponent < 0 then '-' else '+') :: (List.replicate (width - digits.length) '0' ++ digits)

/-- One digit before the point, the others after it, then the exponent. -/
def scientific (width : Nat) (digits : List Char) (exponent : Int) : List Char :=
  let fraction := digits.drop 1
  digits.take 1 ++ (if fraction.isEmpty then [] else '.' :: fraction) ++
    'e' :: signedExponent width exponent

/-- Text of the number whose first digit stands for `10 ^ exponent`. -/
def place (layout : Layout) (digits : List Char) (exponent : Int) : List Char :=
  if layout.least ≤ exponent ∧ exponent ≤ layout.most then positional digits exponent
  else scientific layout.width digits exponent

end Layout

/-- Text of a number: the shortest decimal that reads back, laid out as `layout` says. -/
def render (layout : Layout) : Binary64 → List Char
  | .nan => ['n', 'a', 'n']
  | .infinite negative => (if negative then ['-'] else []) ++ ['i', 'n', 'f']
  | .finite negative m =>
    (if negative then ['-'] else []) ++
      (if m.significand = 0 then layout.place ['0'] 0
      else layout.place m.shortest.digits m.shortest.exponent)

end Binary64

end ResourceUrl
