import ResourceUrl.Binary64.Basic

/-!
# Rounding to binary64

`ofUnits` rounds a fraction of units to the nearest number of the format, a tie going to the even
significand, and overflows to infinity; `ofDecimal` reads a decimal number that way. The exponent of
a decimal may be of any size: one so large or so small that the answer is settled is never raised
to a power.
-/

namespace ResourceUrl.Binary64

/-- The whole number nearest to `num / den`, the even one of two. -/
def roundHalfEven (num den : Nat) : Nat :=
  let quotient := num / den
  let twice := 2 * (num % den)
  if twice < den ∨ (twice = den ∧ quotient % 2 = 0) then quotient else quotient + 1

/-- Puts a rounded significand into the format: a carry out of 53 bits moves to the next scale, and
what lies beyond the last scale is infinite. -/
def pack (negative : Bool) (significand scale : Nat) : Binary64 :=
  if h : Canonical significand scale then
    .finite negative ⟨significand, scale, h⟩
  else if h : Canonical (significand / 2) (scale + 1) then
    .finite negative ⟨significand / 2, scale + 1, h⟩
  else
    .infinite negative

/-- The number of the format nearest to `num / den` units, with the given sign. The scale leaves 53
bits of the quotient, or is 0 where the quotient has fewer. -/
def ofUnits (negative : Bool) (num den : Nat) : Binary64 :=
  let scale := (num / den).log2 - 52
  pack negative (roundHalfEven num (den * Nat.pow 2 scale)) scale

/-- The number of the format nearest to `coefficient * 10 ^ power`, with the given sign. As 10 is
more than 8, three bits for each step of the exponent decide the far cases. -/
def ofDecimal (negative : Bool) (coefficient : Nat) (power : Int) : Binary64 :=
  if coefficient = 0 then
    zero negative
  else
    match power with
    | .ofNat up =>
      if 1024 ≤ 3 * up then .infinite negative
      else ofUnits negative (coefficient * Nat.pow 10 up * Nat.pow 2 1074) 1
    | .negSucc down =>
      if coefficient.log2 + 1076 ≤ 3 * (down + 1) then zero negative
      else ofUnits negative (coefficient * Nat.pow 2 1074) (Nat.pow 10 (down + 1))

end ResourceUrl.Binary64
