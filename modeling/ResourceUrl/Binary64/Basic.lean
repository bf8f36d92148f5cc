/-!
# Binary64 numbers

A finite number of the format is a sign and a magnitude, and every magnitude is a whole multiple of
the least positive one, 2 to the power -1074. A `Magnitude` is kept as a significand times a power
of two of these units, with the one choice of the two that the format makes in its type.
-/

namespace ResourceUrl

namespace Binary64

/-- The significand has at most 53 bits, and all 53 of them unless the scale is 0. -/
def Canonical (significand scale : Nat) : Prop :=
  significand < Nat.pow 2 53 ∧ scale ≤ 2045 ∧ (scale = 0 ∨ Nat.pow 2 52 ≤ significand)

instance (significand scale : Nat) : Decidable (Canonical significand scale) :=
  inferInstanceAs (Decidable (_ ∧ _ ∧ _))

/-- The absolute value `significand * 2 ^ (scale - 1074)`. -/
structure Magnitude where
  significand : Nat
  scale : Nat
  canonical : Canonical significand scale
deriving DecidableEq, Repr

namespace Magnitude

/-- The magnitude as a multiple of the least positive one. -/
def units (m : Magnitude) : Nat :=
  m.significand * Nat.pow 2 m.scale

def zero : Magnitude :=
  ⟨0, 0, by decide⟩

end Magnitude

end Binary64

/-- A number of the format; all that is not a number is one value. -/
inductive Binary64 where
  | nan
  | infinite (negative : Bool)
  | finite (negative : Bool) (magnitude : Binary64.Magnitude)
deriving DecidableEq, Repr

namespace Binary64

/-- Neither infinite nor `nan`. -/
def isFinite : Binary64 → Bool
  | .finite _ _ => true
  | _ => false

def zero (negative : Bool) : Binary64 :=
  .finite negative .zero

end Binary64

end ResourceUrl
