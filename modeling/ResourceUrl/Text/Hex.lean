/-!
# Hexadecimal digits

Digits are written in upper case in escapes and in lower case in quoted text, and read in either.
-/

namespace ResourceUrl.Text.Hex

def upper (n : Nat) : Char :=
  if n < 10 then Char.ofNat (0x30 + n) else Char.ofNat (0x37 + n)

def lower (n : Nat) : Char :=
  if n < 10 then Char.ofNat (0x30 + n) else Char.ofNat (0x57 + n)

/-- The last `width` digits of a number, in lower case, with zeros in front where it has fewer. -/
def lowerDigits : Nat → Nat → List Char
  | 0, _ => []
  | width + 1, n => lowerDigits width (n / 16) ++ [lower (n % 16)]

/-- The value of a digit of either case. -/
def value? (c : Char) : Option Nat :=
  if '0' ≤ c ∧ c ≤ '9' then some (c.toNat - 0x30)
  else if 'A' ≤ c ∧ c ≤ 'F' then some (c.toNat - 0x37)
  else if 'a' ≤ c ∧ c ≤ 'f' then some (c.toNat - 0x57)
  else none

def isDigit (c : Char) : Bool :=
  (value? c).isSome

/-! ## Lemmas -/

theorem value?_upper {n : Nat} (h : n < 16) : value? (upper n) = some n := by
  have all : ∀ k : Fin 16, value? (upper k) = some k.val := by decide
  exact all ⟨n, h⟩

theorem isAlphanum_upper {n : Nat} (h : n < 16) : (upper n).isAlphanum = true := by
  have all : ∀ k : Fin 16, (upper k).isAlphanum = true := by decide
  exact all ⟨n, h⟩

end ResourceUrl.Text.Hex
