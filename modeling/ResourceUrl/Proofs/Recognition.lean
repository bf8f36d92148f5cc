import Mathlib.Algebra.Order.Field.Rat
import Mathlib.Tactic.Positivity
import ResourceUrl.Proofs.Values

/-!
# Which texts are numbers

`IsNumberText text value` is the grammar of numbers with the rational number that each denotes: a
sign, digits with an optional point, and an optional exponent, of any length and size; `IsDecimalText`
is the same grammar with the parts in place of the number.  Reading a numeral recognizes exactly this
grammar and keeps the number (`isNumberText_of_read?`, `read?_of_isNumberText`), so that a text
denotes one number at most.  As rounding overflows at one bound,

    isNumeric raw  ↔  raw without the blanks around it denotes some v, and |v| < 2 ^ 1024 - 2 ^ 970
                                                                                    (isNumeric_iff)
-/

namespace ResourceUrl

namespace Numeral

/-! ## The grammar of numbers -/

/-- The number `n` with the sign of a text. -/
def signed (sign : List Char) (n : Nat) : Int :=
  if sign = ['-'] then -(n : Int) else n

/-- Digits with at most one point and at least one digit: their number without the point, and how
many of them stand behind it. -/
inductive IsMantissa : List Char → Nat → Nat → Prop
  | whole {ds : List Char} : AreDigits ds → ds ≠ [] →
      IsMantissa ds (Nat.ofDigitChars 10 ds 0) 0
  | point {ds fs : List Char} : AreDigits ds → AreDigits fs → ¬ (ds = [] ∧ fs = []) →
      IsMantissa (ds ++ '.' :: fs) (Nat.ofDigitChars 10 (ds ++ fs) 0) fs.length

/-- Nothing, or a mark, a sign and digits: the exponent. -/
inductive IsExponent : List Char → Int → Prop
  | none : IsExponent [] 0
  | marked {mark : Char} {sign ds : List Char} : mark = 'e' ∨ mark = 'E' → sign ∈ signs →
      AreDigits ds → ds ≠ [] →
      IsExponent (mark :: (sign ++ ds)) (signed sign (Nat.ofDigitChars 10 ds 0))

/-- The text is that of a number with this sign, these digits without the point, and this power of ten
for the last of them. -/
inductive IsDecimalText : List Char → List Char → Nat → Int → Prop
  | mk {sign mantissa exponent : List Char} {c places : Nat} {e : Int} : sign ∈ signs →
      IsMantissa mantissa c places → IsExponent exponent e →
      IsDecimalText (sign ++ (mantissa ++ exponent)) sign c (e - places)

/-- The text is that of a number, and denotes the value. -/
inductive IsNumberText : List Char → ℚ → Prop
  | mk {sign mantissa exponent : List Char} {c places : Nat} {e : Int} : sign ∈ signs →
      IsMantissa mantissa c places → IsExponent exponent e →
      IsNumberText (sign ++ (mantissa ++ exponent)) (signed sign c * 10 ^ (e - places))

def toRat (n : Numeral) : ℚ :=
  n.toInt * 10 ^ n.power

/-! ## Numerals are what is recognized -/

theorem areDigits_of_digits? (text : List Char) (n : Nat) (h : digits? text = some n) :
    AreDigits text ∧ text ≠ [] ∧ Nat.ofDigitChars 10 text 0 = n := by
  unfold digits? at h
  split at h
  · next hd => exact ⟨List.all_eq_true.mp hd.2, hd.1, Option.some.inj h⟩
  · cases h

theorem isExponent_of_exponent? (text : List Char) (e : Option Int) (h : exponent? text = some e) :
    IsExponent text (e.getD 0) := by
  cases text with
  | nil =>
    obtain rfl : Option.none = e := Option.some.inj h
    exact .none
  | cons mark rest =>
    have hmark := head_exponent? _ e h mark rfl
    rw [exponent?, if_pos hmark] at h
    obtain ⟨sign, hs, hrest, hneg⟩ := exists_sign rest
    cases hn : digits? (takeSign rest).2 with
    | none => simp [hn] at h
    | some n =>
      obtain ⟨hds, hne, rfl⟩ := areDigits_of_digits? _ n hn
      have hmarked := IsExponent.marked hmark hs hds hne
      rw [← hrest] at hmarked
      obtain rfl : some (signed sign (Nat.ofDigitChars 10 (takeSign rest).2 0)) = e := by
        simpa [hn, hneg, signed] using h
      exact hmarked

theorem exponent?_of_isExponent (text : List Char) (e : Int) (h : IsExponent text e) :
    ∃ o : Option Int, exponent? text = some o ∧ o.getD 0 = e := by
  cases h with
  | none => exact ⟨Option.none, rfl, rfl⟩
  | @marked mark sign ds hmark hs hd hne =>
    have hsign : takeSign (sign ++ ds) = (sign == ['-'], ds) := by
      apply takeSign_append sign ds hs
      intro c hc
      exact ne_sign_of_isDigit c (hd c (List.mem_of_mem_head? hc))
    refine ⟨some (signed sign (Nat.ofDigitChars 10 ds 0)), ?_, rfl⟩
    rw [exponent?, if_pos hmark, hsign]
    simp [digits?_of_areDigits ds hd hne, signed]

theorem signed_eq_toInt (sign : List Char) (n : Numeral) (h : n.negative = (sign == ['-'])) :
    signed sign n.coefficient = n.toInt := by
  unfold signed toInt
  rw [h]
  simp

/-- Digits and what is taken off the text behind them are a mantissa, unless there are no digits. -/
theorem exists_mantissa (whole tail : List Char) (hw : AreDigits whole)
    (hne : ¬ (whole = [] ∧ (takeFraction tail).2.1 = [])) :
    ∃ rest, tail = rest ++ (takeFraction tail).2.2 ∧
      IsMantissa (whole ++ rest) (Nat.ofDigitChars 10 (whole ++ (takeFraction tail).2.1) 0)
        (takeFraction tail).2.1.length := by
  revert hne
  unfold takeFraction
  split
  · next tail =>
    intro hne
    refine ⟨'.' :: tail.takeWhile Char.isDigit, ?_, .point hw ?_ hne⟩
    · rw [List.cons_append, List.takeWhile_append_dropWhile]
    · exact List.all_eq_true.mp List.all_takeWhile
  · intro hne
    refine ⟨[], rfl, ?_⟩
    rw [List.append_nil]
    exact .whole hw fun hnil => hne ⟨hnil, rfl⟩

theorem isNumberText_iff (text : List Char) (v : ℚ) :
    IsNumberText text v ↔
      ∃ sign c p, IsDecimalText text sign c p ∧ v = signed sign c * 10 ^ p := by
  constructor
  · rintro ⟨hs, hm, he⟩
    exact ⟨_, _, _, .mk hs hm he, rfl⟩
  · rintro ⟨sign, c, p, ⟨hs, hm, he⟩, rfl⟩
    exact .mk hs hm he

theorem isDecimalText_of_read? (text : List Char) (n : Numeral) (h : read? text = some n) :
    ∃ sign, IsDecimalText text sign n.coefficient n.power ∧ n.negative = (sign == ['-']) := by
  obtain ⟨sign, hs, htext, hneg⟩ := exists_sign text
  unfold read? at h
  simp only at h
  split at h
  · cases h
  · next hdigits =>
    obtain ⟨o, ho, rfl⟩ := Option.map_eq_some_iff.mp h
    have hexponent := isExponent_of_exponent? _ o ho
    have hsplit := List.takeWhile_append_dropWhile (p := Char.isDigit) (l := (takeSign text).2)
    have hwhole : AreDigits ((takeSign text).2.takeWhile Char.isDigit) :=
      List.all_eq_true.mp List.all_takeWhile
    obtain ⟨rest, htail, hm⟩ := exists_mantissa _ _ hwhole hdigits
    have hdecimal := IsDecimalText.mk hs hm hexponent
    rw [List.append_assoc, ← htail, hsplit, ← htext] at hdecimal
    exact ⟨sign, hdecimal, hneg⟩

theorem read?_of_isDecimalText (text sign : List Char) (c : Nat) (p : Int)
    (h : IsDecimalText text sign c p) :
    ∃ n, read? text = some n ∧ n.negative = (sign == ['-']) ∧ n.coefficient = c ∧ n.power = p := by
  obtain @⟨sign, mantissa, exponent, c, places, e, hs, hm, he⟩ := h
  obtain ⟨o, ho, rfl⟩ := exponent?_of_isExponent exponent e he
  cases hm with
  | whole hd hne =>
    refine ⟨_, read?_signed_integer sign mantissa exponent o hs hd ho hne, rfl, ?_, rfl⟩
    rw [coefficient, List.append_nil]
  | @point ds fs hd hf hne =>
    rw [List.append_assoc, List.cons_append]
    exact ⟨_, read?_signed_point sign ds exponent o hs hd ho fs hf hne, rfl, rfl, rfl⟩

theorem isNumberText_of_read? (text : List Char) (n : Numeral) (h : read? text = some n) :
    IsNumberText text n.toRat := by
  obtain ⟨sign, hdecimal, hneg⟩ := isDecimalText_of_read? text n h
  refine (isNumberText_iff text _).mpr ⟨sign, _, _, hdecimal, ?_⟩
  rw [toRat, signed_eq_toInt sign n hneg]

theorem read?_of_isNumberText (text : List Char) (v : ℚ) (h : IsNumberText text v) :
    ∃ n, read? text = some n ∧ n.toRat = v := by
  obtain ⟨sign, c, p, hdecimal, rfl⟩ := (isNumberText_iff text v).mp h
  obtain ⟨n, hn, hneg, rfl, rfl⟩ := read?_of_isDecimalText text sign c p hdecimal
  exact ⟨n, hn, by rw [toRat, signed_eq_toInt sign n hneg]⟩

theorem IsNumberText.unique {text : List Char} {v w : ℚ} (hv : IsNumberText text v)
    (hw : IsNumberText text w) : v = w := by
  obtain ⟨n, hn, rfl⟩ := read?_of_isNumberText text v hv
  obtain ⟨k, hk, rfl⟩ := read?_of_isNumberText text w hw
  rw [hn] at hk
  rw [Option.some.inj hk]

/-! ## The bound -/

theorem ten_zpow_eq (p : Int) : (10 : ℚ) ^ p = 10 ^ p.toNat / 10 ^ (-p).toNat := by
  cases p with
  | ofNat up => simp
  | negSucc down =>
    show (10 : ℚ) ^ Int.negSucc down = 10 ^ 0 / 10 ^ (down + 1)
    rw [zpow_negSucc, pow_zero, one_div]

/-- A decimal is below a whole number as a rational number when it is so without fractions. -/
theorem mul_zpow_lt_iff (c bound : Nat) (p : Int) :
    (c : ℚ) * 10 ^ p < bound ↔ c * 10 ^ p.toNat < bound * 10 ^ (-p).toNat := by
  have hpos : (0 : ℚ) < 10 ^ (-p).toNat := by positivity
  rw [ten_zpow_eq, ← mul_div_assoc, div_lt_iff₀ hpos]
  exact_mod_cast Iff.rfl

theorem abs_toRat (n : Numeral) : |n.toRat| = (n.coefficient : ℚ) * 10 ^ n.power := by
  have hpos : (0 : ℚ) < 10 ^ n.power := zpow_pos (by decide) n.power
  rw [toRat, abs_mul, abs_of_pos hpos, ← natAbs_toInt, Nat.cast_natAbs, Int.cast_abs]

/-- The nearest number of the format is finite exactly when the numeral is within the bound. -/
theorem isFinite_toBinary64_iff (n : Numeral) :
    n.toBinary64.isFinite = true ↔ |n.toRat| < 2 ^ 1024 - 2 ^ 970 := by
  have hbound : ((2 ^ 1024 - 2 ^ 970 : Nat) : ℚ) = 2 ^ 1024 - 2 ^ 970 := by
    have hle : 2 ^ 970 ≤ 2 ^ 1024 := by gcongr <;> decide
    rw [Nat.cast_sub hle, Nat.cast_pow, Nat.cast_pow]
    rfl
  rw [toBinary64, Binary64.isFinite_ofDecimal_iff, ← mul_zpow_lt_iff, hbound, abs_toRat]

end Numeral

/-! ## Numeric texts -/

/-- A text is numeric when it is that of a number within the bound, blanks around it apart; and no
text denotes two numbers. -/
theorem isNumeric_iff (raw : String) :
    (isNumeric raw = true ↔
      ∃ v, Numeral.IsNumberText (Text.trim raw.toList) v ∧ |v| < 2 ^ 1024 - 2 ^ 970) ∧
    ∀ v w, Numeral.IsNumberText (Text.trim raw.toList) v →
      Numeral.IsNumberText (Text.trim raw.toList) w → v = w := by
  refine ⟨?_, fun v w hv hw => hv.unique hw⟩
  rw [isNumeric, Numeral.ofText?, Option.isSome_filter]
  constructor
  · intro h
    obtain ⟨n, hn, hfin⟩ := (Option.any_eq_true _ _).mp h
    have hlt := (Numeral.isFinite_toBinary64_iff n).mp hfin
    exact ⟨n.toRat, Numeral.isNumberText_of_read? _ n hn, hlt⟩
  · rintro ⟨v, hv, hlt⟩
    obtain ⟨n, hn, rfl⟩ := Numeral.read?_of_isNumberText _ v hv
    rw [hn]
    exact (Numeral.isFinite_toBinary64_iff n).mpr hlt

example : isNumeric " -.5E+2 " = true ∧ isNumeric "1e309" = false ∧ isNumeric "-." = false := by
  decide +kernel

end ResourceUrl
