import ResourceUrl.Proofs.Nearest
import ResourceUrl.Proofs.Recognition

/-!
# The values that texts denote

Which kind of value a raw text is read as can be told from the text alone (`Value.IsDenotedBy`): null
is one text, a number is an integer when it is written in digits only, and all that is not a number
stands for itself.  Integers are those that the text denotes, of whatever size, and never pass through
the format; other numbers are rounded once and correctly (`Numeral.isRoundingOf_toBinary64_iff`).

    Value.read raw = .ok v  →  Value.read v.render = .ok v ∧ v.IsDenotedBy raw
                                                                        (Value.read_denotes)

The text that a value is written as may differ from the one that was read, but denotes the same value
of the same kind.
-/

namespace ResourceUrl

/-! ## Numbers of a text -/

namespace Numeral

/-- Digits, with or without a sign. -/
def IsSignedDigits (text : List Char) : Prop :=
  ∃ sign ∈ signs, ∃ digits, AreDigits digits ∧ digits ≠ [] ∧ text = sign ++ digits

theorem isInteger_iff (text : List Char) (n : Numeral) (h : read? text = some n) :
    n.isInteger = true ↔ IsSignedDigits text := by
  constructor
  · intro hi
    obtain ⟨hwhole, hne, hd, -, -⟩ := parts_of_isInteger text n h hi
    obtain ⟨sign, hs, htext, -⟩ := exists_sign text
    rw [hwhole] at hne hd
    exact ⟨sign, hs, _, hd, hne, htext⟩
  · rintro ⟨sign, hs, digits, hd, hne, rfl⟩
    have hread := read?_signed_integer sign digits [] none hs hd rfl hne
    rw [List.append_nil, h] at hread
    obtain rfl := Option.some.inj hread
    rfl

theorem negative_eq (text : List Char) (n : Numeral) (h : read? text = some n) :
    n.negative = decide (text.head? = some '-') := by
  have hsign : n.negative = (takeSign text).1 := by
    unfold read? at h
    simp only at h
    split at h
    · cases h
    · obtain ⟨o, -, rfl⟩ := Option.map_eq_some_iff.mp h
      rfl
  rw [hsign]
  unfold takeSign
  split
  · rfl
  · rfl
  · next hplus hminus =>
    cases text with
    | nil => rfl
    | cons c rest =>
      have hc : c ≠ '-' := fun he => hminus rest (by rw [he])
      simp [hc]

theorem toRat_of_isInteger (text : List Char) (n : Numeral) (h : read? text = some n)
    (hi : n.isInteger = true) : n.toRat = n.toInt := by
  obtain ⟨-, -, -, hfraction, hexponent⟩ := parts_of_isInteger text n h hi
  simp [toRat, power, hfraction, hexponent]

theorem toRat_eq_signed (n : Numeral) :
    n.toRat = Binary64.signed n.negative (n.coefficient * 10 ^ n.power) := by
  unfold toRat toInt Binary64.signed
  cases n.negative <;> simp

/-- A numeral within the format is rounded correctly, and to nothing else. -/
theorem isRoundingOf_toBinary64_iff (n : Numeral) (hfin : n.toBinary64.isFinite = true)
    (x : Binary64) : x.IsRoundingOf n.negative n.toRat ↔ x = n.toBinary64 := by
  have hdown : 0 < 10 ^ (-n.power).toNat := Nat.pow_pos (by decide)
  have hround := Binary64.ofDecimal_eq_ofUnits n.negative n.coefficient n.power
  rw [← toBinary64] at hround
  rw [hround] at hfin
  obtain ⟨m, hm⟩ := Binary64.exists_of_isFinite_ofUnits _ _ _ hfin
  have hnear := Binary64.isNearest_of_ofUnits n.negative _ _ hdown m hm
  have hvalue : ((n.coefficient * 10 ^ n.power.toNat * Nat.pow 2 1074 : Nat) : ℚ) /
      (10 ^ (-n.power).toNat : Nat) / 2 ^ 1074 = n.coefficient * 10 ^ n.power := by
    generalize 1074 = e
    have hunit : ((Nat.pow 2 e : Nat) : ℚ) = 2 ^ e := Nat.cast_pow 2 e
    have hpos : (2 : ℚ) ^ e ≠ 0 := by positivity
    rw [Nat.cast_mul, hunit, ten_zpow_eq]
    push_cast
    field_simp
  rw [hvalue, ← toRat_eq_signed] at hnear
  rw [hnear.isRoundingOf_iff, hround, hm]

end Numeral

/-! ## Values of a text -/

namespace Value

open Numeral

/-- What a text says about the value that it is read as. -/
structure IsDenotedBy (v : Value) (raw : String) : Prop where
  null : v = .null ↔ raw = "null"
  /-- Digits are an integer, and the one that they denote. -/
  int : (∃ n, v = .int n) ↔ isNumeric raw = true ∧ IsSignedDigits (Text.trim raw.toList)
  int_exact : ∀ n : Int, v = .int n → IsNumberText (Text.trim raw.toList) n
  /-- All other numbers are rounded, and correctly. -/
  float : (∃ x, v = .float x) ↔ isNumeric raw = true ∧ ¬ IsSignedDigits (Text.trim raw.toList)
  float_rounded : ∀ x, v = .float x → ∃ q, IsNumberText (Text.trim raw.toList) q ∧
    ∀ y : Binary64, y.IsRoundingOf (decide ((Text.trim raw.toList).head? = some '-')) q ↔ y = x
  text : ∀ s, v = .text s ↔ raw ≠ "null" ∧ isNumeric raw = false ∧ s = raw

theorem isNumeric_null : isNumeric "null" = false := rfl

theorem isDenotedBy_of_read (raw : String) (v : Value) (h : read raw = .ok v) :
    v.IsDenotedBy raw := by
  cases isReadFrom_of_read raw v h with
  | null hnull =>
    subst hnull
    constructor <;> simp [isNumeric_null]
  | text hnull hn =>
    have hnumeric : isNumeric raw = false := by rw [isNumeric, hn]; rfl
    constructor <;> simp [hnull, hnumeric, eq_comm]
  | @int n hn hi hlen =>
    obtain ⟨hread, hfin⟩ := Option.filter_eq_some_iff.mp hn
    have hnumeric : isNumeric raw = true := by rw [isNumeric, hn]; rfl
    have hnull : raw ≠ "null" := by rintro rfl; cases hnumeric
    have hdigits := (isInteger_iff _ n hread).mp hi
    have hexact := isNumberText_of_read? _ n hread
    rw [toRat_of_isInteger _ n hread hi] at hexact
    constructor <;> simp [hnull, hnumeric, hdigits, hexact]
  | @float n hn hi =>
    obtain ⟨hread, hfin⟩ := Option.filter_eq_some_iff.mp hn
    have hnumeric : isNumeric raw = true := by rw [isNumeric, hn]; rfl
    have hnull : raw ≠ "null" := by rintro rfl; cases hnumeric
    have hdigits : ¬ IsSignedDigits (Text.trim raw.toList) := by
      rw [← isInteger_iff _ n hread, hi]
      exact Bool.false_ne_true
    have hrounded := isRoundingOf_toBinary64_iff n hfin
    rw [negative_eq _ n hread] at hrounded
    have hexact := isNumberText_of_read? _ n hread
    exact {
      null := by simp [hnull]
      int := by simp [hdigits]
      int_exact := by simp
      float := by simp [hnumeric, hdigits]
      float_rounded := by
        intro x hx
        obtain rfl := Value.float.inj hx
        exact ⟨_, hexact, hrounded⟩
      text := by simp [hnumeric] }

theorem exists_read_iff (raw : String) :
    (∃ v, read raw = .ok v) ↔
      ∀ digits, IsIntegerText (Text.trim raw.toList) digits → digits.length ≤ Fault.digitLimit := by
  constructor
  · rintro ⟨v, hv⟩ digits hdigits
    by_contra hlong
    obtain ⟨n, hn, hi, rfl⟩ := (ofText?_isInteger_iff raw digits).mpr hdigits
    have herror := (read_eq_error_iff raw _).mpr ⟨n, hn, hi, Nat.lt_of_not_le hlong, rfl⟩
    rw [hv] at herror
    cases herror
  · intro hshort
    cases hread : read raw with
    | ok v => exact ⟨v, rfl⟩
    | error fault =>
      obtain ⟨n, hn, hi, hlong, -⟩ := (read_eq_error_iff raw fault).mp hread
      have hdigits := (ofText?_isInteger_iff raw n.whole).mp ⟨n, hn, hi, rfl⟩
      exact absurd (hshort n.whole hdigits) (Nat.not_le_of_lt hlong)

/-- A text is read as the value that it denotes, exactly or correctly rounded, and what is read is
read again from its own text. -/
theorem read_denotes (raw : String) :
    ((∃ v, read raw = .ok v) ↔
      ∀ digits, IsIntegerText (Text.trim raw.toList) digits → digits.length ≤ Fault.digitLimit) ∧
    ∀ v, read raw = .ok v → read v.render = .ok v ∧ v.IsDenotedBy raw := by
  refine ⟨exists_read_iff raw, fun v hv => ⟨?_, isDenotedBy_of_read raw v hv⟩⟩
  exact read_render v (isReadable_of_read raw v hv).1

/-- A number with blanks, a point at the front and an exponent is written another way. -/
theorem read_denotes_padded :
    let x : Binary64 := .ofDecimal true 1 (-1)
    read " -.10e0 " = .ok (.float x) ∧ (Value.float x).render = "-0.1" ∧
      read "-0.1" = .ok (.float x) ∧ (Value.float x).IsDenotedBy " -.10e0 " := by
  intro x
  have hread : read " -.10e0 " = .ok (.float x) := by decide +kernel
  have hrender : (Value.float x).render = "-0.1" := by decide +kernel
  obtain ⟨hagain, hdenoted⟩ := (read_denotes " -.10e0 ").2 _ hread
  rw [hrender] at hagain
  exact ⟨hread, hrender, hagain, hdenoted⟩

end Value

end ResourceUrl
