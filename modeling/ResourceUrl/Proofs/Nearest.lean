import Mathlib.Algebra.Order.Field.Rat
import Mathlib.Tactic.FieldSimp
import Mathlib.Tactic.Linarith
import Mathlib.Tactic.Positivity
import ResourceUrl.Proofs.Rounding

/-!
# Rounding gives the nearest number

`IsNearest negative m v` says, over all finite numbers of the format and without regard to how they
are found, that the number with this sign and magnitude is the correctly rounded `v`: none is nearer,
and where another one is as near, the significand is even.  There is one such number for each sign
(`IsNearest.unique`), and rounding finds it:

    ofUnits negative num den = .finite negative m  →
      IsNearest negative m (signed negative (num / den / 2 ^ 1074))      (isNearest_of_ofUnits)

All comparisons are made in units of `2 ^ -1074`, on the grid of the scale that rounding chooses: a
number of the format is a point of that grid, or lies below every point that matters.
-/

namespace ResourceUrl.Binary64

/-! ## The specification -/

def signed (negative : Bool) (v : ℚ) : ℚ :=
  if negative then -v else v

def Magnitude.toRat (m : Magnitude) : ℚ :=
  m.units / 2 ^ 1074

/-- Of all finite numbers, that of this sign and magnitude is the nearest to `v`; where another is as
near, it is the one with the even significand. -/
structure IsNearest (negative : Bool) (m : Magnitude) (v : ℚ) : Prop where
  le : ∀ (sign : Bool) (other : Magnitude),
    |signed negative m.toRat - v| ≤ |signed sign other.toRat - v|
  even : ∀ (sign : Bool) (other : Magnitude), signed sign other.toRat ≠ signed negative m.toRat →
    |signed sign other.toRat - v| = |signed negative m.toRat - v| → m.significand % 2 = 0

/-- The correctly rounded `v`, with a sign that also zero has. -/
def IsRoundingOf (negative : Bool) (v : ℚ) : Binary64 → Prop
  | .finite sign m => sign = negative ∧ IsNearest negative m v
  | _ => False

/-! ## Whole numbers -/

/-- A rounded quotient is off by half at most, and even where it is off by half. -/
theorem two_mul_abs_roundHalfEven_sub (num den : Nat) (hd : 0 < den) :
    |2 * ((roundHalfEven num den : Int) * den - num)| ≤ den ∧
      (|2 * ((roundHalfEven num den : Int) * den - num)| = den → roundHalfEven num den % 2 = 0) := by
  have hdm : (num : Int) = den * (num / den : Nat) + (num % den : Nat) := by
    exact_mod_cast (Nat.div_add_mod num den).symm
  unfold roundHalfEven
  simp only
  split
  · next hdown =>
    have hoff : 2 * (((num / den : Nat) : Int) * den - num) = -(2 * (num % den : Nat)) := by
      rw [hdm]; ring
    rw [hoff, abs_neg, abs_of_nonneg (by omega)]
    omega
  · next hup =>
    have hoff : 2 * (((num / den + 1 : Nat) : Int) * den - num) = 2 * (den - (num % den : Nat)) := by
      rw [hdm]; push_cast; ring
    have hlt := Nat.mod_lt num hd
    rw [hoff, abs_of_nonneg (by omega)]
    omega

/-- No whole number is nearer to a quotient than the rounded one. -/
theorem abs_roundHalfEven_sub_le (num den k : Nat) (hd : 0 < den) :
    |(roundHalfEven num den : ℚ) - num / den| ≤ |(k : ℚ) - num / den| ∧
      (k ≠ roundHalfEven num den →
        |(k : ℚ) - num / den| = |(roundHalfEven num den : ℚ) - num / den| →
          roundHalfEven num den % 2 = 0) := by
  obtain ⟨hle, hhalf⟩ := two_mul_abs_roundHalfEven_sub num den hd
  generalize roundHalfEven num den = r at *
  have hpos : (0 : ℚ) < den := by exact_mod_cast hd
  have hoff : ((|2 * ((r : Int) * den - num)| : Int) : ℚ) = 2 * |(r : ℚ) - num / den| * den := by
    have hden : (r : ℚ) * den - num = ((r : ℚ) - num / den) * den := by field_simp
    push_cast
    rw [hden, abs_mul, abs_mul, abs_of_pos hpos, abs_two, mul_assoc]
  have hnear : 2 * |(r : ℚ) - num / den| ≤ 1 := by
    have hcast : ((|2 * ((r : Int) * den - num)| : Int) : ℚ) ≤ den := by exact_mod_cast hle
    rw [hoff] at hcast
    exact (mul_le_iff_le_one_left hpos).mp hcast
  have htie : 2 * |(r : ℚ) - num / den| = 1 → r % 2 = 0 := by
    intro hone
    rw [hone, one_mul] at hoff
    exact hhalf (by exact_mod_cast hoff)
  by_cases hk : k = r
  · rw [hk]
    exact ⟨le_rfl, fun h => absurd rfl h⟩
  · have hapart : (1 : ℚ) ≤ |(k : ℚ) - r| := by
      have hint : (1 : Int) ≤ |(k : Int) - r| := Int.one_le_abs (by omega)
      exact_mod_cast hint
    have htriangle := abs_sub_le (k : ℚ) (num / den) r
    rw [abs_sub_comm ((num : ℚ) / den) r] at htriangle
    exact ⟨by linarith, fun _ heq => htie (by linarith)⟩

/-! ## The grid of a scale -/

theorem units_of_pack (negative : Bool) (s e : Nat) (m : Magnitude) (hs : s ≤ 2 ^ 53)
    (h : pack negative s e = .finite negative m) :
    m.units = s * 2 ^ e ∧ (s % 2 = 0 → m.significand % 2 = 0) := by
  unfold pack at h
  split at h
  · obtain ⟨-, rfl⟩ := Binary64.finite.inj h
    exact ⟨rfl, id⟩
  · next hfirst =>
    split at h
    · next hcarry =>
      obtain ⟨-, rfl⟩ := Binary64.finite.inj h
      have hlow : 2 ^ 52 ≤ s / 2 := hcarry.2.2.resolve_left (Nat.succ_ne_zero e)
      obtain rfl : s = 2 ^ 53 := by omega
      constructor
      · show 2 ^ 53 / 2 * 2 ^ (e + 1) = 2 ^ 53 * 2 ^ e
        rw [Nat.pow_succ 2 e]
        ring
      · intro _
        show 2 ^ 53 / 2 % 2 = 0
        decide
    · cases h

/-- A number of the format is a point of the grid, or less than the points with all 53 bits. -/
theorem units_on_grid (m : Magnitude) (e : Nat) :
    (∃ k, m.units = k * 2 ^ e) ∨ (0 < e ∧ m.units < 2 ^ 52 * 2 ^ e) := by
  unfold Magnitude.units
  rw [Nat.pow_eq]
  by_cases h : e ≤ m.scale
  · refine Or.inl ⟨m.significand * 2 ^ (m.scale - e), ?_⟩
    rw [Nat.mul_assoc, ← Nat.pow_add, Nat.sub_add_cancel h]
  · right
    obtain ⟨d, rfl⟩ := Nat.exists_eq_add_of_lt (Nat.not_le.mp h)
    refine ⟨by omega, ?_⟩
    calc m.significand * 2 ^ m.scale
        < 2 ^ 53 * 2 ^ m.scale := Nat.mul_lt_mul_of_pos_right m.canonical.1 (Nat.two_pow_pos _)
      _ ≤ 2 ^ 53 * 2 ^ (m.scale + d) :=
          Nat.mul_le_mul_left _ (Nat.pow_le_pow_right (by decide) (Nat.le_add_right _ _))
      _ = 2 ^ 52 * 2 ^ (m.scale + d + 1) := by rw [Nat.pow_succ 2 (m.scale + d)]; ring

/-- No number of the format is nearer to a fraction of units than the one that it is rounded to. -/
theorem abs_units_sub_le (negative : Bool) (num den : Nat) (hd : 0 < den) (m other : Magnitude)
    (h : ofUnits negative num den = .finite negative m) :
    |(m.units : ℚ) - num / den| ≤ |(other.units : ℚ) - num / den| ∧
      (other.units ≠ m.units → |(other.units : ℚ) - num / den| = |(m.units : ℚ) - num / den| →
        m.significand % 2 = 0) := by
  obtain ⟨hhi, hlo⟩ := scale_bounds num den hd
  unfold ofUnits at h
  simp only [Nat.pow_eq] at h
  generalize (num / den).log2 - 52 = e at *
  have hstep : 0 < den * 2 ^ e := Nat.mul_pos hd (Nat.two_pow_pos e)
  have hcarry : roundHalfEven num (den * 2 ^ e) ≤ 2 ^ 53 := by
    have hq : num / (den * 2 ^ e) < 2 ^ 53 := by
      rw [Nat.div_lt_iff_lt_mul hstep, Nat.mul_comm, Nat.mul_assoc, ← Nat.pow_add]
      exact hhi
    have hcases := roundHalfEven_cases num (den * 2 ^ e)
    omega
  obtain ⟨hunits, heven⟩ := units_of_pack negative _ e m hcarry h
  have hgrid := fun k => abs_roundHalfEven_sub_le num (den * 2 ^ e) k hstep
  generalize roundHalfEven num (den * 2 ^ e) = r at *
  -- distances from points of the grid, measured in its steps
  have hpow : (0 : ℚ) < 2 ^ e := by positivity
  have hscale : ∀ k : Nat, |((k * 2 ^ e : Nat) : ℚ) - num / den| =
      |(k : ℚ) - num / (den * 2 ^ e : Nat)| * 2 ^ e := by
    intro k
    have hden : (den : ℚ) ≠ 0 := by exact_mod_cast hd.ne'
    have hstep : ((k * 2 ^ e : Nat) : ℚ) - num / den =
        ((k : ℚ) - num / (den * 2 ^ e : Nat)) * 2 ^ e := by
      push_cast
      field_simp
    rw [hstep, abs_mul, abs_of_pos hpow]
  rw [hunits]
  rcases units_on_grid other e with ⟨k, hk⟩ | ⟨he, hlt⟩
  · rw [hk, hscale, hscale]
    refine ⟨mul_le_mul_of_nonneg_right (hgrid k).1 hpow.le, fun hne heq => heven ?_⟩
    exact (hgrid k).2 (fun hkr => hne (by rw [hkr])) (mul_right_cancel₀ hpow.ne' heq)
  · -- the least point with 53 bits lies between the other number and the fraction
    have hpoint : ((2 ^ 52 * 2 ^ e : Nat) : ℚ) ≤ num / den := by
      rw [le_div_iff₀ (by exact_mod_cast hd), ← Nat.pow_add, Nat.add_comm 52]
      have hle := hlo.resolve_left he.ne'
      rw [Nat.mul_comm] at hle
      exact_mod_cast hle
    have hbelow : (other.units : ℚ) < (2 ^ 52 * 2 ^ e : Nat) := by exact_mod_cast hlt
    have hnear := mul_le_mul_of_nonneg_right (hgrid (2 ^ 52)).1 hpow.le
    rw [← hscale, ← hscale, abs_of_nonpos (sub_nonpos.mpr hpoint)] at hnear
    rw [abs_of_nonpos (sub_nonpos.mpr (hbelow.le.trans hpoint))]
    generalize ((2 ^ 52 * 2 ^ e : Nat) : ℚ) = point at *
    generalize |((r * 2 ^ e : Nat) : ℚ) - num / den| = distance at *
    have hfar : distance < -((other.units : ℚ) - num / den) := by linarith
    exact ⟨hfar.le, fun _ heq => absurd heq hfar.ne'⟩

/-! ## Numbers with a sign -/

theorem Magnitude.toRat_zero : Magnitude.zero.toRat = 0 := by
  simp [toRat, units, zero]

theorem Magnitude.toRat_nonneg (m : Magnitude) : 0 ≤ m.toRat := by
  unfold toRat
  positivity

theorem Magnitude.toRat_lt_iff (m k : Magnitude) : m.toRat < k.toRat ↔ m.units < k.units := by
  unfold toRat
  have hpos : (0 : ℚ) < 2 ^ 1074 := by positivity
  generalize (2 : ℚ) ^ 1074 = unit at *
  rw [div_lt_div_iff_of_pos_right hpos, Nat.cast_lt]

theorem Magnitude.eq_of_units_eq (m k : Magnitude) (h : m.units = k.units) : m = k := by
  have hm := ofUnits_units false m
  rw [h, ofUnits_units] at hm
  exact (Binary64.finite.inj hm).2.symm

theorem abs_signed_sub (negative : Bool) (a v : ℚ) :
    |signed negative a - v| = |a - signed negative v| := by
  cases negative with
  | false => rfl
  | true =>
    show |-a - v| = |a - -v|
    rw [← abs_neg, neg_sub, sub_neg_eq_add, sub_neg_eq_add, add_comm]

theorem abs_signed_sub_signed (sign negative : Bool) (a v : ℚ) :
    |signed sign a - signed negative v| = if sign = negative then |a - v| else |a + v| := by
  rw [abs_signed_sub]
  cases sign <;> cases negative <;> simp [signed]

/-- What is nearest among the magnitudes is nearest among all numbers, since the other sign leads away
from a number that is not negative. -/
theorem isNearest_of_magnitudes (negative : Bool) (m : Magnitude) (v : ℚ) (hv : 0 ≤ v)
    (h : ∀ other : Magnitude, |m.toRat - v| ≤ |other.toRat - v| ∧
      (other.units ≠ m.units → |other.toRat - v| = |m.toRat - v| → m.significand % 2 = 0)) :
    IsNearest negative m (signed negative v) := by
  have haway : ∀ a : ℚ, 0 ≤ a → |a - v| ≤ |a + v| := by
    intro a ha
    rw [abs_of_nonneg (add_nonneg ha hv), abs_le]
    constructor <;> linarith
  constructor
  · intro sign other
    rw [abs_signed_sub_signed, abs_signed_sub_signed, if_pos rfl]
    split
    · exact (h other).1
    · exact (h other).1.trans (haway _ other.toRat_nonneg)
  · intro sign other hne heq
    rw [abs_signed_sub_signed, abs_signed_sub_signed, if_pos rfl] at heq
    split at heq
    · next hs =>
      refine (h other).2 (fun hunits => hne ?_) heq
      rw [hs, other.eq_of_units_eq m hunits]
    · have hnear := haway _ other.toRat_nonneg
      by_cases hunits : other.units = m.units
      · -- a number as near as its opposite is zero, which has one value under both signs
        obtain rfl := other.eq_of_units_eq m hunits
        have hzero := (h .zero).1
        have hnonneg := other.toRat_nonneg
        have hrat : other.toRat = 0 := by
          rw [Magnitude.toRat_zero, zero_sub, abs_neg, abs_of_nonneg hv, ← heq,
            abs_of_nonneg (add_nonneg hnonneg hv)] at hzero
          linarith
        rw [hrat] at hne
        cases sign <;> cases negative <;> simp [signed] at hne
      · exact (h other).2 hunits (le_antisymm (hnear.trans heq.le) (h other).1)

/-- Between two numbers with even significands there is a third. -/
theorem exists_units_between (m k : Magnitude) (hm : m.significand % 2 = 0)
    (hk : k.significand % 2 = 0) (h : m.units < k.units) :
    ∃ next : Magnitude, m.units < next.units ∧ next.units < k.units := by
  obtain ⟨hlt, hscale, hfull⟩ := m.canonical
  have hnext : Canonical (m.significand + 1) m.scale := by
    refine ⟨?_, hscale, hfull.imp id fun hle => by omega⟩
    have hodd : Nat.pow 2 53 % 2 = 0 := rfl
    omega
  have hpow : 0 < 2 ^ m.scale := Nat.two_pow_pos _
  have hmunits : m.units = m.significand * 2 ^ m.scale := rfl
  have hnextunits : (Magnitude.mk _ _ hnext).units = (m.significand + 1) * 2 ^ m.scale := rfl
  refine ⟨⟨_, _, hnext⟩, ?_, ?_⟩
  · rw [hmunits, hnextunits]
    exact Nat.mul_lt_mul_of_pos_right (Nat.lt_succ_self _) hpow
  · rcases units_on_grid k m.scale with ⟨j, hj⟩ | ⟨hpos, hbelow⟩
    · rw [hmunits, hj, Nat.mul_lt_mul_right hpow] at h
      refine Nat.lt_of_le_of_ne ?_ fun heq => ?_
      · rw [hnextunits, hj]
        exact Nat.mul_le_mul_right _ h
      · have hsame := congrArg Magnitude.significand (Magnitude.eq_of_units_eq _ k heq)
        have hodd : m.significand + 1 = k.significand := hsame
        omega
    · have hle : 2 ^ 52 * 2 ^ m.scale ≤ m.units :=
        Nat.mul_le_mul_right _ (hfull.resolve_left hpos.ne')
      omega

/-- Of two nearest numbers neither is the lesser, or a third would be nearer than both. -/
theorem IsNearest.not_lt {negative : Bool} {m k : Magnitude} {v : ℚ} (hm : IsNearest negative m v)
    (hk : IsNearest negative k v) : ¬ m.units < k.units := by
  intro hlt
  have hrat := (m.toRat_lt_iff k).mpr hlt
  have hne : signed negative m.toRat ≠ signed negative k.toRat := by
    cases negative with
    | false => exact hrat.ne
    | true => exact fun h => hrat.ne (neg_injective h)
  have hsame := le_antisymm (hm.le negative k) (hk.le negative m)
  obtain ⟨next, hmn, hnk⟩ := exists_units_between m k (hm.even negative k hne.symm hsame.symm)
    (hk.even negative m hne hsame) hlt
  -- `v` lies in the middle of the two, and so does `next`
  have hleast := hm.le negative next
  rw [abs_signed_sub, abs_signed_sub] at hleast hsame
  rw [← Magnitude.toRat_lt_iff] at hmn hnk
  generalize signed negative v = w at *
  have hmiddle : m.toRat - w = -(k.toRat - w) :=
    (abs_eq_abs.mp hsame).resolve_left fun h => hrat.ne (by linarith)
  have hpos : 0 ≤ k.toRat - w := by linarith
  rw [hmiddle, abs_neg, abs_of_nonneg hpos, le_abs] at hleast
  rcases hleast with hle | hle <;> linarith

theorem IsNearest.unique {negative : Bool} {m k : Magnitude} {v : ℚ} (hm : IsNearest negative m v)
    (hk : IsNearest negative k v) : m = k := by
  apply Magnitude.eq_of_units_eq
  have h1 := hm.not_lt hk
  have h2 := hk.not_lt hm
  omega

theorem IsNearest.isRoundingOf_iff {negative : Bool} {m : Magnitude} {v : ℚ}
    (hm : IsNearest negative m v) (x : Binary64) :
    x.IsRoundingOf negative v ↔ x = .finite negative m := by
  constructor
  · intro hx
    cases x with
    | nan => exact hx.elim
    | infinite sign => exact hx.elim
    | finite sign k =>
      obtain ⟨rfl, hk⟩ := hx
      rw [hk.unique hm]
  · rintro rfl
    exact ⟨rfl, hm⟩

theorem isNearest_of_ofUnits (negative : Bool) (num den : Nat) (hd : 0 < den) (m : Magnitude)
    (h : ofUnits negative num den = .finite negative m) :
    IsNearest negative m (signed negative (num / den / 2 ^ 1074)) := by
  have hnear := fun other => abs_units_sub_le negative num den hd m other h
  have hnonneg : (0 : ℚ) ≤ num / den := by positivity
  have hpos : (0 : ℚ) < 2 ^ 1074 := by positivity
  have hunits : ∀ other : Magnitude, other.toRat = other.units / 2 ^ 1074 := fun _ => rfl
  refine isNearest_of_magnitudes negative m _ (div_nonneg hnonneg hpos.le) fun other => ?_
  rw [hunits, hunits]
  generalize (2 : ℚ) ^ 1074 = unit at *
  rw [← sub_div, ← sub_div, abs_div, abs_div, abs_of_pos hpos]
  refine ⟨div_le_div_of_nonneg_right (hnear other).1 hpos.le, fun hne heq => (hnear other).2 hne ?_⟩
  exact (div_left_inj' hpos.ne').mp heq

end ResourceUrl.Binary64
