import Mathlib.Tactic.Ring
import Mathlib.Tactic.Linarith
import ResourceUrl.Binary64.Shortest

/-!
# Rounding depends on the value, is exact, and overflows at one bound

`ofUnits` and `ofDecimal` are functions of the rational number that their arguments stand for
(`ofUnits_congr`, `ofDecimal_mul_pow`): the short cuts of `ofDecimal` for far exponents agree with
rounding the fraction itself (`ofDecimal_eq_ofUnits`).  A number of the format is its own rounding
(`ofUnits_units`), the result is finite exactly below `2 ^ 1024 - 2 ^ 970`
(`isFinite_ofUnits_iff`, `isFinite_ofDecimal_iff`), and hence

    ofDecimal negative m.shortest.coefficient m.shortest.power = .finite negative m
                                                               (ofDecimal_shortest)
-/

namespace ResourceUrl.Binary64

/-! ## To the nearest whole number -/

theorem roundHalfEven_cases (num den : Nat) :
    (roundHalfEven num den = num / den ∧ 2 * (num % den) ≤ den) ∨
      (roundHalfEven num den = num / den + 1 ∧ den ≤ 2 * (num % den)) := by
  unfold roundHalfEven
  simp only
  split
  · left; refine ⟨rfl, by omega⟩
  · right; refine ⟨rfl, by omega⟩

theorem roundHalfEven_mul_right (num den k : Nat) (hk : 0 < k) :
    roundHalfEven (num * k) (den * k) = roundHalfEven num den := by
  unfold roundHalfEven
  simp only
  rw [Nat.mul_div_mul_right _ _ hk, Nat.mul_mod_mul_right, ← Nat.mul_assoc]
  have hlt : 2 * (num % den) * k < den * k ↔ 2 * (num % den) < den := Nat.mul_lt_mul_right hk
  have heq : 2 * (num % den) * k = den * k ↔ 2 * (num % den) = den :=
    Nat.mul_left_inj (Nat.pos_iff_ne_zero.mp hk)
  simp only [hlt, heq]

theorem roundHalfEven_mul_self (n den : Nat) (hd : 0 < den) : roundHalfEven (n * den) den = n := by
  unfold roundHalfEven
  simp only
  rw [Nat.mul_div_cancel n hd, Nat.mul_mod_left, if_pos (Or.inl (by omega))]

/-! ## Units -/

theorem ofUnits_mul_right (negative : Bool) (num den k : Nat) (hk : 0 < k) :
    ofUnits negative (num * k) (den * k) = ofUnits negative num den := by
  unfold ofUnits
  simp only
  rw [Nat.mul_div_mul_right _ _ hk, Nat.mul_right_comm den k, roundHalfEven_mul_right _ _ _ hk]

theorem ofUnits_congr (negative : Bool) (a b c d : Nat) (hb : 0 < b) (hd : 0 < d)
    (h : a * d = c * b) : ofUnits negative a b = ofUnits negative c d := by
  rw [← ofUnits_mul_right negative a b d hd, ← ofUnits_mul_right negative c d b hb, h,
    Nat.mul_comm b d]

theorem pack_of_canonical (negative : Bool) (m : Magnitude) :
    pack negative m.significand m.scale = .finite negative m := by
  unfold pack
  rw [dif_pos m.canonical]

/-- The scale that rounding chooses for a magnitude is its own. -/
theorem log2_units (m : Magnitude) : m.units.log2 - 52 = m.scale := by
  obtain ⟨s, e, hlt, hle, hc⟩ := m
  simp only [Magnitude.units, Nat.pow_eq] at *
  rcases hc with rfl | hc
  · by_cases hs : s = 0
    · subst hs; rfl
    · have : s.log2 < 53 := (Nat.log2_lt hs).mpr hlt
      rw [Nat.pow_zero, Nat.mul_one]
      omega
  · have hpos : 0 < 2 ^ e := Nat.two_pow_pos e
    have hlo : 2 ^ (52 + e) ≤ s * 2 ^ e := by
      rw [Nat.pow_add]; exact Nat.mul_le_mul_right _ hc
    have hhi : s * 2 ^ e < 2 ^ (53 + e) := by
      rw [Nat.pow_add]; exact Nat.mul_lt_mul_of_pos_right hlt hpos
    have hne : s * 2 ^ e ≠ 0 := by have := Nat.two_pow_pos (52 + e); omega
    have h1 : 52 + e ≤ (s * 2 ^ e).log2 := (Nat.le_log2 hne).mpr hlo
    have h2 : (s * 2 ^ e).log2 < 53 + e := (Nat.log2_lt hne).mpr hhi
    omega

theorem ofUnits_units (negative : Bool) (m : Magnitude) :
    ofUnits negative m.units 1 = .finite negative m := by
  unfold ofUnits
  simp only [Nat.div_one, Nat.one_mul]
  rw [log2_units, Magnitude.units, roundHalfEven_mul_self _ _ (by rw [Nat.pow_eq]; exact Nat.two_pow_pos _),
    pack_of_canonical]

/-! ## Overflow -/

theorem isFinite_pack_iff (negative : Bool) (s e : Nat) :
    (pack negative s e).isFinite = true ↔ Canonical s e ∨ Canonical (s / 2) (e + 1) := by
  unfold pack
  split
  · next h => simp [isFinite, h]
  · next h =>
    split
    · next h' => simp [isFinite, h']
    · next h' => simp [isFinite, h, h']

/-- The scale of a quotient leaves it 53 bits, or is 0 where it has fewer. -/
theorem scale_bounds (num den : Nat) (hd : 0 < den) :
    num < den * 2 ^ ((num / den).log2 - 52 + 53) ∧
      ((num / den).log2 - 52 = 0 ∨ den * 2 ^ ((num / den).log2 - 52 + 52) ≤ num) := by
  have hmul : ∀ k, num / den < 2 ^ k ↔ num < den * 2 ^ k := by
    intro k
    rw [Nat.div_lt_iff_lt_mul hd, Nat.mul_comm]
  constructor
  · rw [← hmul]
    exact Nat.lt_of_lt_of_le Nat.lt_log2_self (Nat.pow_le_pow_right (by decide) (by omega))
  · by_cases hz : (num / den).log2 ≤ 52
    · left; omega
    · right
      have hne : num / den ≠ 0 := by
        intro h
        rw [h] at hz
        exact hz (by decide)
      rw [Nat.sub_add_cancel (by omega), ← Nat.not_lt, ← hmul, Nat.not_lt]
      exact Nat.log2_self_le hne

/-- At the last scale the significand stays below 53 bits exactly for quotients that are nearer to
`2 ^ 53 - 1` than to `2 ^ 53`; the tie goes up, because `2 ^ 53 - 1` is odd. -/
theorem roundHalfEven_lt_iff (num den : Nat) (hd : 0 < den) (hlt : num < den * 2 ^ 53) :
    roundHalfEven num den < 2 ^ 53 ↔ 2 * num < den * (2 ^ 54 - 1) := by
  have hdm := Nat.div_add_mod num den
  have hr := Nat.mod_lt num hd
  have hq : num / den < 2 ^ 53 := (Nat.div_lt_iff_lt_mul hd).mpr (by rwa [Nat.mul_comm])
  by_cases hlast : num / den = 2 ^ 53 - 1
  · unfold roundHalfEven
    simp only
    rw [hlast] at hdm ⊢
    split <;> omega
  · have hle : den * (num / den) ≤ den * (2 ^ 53 - 2) := Nat.mul_le_mul_left den (by omega)
    have := roundHalfEven_cases num den
    omega

/-- Rounding overflows exactly from `2 ^ 1024 - 2 ^ 970` on, here in units: there the greatest finite
number and the next power of two are equally near. -/
theorem isFinite_ofUnits_iff (negative : Bool) (num den : Nat) (hd : 0 < den) :
    (ofUnits negative num den).isFinite = true ↔ num < den * 2 ^ 2044 * (2 ^ 54 - 1) := by
  unfold ofUnits
  simp only [Nat.pow_eq]
  obtain ⟨hhi, hlo⟩ := scale_bounds num den hd
  generalize (num / den).log2 - 52 = e at hhi hlo
  rw [Nat.pow_add, ← Nat.mul_assoc] at hhi hlo
  rw [isFinite_pack_iff]
  have hpos : 0 < den * 2 ^ e := Nat.mul_pos hd (Nat.two_pow_pos e)
  have hcases := roundHalfEven_cases num (den * 2 ^ e)
  have hiff := roundHalfEven_lt_iff num (den * 2 ^ e) hpos hhi
  have hq : num / (den * 2 ^ e) < 2 ^ 53 :=
    (Nat.div_lt_iff_lt_mul hpos).mpr (by rwa [Nat.mul_comm])
  have hlow : e = 0 ∨ 2 ^ 52 ≤ num / (den * 2 ^ e) :=
    hlo.imp id fun h => (Nat.le_div_iff_mul_le hpos).mpr (by rwa [Nat.mul_comm])
  -- the scale against the last one, where alone a carry decides
  have hmono : ∀ j k, j ≤ k → den * 2 ^ j ≤ den * 2 ^ k := fun j k h =>
    Nat.mul_le_mul_left den (Nat.pow_le_pow_right (by decide) h)
  have hmul : ∀ j k, den * 2 ^ j * 2 ^ k = den * 2 ^ (j + k) := fun j k => by
    rw [Nat.mul_assoc, ← Nat.pow_add]
  have hsmall := hmono e 2044
  have hlast : e = 2045 → den * 2 ^ e = den * 2 ^ 2044 * 2 := fun h => by
    rw [h, Nat.mul_assoc, ← Nat.pow_succ]
  have hbig : 2046 ≤ e → den * 2 ^ 2044 * 2 ^ 2 ≤ den * 2 ^ e := fun h =>
    Nat.le_trans (Nat.le_of_eq (hmul 2044 2)) (hmono (2044 + 2) e h)
  generalize den * 2 ^ 2044 = last at *
  generalize den * 2 ^ e = step at *
  generalize roundHalfEven num step = r at *
  unfold Canonical
  simp only [Nat.pow_eq]
  rcases Nat.lt_trichotomy e 2045 with he | he | he
  · have := hsmall (by omega)
    omega
  · have := hlast he
    omega
  · have := hbig he
    omega

/-! ## Decimals -/

theorem ofUnits_of_lt_half (negative : Bool) (num den : Nat) (h : 2 * num < den) :
    ofUnits negative num den = zero negative := by
  have hlt : num < den := by omega
  have hround : roundHalfEven num den = 0 := by
    unfold roundHalfEven
    simp only [Nat.div_eq_of_lt hlt, Nat.mod_eq_of_lt hlt]
    rw [if_pos (Or.inl h)]
  unfold ofUnits
  simp only [Nat.div_eq_of_lt hlt]
  rw [show Nat.log2 0 - 52 = 0 from rfl, Nat.pow_eq, Nat.pow_zero, Nat.mul_one, hround]
  exact pack_of_canonical negative .zero

theorem ofUnits_cases (negative : Bool) (num den : Nat) :
    (∃ m, ofUnits negative num den = .finite negative m) ∨
      ofUnits negative num den = .infinite negative := by
  unfold ofUnits pack
  simp only
  split
  · exact Or.inl ⟨_, rfl⟩
  · split
    · exact Or.inl ⟨_, rfl⟩
    · exact Or.inr rfl

theorem exists_of_isFinite_ofUnits (negative : Bool) (num den : Nat)
    (h : (ofUnits negative num den).isFinite = true) :
    ∃ m, ofUnits negative num den = .finite negative m := by
  rcases ofUnits_cases negative num den with hm | hinf
  · exact hm
  · rw [hinf] at h
    cases h

theorem ofUnits_of_not_isFinite (negative : Bool) (num den : Nat)
    (h : ¬ (ofUnits negative num den).isFinite = true) :
    ofUnits negative num den = .infinite negative := by
  rcases ofUnits_cases negative num den with ⟨m, hm⟩ | hinf
  · rw [hm] at h
    exact absurd rfl h
  · exact hinf

theorem two_pow_le_ten_pow (k n : Nat) (h : k ≤ 3 * n) : 2 ^ k ≤ 10 ^ n :=
  calc 2 ^ k ≤ 2 ^ (3 * n) := Nat.pow_le_pow_right (by decide) h
    _ = 8 ^ n := Nat.pow_mul 2 3 n
    _ ≤ 10 ^ n := Nat.pow_le_pow_left (by decide) n

/-- A decimal with an exponent far up, in units of `2 ^ -k`, is beyond a number of `a + 54` bits. -/
theorem overflow_of_far (a b k c up : Nat) (hbits : a + 54 = b + k) (hc : c ≠ 0) (h : b ≤ 3 * up) :
    2 ^ a * (2 ^ 54 - 1) ≤ c * 10 ^ up * Nat.pow 2 k :=
  calc 2 ^ a * (2 ^ 54 - 1) ≤ 2 ^ a * 2 ^ 54 := Nat.mul_le_mul_left _ (by decide)
    _ = 2 ^ b * 2 ^ k := by rw [← Nat.pow_add, ← Nat.pow_add, hbits]
    _ ≤ 10 ^ up * 2 ^ k := Nat.mul_le_mul_right _ (two_pow_le_ten_pow b up h)
    _ ≤ c * 10 ^ up * 2 ^ k :=
      Nat.mul_le_mul_right _ (Nat.le_mul_of_pos_left _ (Nat.pos_of_ne_zero hc))

/-- A decimal with an exponent far down is less than half a unit of `2 ^ -k`. -/
theorem underflow_of_far (k c down : Nat) (h : c.log2 + (k + 2) ≤ 3 * (down + 1)) :
    2 * (c * Nat.pow 2 k) < 10 ^ (down + 1) :=
  calc 2 * (c * 2 ^ k) = c * 2 ^ (k + 1) := by ring
    _ < 2 ^ (c.log2 + 1) * 2 ^ (k + 1) :=
      Nat.mul_lt_mul_of_pos_right Nat.lt_log2_self (Nat.two_pow_pos _)
    _ = 2 ^ (c.log2 + (k + 2)) := by ring
    _ ≤ 10 ^ (down + 1) := two_pow_le_ten_pow _ _ h

/-- A decimal is rounded as the fraction of units that it is, far exponents included. -/
theorem ofDecimal_eq_ofUnits (negative : Bool) (c : Nat) (p : Int) :
    ofDecimal negative c p =
      ofUnits negative (c * 10 ^ p.toNat * Nat.pow 2 1074) (10 ^ (-p).toNat) := by
  unfold ofDecimal
  -- a variable for the exponent, so that the power is never evaluated
  generalize hk : 1074 = k
  by_cases hc : c = 0
  · rw [if_pos hc, hc, Nat.zero_mul, Nat.zero_mul]
    exact (ofUnits_of_lt_half _ _ _ (Nat.pow_pos (by decide))).symm
  rw [if_neg hc]
  cases p with
  | ofNat up =>
    dsimp only
    rw [show (Int.ofNat up).toNat = up from rfl, show (-Int.ofNat up).toNat = 0 by simp, Nat.pow_zero]
    split
    · next hfar =>
      rw [ofUnits_of_not_isFinite]
      rw [isFinite_ofUnits_iff _ _ _ (by decide), Nat.not_lt, Nat.one_mul]
      exact overflow_of_far 2044 1024 k c up (by omega) hc hfar
    · rfl
  | negSucc down =>
    dsimp only
    rw [show (Int.negSucc down).toNat = 0 from rfl, show (-Int.negSucc down).toNat = down + 1 from rfl,
      Nat.pow_zero, Nat.mul_one]
    split
    · next hfar =>
      rw [ofUnits_of_lt_half]
      exact underflow_of_far k c down (by omega)
    · rfl

/-- Zeros at the end of a coefficient may go to the exponent. -/
theorem ofDecimal_mul_pow (negative : Bool) (c k : Nat) (p : Int) :
    ofDecimal negative (c * 10 ^ k) p = ofDecimal negative c (p + k) := by
  rw [ofDecimal_eq_ofUnits, ofDecimal_eq_ofUnits]
  generalize Nat.pow 2 1074 = unit
  apply ofUnits_congr _ _ _ _ _ (Nat.pow_pos (by decide)) (Nat.pow_pos (by decide))
  have hexp : k + p.toNat + (-(p + k)).toNat = (p + k).toNat + (-p).toNat := by omega
  calc c * 10 ^ k * 10 ^ p.toNat * unit * 10 ^ (-(p + k)).toNat
      = c * unit * 10 ^ (k + p.toNat + (-(p + k)).toNat) := by rw [Nat.pow_add, Nat.pow_add]; ring
    _ = c * 10 ^ (p + k).toNat * unit * 10 ^ (-p).toNat := by rw [hexp, Nat.pow_add]; ring

theorem two_pow_mul_sub (a b c d k : Nat) (hab : a + b = c + k) (ha : a = d + k) :
    2 ^ a * (2 ^ b - 1) = (2 ^ c - 2 ^ d) * Nat.pow 2 k := by
  rw [Nat.pow_eq, Nat.mul_sub, Nat.sub_mul, Nat.mul_one, ← Nat.pow_add, ← Nat.pow_add, ← Nat.pow_add,
    hab, ha]

/-- A decimal is within the format exactly below `2 ^ 1024 - 2 ^ 970`. -/
theorem isFinite_ofDecimal_iff (negative : Bool) (c : Nat) (p : Int) :
    (ofDecimal negative c p).isFinite = true ↔
      c * 10 ^ p.toNat < (2 ^ 1024 - 2 ^ 970) * 10 ^ (-p).toNat := by
  rw [ofDecimal_eq_ofUnits, isFinite_ofUnits_iff _ _ _ (Nat.pow_pos (by decide))]
  generalize hk : 1074 = k
  rw [Nat.mul_assoc (10 ^ (-p).toNat), two_pow_mul_sub 2044 54 1024 970 k (by omega) (by omega),
    ← Nat.mul_assoc, Nat.mul_comm (10 ^ (-p).toNat)]
  exact Nat.mul_lt_mul_right (Nat.two_pow_pos k)

theorem ofDecimal_eq_finite_iff (negative : Bool) (c : Nat) (p : Int) (m : Magnitude) :
    ofDecimal negative c p = .finite negative m ↔ ofDecimal false c p = .finite false m := by
  rw [ofDecimal_eq_ofUnits, ofDecimal_eq_ofUnits]
  generalize Nat.pow 2 1074 = unit
  unfold ofUnits pack
  simp only
  split
  · simp
  · split <;> simp

/-! ## The shortest decimal -/

theorem ofDecimal_exact (m : Magnitude) :
    ofDecimal false m.exact.coefficient m.exact.power = .finite false m := by
  rw [← ofUnits_units, ofDecimal_eq_ofUnits]
  apply ofUnits_congr _ _ _ _ _ (Nat.pow_pos (by decide)) (by decide)
  unfold Magnitude.exact Magnitude.units
  generalize 1074 = e
  simp only [Nat.pow_eq]
  split
  · next h =>
    obtain ⟨k, hk⟩ := Nat.exists_eq_add_of_le' h
    rw [hk, Nat.add_sub_cancel, Nat.pow_add 2 k]
    simp only [Int.toNat_zero, Int.neg_zero, Nat.pow_zero]
    ring
  · next h =>
    obtain ⟨k, rfl⟩ := Nat.exists_eq_add_of_lt (Nat.not_le.mp h)
    have hsub : m.scale + k + 1 - m.scale = k + 1 := by omega
    rw [hsub, Nat.add_assoc, Nat.pow_add 2 m.scale]
    have hup : (Int.negOfNat (k + 1)).toNat = 0 := rfl
    have hdown : (-Int.negOfNat (k + 1)).toNat = k + 1 := rfl
    simp only [hup, hdown, Nat.pow_zero, Nat.mul_one]
    rw [show 10 = 5 * 2 by rfl, Nat.mul_pow]
    ring

theorem isReadFrom_onGrid (m : Magnitude) (places : Nat) (d : Decimal)
    (h : m.onGrid places = some d) : m.isReadFrom d = true := by
  unfold Magnitude.onGrid at h
  simp only at h
  split at h
  · next hlower =>
    split at h
    · next hupper =>
      -- the nearest point of the grid is one of the two next to the number
      obtain rfl := Option.some.inj h
      rcases roundHalfEven_cases m.exact.coefficient (Nat.pow 10 places) with ⟨hr, -⟩ | ⟨hr, -⟩
      · rw [Decimal.nearest, hr]; exact hlower
      · rw [Decimal.nearest, hr]; exact hupper
    · obtain rfl := Option.some.inj h
      exact hlower
  · split at h
    · next hupper =>
      obtain rfl := Option.some.inj h
      exact hupper
    · cases h

/-- The shortest decimal of a number reads back as the number. -/
theorem ofDecimal_shortest (negative : Bool) (m : Magnitude) :
    ofDecimal negative m.shortest.coefficient m.shortest.power = .finite negative m := by
  rw [ofDecimal_eq_finite_iff]
  unfold Magnitude.shortest
  simp only
  cases h : (List.range 17).findSome? fun count =>
      m.onGrid ((Nat.toDigits 10 m.exact.coefficient).length - (count + 1)) with
  | none => exact ofDecimal_exact m
  | some d =>
    obtain ⟨count, -, hd⟩ := List.exists_of_findSome?_eq_some h
    have := isReadFrom_onGrid m _ d hd
    unfold Magnitude.isReadFrom at this
    exact eq_of_beq this

end ResourceUrl.Binary64
