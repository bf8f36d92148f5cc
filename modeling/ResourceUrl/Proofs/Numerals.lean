import Mathlib.Tactic.Ring
import Mathlib.Tactic.Linarith
import ResourceUrl.Numeral
import ResourceUrl.Proofs.Rounding

/-!
# Written numbers are read back

`Layout.place` lays out the digits of a number in one of three shapes.  Whatever the shape, the
numeral that is read from it denotes the same number (`read?_place`), so that

    read? ((finite negative m).render layout) = some n,   n.toBinary64 = finite negative m
                                                                       (read?_render)

and no text without point and exponent is ever written for a number of the format.  What is read
consists of digits, signs, points and exponent marks only (`isNumeralChar_of_read?`).
-/

namespace ResourceUrl.Numeral

open Binary64

def AreDigits (text : List Char) : Prop := ∀ c ∈ text, c.isDigit = true

def signText (negative : Bool) : List Char := if negative then ['-'] else []

/-- The signs that may stand before a number, and none. -/
def signs : List (List Char) := [[], ['+'], ['-']]

theorem signText_mem_signs (negative : Bool) : signText negative ∈ signs := by
  cases negative <;> simp [signText, signs]

theorem signText_beq (negative : Bool) : (signText negative == ['-']) = negative := by
  cases negative <;> rfl

/-! ## Digits -/

theorem areDigits_append (a b : List Char) : AreDigits (a ++ b) ↔ AreDigits a ∧ AreDigits b := by
  unfold AreDigits
  exact List.forall_mem_append

theorem areDigits_toDigits (n : Nat) : AreDigits (Nat.toDigits 10 n) :=
  fun _ hc => Nat.isDigit_of_mem_toDigits (by decide) (by decide) hc

theorem areDigits_replicate (n : Nat) : AreDigits (List.replicate n '0') := by
  intro c hc
  rw [List.eq_of_mem_replicate hc]
  rfl

theorem takeWhile_isDigit_append (ds rest : List Char) (hd : AreDigits ds)
    (hr : ∀ c ∈ rest.head?, c.isDigit = false) :
    (ds ++ rest).takeWhile Char.isDigit = ds ∧ (ds ++ rest).dropWhile Char.isDigit = rest := by
  rw [List.takeWhile_append_of_pos hd, List.dropWhile_append_of_pos hd]
  cases rest with
  | nil => simp
  | cons c rest =>
    have hc : c.isDigit = false := hr c rfl
    simp [hc]

theorem digits?_of_areDigits (ds : List Char) (hd : AreDigits ds) (hne : ds ≠ []) :
    digits? ds = some (Nat.ofDigitChars 10 ds 0) := by
  unfold digits?
  rw [if_pos ⟨hne, List.all_eq_true.mpr hd⟩]

/-- A sign is taken off a text that does not begin with one itself. -/
theorem takeSign_append (sign rest : List Char) (hs : sign ∈ signs)
    (hr : ∀ c ∈ rest.head?, c ≠ '+' ∧ c ≠ '-') :
    takeSign (sign ++ rest) = (sign == ['-'], rest) := by
  simp only [signs, List.mem_cons, List.not_mem_nil, or_false] at hs
  rcases hs with rfl | rfl | rfl
  · show takeSign rest = (false, rest)
    unfold takeSign
    split
    · exact absurd rfl (hr '+' rfl).1
    · exact absurd rfl (hr '-' rfl).2
    · rfl
  · rfl
  · rfl

/-- Digits, and what follows where there are none, decide how a text begins. -/
theorem head?_digits_append (ds rest : List Char) (hd : AreDigits ds) :
    ∀ c ∈ (ds ++ rest).head?, c.isDigit = true ∨ (ds = [] ∧ c ∈ rest.head?) := by
  cases ds with
  | nil => exact fun c hc => Or.inr ⟨rfl, hc⟩
  | cons d ds =>
    intro c hc
    obtain rfl : d = c := by simpa using hc
    exact Or.inl (hd d List.mem_cons_self)

theorem ne_sign_of_isDigit (c : Char) (h : c.isDigit = true) : c ≠ '+' ∧ c ≠ '-' := by
  constructor <;> (rintro rfl; cases h)

/-! ## Exponents -/

theorem head_exponent? (text : List Char) (e : Option Int) (h : exponent? text = some e) :
    ∀ c ∈ text.head?, c = 'e' ∨ c = 'E' := by
  intro c hc
  cases text with
  | nil => cases hc
  | cons mark rest =>
    obtain rfl : mark = c := by simpa using hc
    rw [exponent?] at h
    by_contra hm
    rw [if_neg hm] at h
    cases h

theorem exponent?_signedExponent (width : Nat) (e : Int) :
    exponent? ('e' :: Layout.signedExponent width e) = some (some e) := by
  unfold exponent? Layout.signedExponent
  have hd : AreDigits (List.replicate (width - (Nat.toDigits 10 e.natAbs).length) '0' ++
      Nat.toDigits 10 e.natAbs) :=
    (areDigits_append _ _).mpr ⟨areDigits_replicate _, areDigits_toDigits _⟩
  have hne : List.replicate (width - (Nat.toDigits 10 e.natAbs).length) '0' ++
      Nat.toDigits 10 e.natAbs ≠ [] := by simp [Nat.toDigits_ne_nil]
  have hval : Nat.ofDigitChars 10 (List.replicate (width - (Nat.toDigits 10 e.natAbs).length) '0' ++
      Nat.toDigits 10 e.natAbs) 0 = e.natAbs := by
    rw [Nat.ofDigitChars_append, Nat.ofDigitChars_replicate_zero, Nat.mul_zero,
      Nat.ofDigitChars_ten_toDigits]
  have hread := digits?_of_areDigits _ hd hne
  rw [hval] at hread
  by_cases he : e < 0
  · simp only [he, ↓reduceIte, takeSign, hread, true_or]
    show some (some (-(e.natAbs : Int))) = _
    rw [show -(e.natAbs : Int) = e by omega]
  · simp only [he, ↓reduceIte, takeSign, hread, true_or]
    show some (some (e.natAbs : Int)) = _
    rw [show (e.natAbs : Int) = e by omega]

/-! ## Whole numerals -/

section
variable (sign whole text : List Char) (e : Option Int) (hs : sign ∈ signs) (hw : AreDigits whole)
  (he : exponent? text = some e)
include hs hw he

theorem read?_signed_integer (hne : whole ≠ []) :
    read? (sign ++ (whole ++ text)) =
      some { negative := sign == ['-'], whole, point := false, fraction := [], exponent := e } := by
  have hhead := head_exponent? text e he
  have hrest : ∀ c ∈ text.head?, c.isDigit = false := by
    intro c hc
    rcases hhead c hc with rfl | rfl <;> rfl
  have hsign : ∀ c ∈ (whole ++ text).head?, c ≠ '+' ∧ c ≠ '-' := by
    intro c hc
    rcases head?_digits_append whole text hw c hc with hd | ⟨hnil, -⟩
    · exact ne_sign_of_isDigit c hd
    · exact absurd hnil hne
  obtain ⟨htake, hdrop⟩ := takeWhile_isDigit_append whole text hw hrest
  have hfraction : takeFraction text = (false, [], text) := by
    unfold takeFraction
    split
    · rcases hhead '.' rfl with h | h <;> cases h
    · rfl
  unfold read?
  rw [takeSign_append sign _ hs hsign]
  simp only [htake, hdrop, hfraction, he, hne, false_and, ↓reduceIte, Option.map_some]

theorem read?_signed_point (fraction : List Char) (hf : AreDigits fraction)
    (hne : ¬ (whole = [] ∧ fraction = [])) :
    read? (sign ++ (whole ++ '.' :: (fraction ++ text))) =
      some { negative := sign == ['-'], whole, point := true, fraction, exponent := e } := by
  have hrest : ∀ c ∈ text.head?, c.isDigit = false := by
    intro c hc
    rcases head_exponent? text e he c hc with rfl | rfl <;> rfl
  have hpoint : ∀ c ∈ ('.' :: (fraction ++ text)).head?, c = '.' := by
    intro c hc
    simpa [eq_comm] using hc
  have hsign : ∀ c ∈ (whole ++ '.' :: (fraction ++ text)).head?, c ≠ '+' ∧ c ≠ '-' := by
    intro c hc
    rcases head?_digits_append whole _ hw c hc with hd | ⟨-, hc⟩
    · exact ne_sign_of_isDigit c hd
    · rw [hpoint c hc]
      decide
  obtain ⟨htake, hdrop⟩ := takeWhile_isDigit_append whole ('.' :: (fraction ++ text)) hw (by
    intro c hc
    rw [hpoint c hc]
    rfl)
  obtain ⟨hftake, hfdrop⟩ := takeWhile_isDigit_append fraction text hf hrest
  unfold read?
  rw [takeSign_append sign _ hs hsign]
  simp only [htake, hdrop, takeFraction, hftake, hfdrop, he, hne, ↓reduceIte, Option.map_some]

end

theorem read?_integer (negative : Bool) (whole text : List Char) (e : Option Int)
    (hw : AreDigits whole) (hne : whole ≠ []) (he : exponent? text = some e) :
    read? (signText negative ++ (whole ++ text)) =
      some { negative, whole, point := false, fraction := [], exponent := e } := by
  rw [read?_signed_integer _ whole text e (signText_mem_signs negative) hw he hne, signText_beq]

theorem read?_of_areDigits (digits : List Char) (hd : AreDigits digits) (hne : digits ≠ []) :
    read? digits =
      some { negative := false, whole := digits, point := false, fraction := [], exponent := none } := by
  simpa [signText] using read?_integer false digits [] none hd hne rfl

theorem read?_point (negative : Bool) (whole fraction text : List Char) (e : Option Int)
    (hw : AreDigits whole) (hne : whole ≠ []) (hf : AreDigits fraction)
    (he : exponent? text = some e) :
    read? (signText negative ++ (whole ++ '.' :: (fraction ++ text))) =
      some { negative, whole, point := true, fraction, exponent := e } := by
  rw [read?_signed_point _ whole text e (signText_mem_signs negative) hw he fraction hf
    (fun h => hne h.1), signText_beq]

/-! ## Layouts -/

/-- The numeral `n` is written with a point or an exponent and denotes
`± ofDigitChars 10 ds 0 * 10 ^ (e + 1 - ds.length)`: possibly with zeros after the digits `ds`, which the
power makes up for. -/
def Denotes (n : Numeral) (negative : Bool) (ds : List Char) (e : Int) : Prop :=
  n.negative = negative ∧ n.isInteger = false ∧
    ∃ zeros : Nat, n.coefficient = Nat.ofDigitChars 10 ds 0 * 10 ^ zeros ∧
      n.power + zeros = e + 1 - ds.length

theorem ofDigitChars_append_zeros (ds : List Char) (k : Nat) :
    Nat.ofDigitChars 10 (ds ++ List.replicate k '0') 0 = Nat.ofDigitChars 10 ds 0 * 10 ^ k := by
  rw [Nat.ofDigitChars_append, Nat.ofDigitChars_replicate_zero, Nat.mul_comm]

theorem ofDigitChars_zeros_append (ds : List Char) (k : Nat) :
    Nat.ofDigitChars 10 (List.replicate k '0' ++ ds) 0 = Nat.ofDigitChars 10 ds 0 := by
  rw [Nat.ofDigitChars_append, Nat.ofDigitChars_replicate_zero, Nat.mul_zero]

theorem read?_positional (negative : Bool) (ds : List Char) (e : Int) (hd : AreDigits ds)
    (hne : ds ≠ []) :
    ∃ n, read? (signText negative ++ Layout.positional ds e) = some n ∧ n.Denotes negative ds e := by
  have hlen : 0 < ds.length := List.length_pos_iff.mpr hne
  cases e with
  | ofNat up =>
    unfold Layout.positional
    by_cases hlong : ds.length ≤ up + 1
    · -- all digits stand before the point, with zeros to reach it
      have hwhole : (ds ++ List.replicate (up + 1 - ds.length) '0').take (up + 1) =
          ds ++ List.replicate (up + 1 - ds.length) '0' :=
        List.take_of_length_le (by simp; omega)
      have hw : AreDigits (ds ++ List.replicate (up + 1 - ds.length) '0') :=
        (areDigits_append _ _).mpr ⟨hd, areDigits_replicate _⟩
      have hfraction : ds.drop (up + 1) = [] := List.drop_eq_nil_of_le hlong
      have h := read?_point negative _ ['0'] [] none hw (by simp [hne]) (areDigits_replicate 1) rfl
      simp only [hwhole, hfraction, List.isEmpty_nil, ↓reduceIte]
      refine ⟨_, h, rfl, rfl, up + 1 - ds.length + 1, ?_, ?_⟩
      · unfold coefficient
        simp only [List.append_assoc]
        rw [show ['0'] = List.replicate 1 '0' from rfl, List.replicate_append_replicate,
          ofDigitChars_append_zeros]
      · simp only [power, List.length_singleton, Option.getD_none, Int.ofNat_eq_natCast]
        omega
    · have hpad : up + 1 - ds.length = 0 := by omega
      have hfraction : ds.drop (up + 1) ≠ [] := by
        intro h
        exact hlong (List.drop_eq_nil_iff.mp h)
      have hsplit : AreDigits (ds.take (up + 1)) ∧ AreDigits (ds.drop (up + 1)) := by
        rw [← areDigits_append, List.take_append_drop]; exact hd
      have hwne : ds.take (up + 1) ≠ [] := by simp [hne]
      have h := read?_point negative _ (ds.drop (up + 1)) [] none hsplit.1 hwne hsplit.2 rfl
      rw [List.append_nil] at h
      simp only [hpad, List.replicate_zero, List.append_nil, List.isEmpty_iff, hfraction, ↓reduceIte]
      refine ⟨_, h, rfl, rfl, 0, ?_, ?_⟩
      · unfold coefficient
        rw [List.take_append_drop, Nat.pow_zero, Nat.mul_one]
      · simp only [power, List.length_drop, Option.getD_none, Int.ofNat_eq_natCast]
        omega
  | negSucc down =>
    have hf : AreDigits (List.replicate down '0' ++ ds) :=
      (areDigits_append _ _).mpr ⟨areDigits_replicate _, hd⟩
    have h := read?_point negative ['0'] _ [] none (areDigits_replicate 1) (by simp) hf rfl
    rw [List.append_nil] at h
    refine ⟨_, h, rfl, rfl, 0, ?_, ?_⟩
    · unfold coefficient
      rw [← List.append_assoc, show ['0'] = List.replicate 1 '0' from rfl,
        List.replicate_append_replicate, ofDigitChars_zeros_append, Nat.pow_zero, Nat.mul_one]
    · simp only [power, List.length_append, List.length_replicate, Option.getD_none]
      omega

theorem read?_scientific (negative : Bool) (width : Nat) (ds : List Char) (e : Int)
    (hd : AreDigits ds) (hne : ds ≠ []) :
    ∃ n, read? (signText negative ++ Layout.scientific width ds e) = some n ∧
      n.Denotes negative ds e := by
  obtain ⟨d, rest, rfl⟩ := List.exists_cons_of_ne_nil hne
  have hexp := exponent?_signedExponent width e
  obtain ⟨hw, hf⟩ := (areDigits_append [d] rest).mp hd
  unfold Layout.scientific
  cases rest with
  | nil =>
    have h := read?_integer negative [d] _ _ hw (by simp) hexp
    refine ⟨_, h, rfl, rfl, 0, ?_, ?_⟩
    · simp [coefficient]
    · simp [power]
  | cons d' rest =>
    have h := read?_point negative [d] _ _ _ hw (by simp) hf hexp
    refine ⟨_, h, rfl, rfl, 0, ?_, ?_⟩
    · simp [coefficient]
    · simp [power]

theorem read?_place (layout : Layout) (negative : Bool) (ds : List Char) (e : Int)
    (hd : AreDigits ds) (hne : ds ≠ []) :
    ∃ n, read? (signText negative ++ layout.place ds e) = some n ∧ n.Denotes negative ds e := by
  unfold Layout.place
  split
  · exact read?_positional negative ds e hd hne
  · exact read?_scientific negative layout.width ds e hd hne

/-! ## Numbers of the format -/

theorem eq_append_zeros (text : List Char) :
    ∃ zeros, text = (text.reverse.dropWhile (· == '0')).reverse ++ List.replicate zeros '0' := by
  have hsplit := List.takeWhile_append_dropWhile (p := (· == '0')) (l := text.reverse)
  have hzeros : text.reverse.takeWhile (· == '0') =
      List.replicate (text.reverse.takeWhile (· == '0')).length '0' := by
    rw [List.eq_replicate_iff]
    refine ⟨rfl, fun c hc => ?_⟩
    simpa using List.all_eq_true.mp List.all_takeWhile c hc
  refine ⟨(text.reverse.takeWhile (· == '0')).length, ?_⟩
  rw [← List.reverse_inj, List.reverse_append, List.reverse_reverse, List.reverse_replicate,
    ← hzeros, hsplit]

/-- The digits of a decimal, with the zeros that were dropped, are those of its coefficient. -/
theorem digits_spec (d : Decimal) :
    AreDigits d.digits ∧ d.digits ≠ [] ∧ ∃ zeros : Nat,
      d.coefficient = Nat.ofDigitChars 10 d.digits 0 * 10 ^ zeros ∧
      (Nat.toDigits 10 d.coefficient).length = d.digits.length + zeros := by
  obtain ⟨zeros, hz⟩ := eq_append_zeros (Nat.toDigits 10 d.coefficient)
  have hall : AreDigits (((Nat.toDigits 10 d.coefficient).reverse.dropWhile (· == '0')).reverse) := by
    have := areDigits_toDigits d.coefficient
    rw [hz, areDigits_append] at this
    exact this.1
  have hval := Nat.ofDigitChars_ten_toDigits (n := d.coefficient)
  have hlen := congrArg List.length hz
  rw [hz, ofDigitChars_append_zeros] at hval
  rw [List.length_append, List.length_replicate] at hlen
  unfold Decimal.digits
  split
  · next hnil =>
    -- nothing but zeros: one of them is kept
    rw [hnil] at hval hlen
    have hpos := Nat.length_toDigits_pos (b := 10) (n := d.coefficient)
    refine ⟨areDigits_replicate 1, by simp, zeros - 1, ?_, ?_⟩
    · rw [← hval, Nat.ofDigitChars_nil, Nat.zero_mul]; simp [Nat.ofDigitChars]
    · simp at hlen ⊢; omega
  · next hne => exact ⟨hall, hne, zeros, hval.symm, hlen⟩

theorem toBinary64_of_denotes (n : Numeral) (negative : Bool) (ds : List Char) (e : Int)
    (h : n.Denotes negative ds e) :
    n.toBinary64 = ofDecimal negative (Nat.ofDigitChars 10 ds 0) (e + 1 - ds.length) := by
  obtain ⟨rfl, -, zeros, hc, hp⟩ := h
  rw [toBinary64, hc, ofDecimal_mul_pow, hp]

theorem eq_zero_of_significand (m : Magnitude) (h : m.significand = 0) : m = .zero := by
  obtain ⟨s, e, hlt, hle, hc⟩ := m
  obtain rfl : s = 0 := h
  have : e = 0 := hc.resolve_right (by decide)
  subst this
  rfl

/-- A number of the format is read back from its text, whatever the layout. -/
theorem read?_render (layout : Layout) (negative : Bool) (m : Magnitude) :
    ∃ n, read? (render layout (.finite negative m)) = some n ∧ n.isInteger = false ∧
      n.toBinary64 = .finite negative m := by
  have htext : render layout (.finite negative m) = signText negative ++
      (if m.significand = 0 then layout.place ['0'] 0
      else layout.place m.shortest.digits m.shortest.exponent) := rfl
  rw [htext]
  by_cases hs : m.significand = 0
  · obtain ⟨n, hread, hden⟩ := read?_place layout negative ['0'] 0 (areDigits_replicate 1) (by simp)
    refine ⟨n, by rw [if_pos hs]; exact hread, hden.2.1, ?_⟩
    rw [toBinary64_of_denotes n _ _ _ hden, eq_zero_of_significand m hs]
    rfl
  · obtain ⟨hd, hne, zeros, hc, hlen⟩ := digits_spec m.shortest
    obtain ⟨n, hread, hden⟩ := read?_place layout negative m.shortest.digits m.shortest.exponent hd hne
    refine ⟨n, by rw [if_neg hs]; exact hread, hden.2.1, ?_⟩
    have hexp : m.shortest.exponent + 1 - m.shortest.digits.length = m.shortest.power + zeros := by
      unfold Decimal.exponent
      omega
    rw [toBinary64_of_denotes n _ _ _ hden, hexp, ← ofDecimal_mul_pow, ← hc, ofDecimal_shortest]

/-! ## Characters -/

def isNumeralChar (c : Char) : Bool :=
  c.isDigit || c == '+' || c == '-' || c == '.' || c == 'e' || c == 'E'

theorem mem_takeSign (text : List Char) (c : Char) (h : c ∈ text) :
    c ∈ (takeSign text).2 ∨ isNumeralChar c = true := by
  unfold takeSign
  split
  · rcases List.mem_cons.mp h with rfl | h
    · exact Or.inr rfl
    · exact Or.inl h
  · rcases List.mem_cons.mp h with rfl | h
    · exact Or.inr rfl
    · exact Or.inl h
  · exact Or.inl h

theorem mem_span_isDigit (text : List Char) (c : Char) (h : c ∈ text) :
    c ∈ text.dropWhile Char.isDigit ∨ isNumeralChar c = true := by
  rw [← List.takeWhile_append_dropWhile (p := Char.isDigit) (l := text)] at h
  rcases List.mem_append.mp h with h | h
  · right
    have hd : c.isDigit = true := List.all_eq_true.mp List.all_takeWhile c h
    simp [isNumeralChar, hd]
  · exact Or.inl h

theorem mem_takeFraction (text : List Char) (c : Char) (h : c ∈ text) :
    c ∈ (takeFraction text).2.2 ∨ isNumeralChar c = true := by
  unfold takeFraction
  split
  · rcases List.mem_cons.mp h with rfl | h
    · exact Or.inr rfl
    · exact mem_span_isDigit _ c h
  · exact Or.inl h

theorem isNumeralChar_of_exponent? (text : List Char) (e : Option Int) (he : exponent? text = some e)
    (c : Char) (h : c ∈ text) : isNumeralChar c = true := by
  cases text with
  | nil => cases h
  | cons mark rest =>
    have hmark := head_exponent? _ e he mark rfl
    rw [exponent?, if_pos hmark] at he
    rcases List.mem_cons.mp h with rfl | h
    · rcases hmark with rfl | rfl <;> rfl
    · rcases mem_takeSign rest c h with h | h
      · have hd : (takeSign rest).2.all Char.isDigit = true := by
          by_contra hd
          simp [digits?, hd] at he
        simp [isNumeralChar, List.all_eq_true.mp hd c h]
      · exact h

theorem isNumeralChar_of_read? (text : List Char) (n : Numeral) (hn : read? text = some n)
    (c : Char) (h : c ∈ text) : isNumeralChar c = true := by
  unfold read? at hn
  simp only at hn
  split at hn
  · cases hn
  · obtain ⟨e, he, -⟩ := Option.map_eq_some_iff.mp hn
    rcases mem_takeSign text c h with h | h
    · rcases mem_span_isDigit _ c h with h | h
      · rcases mem_takeFraction _ c h with h | h
        · exact isNumeralChar_of_exponent? _ e he c h
        · exact h
      · exact h
    · exact h

end ResourceUrl.Numeral
