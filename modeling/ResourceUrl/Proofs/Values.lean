import Mathlib.Tactic.Ring
import ResourceUrl.Proofs.Numerals
import ResourceUrl.Proofs.Text
import ResourceUrl.Value.Reader

/-!
# Values that are read and written

`Value.IsReadable` says which values reading a raw text can give: null, the integers and numbers
within the format, and the texts that are neither null nor a number.  These are also the values that
are read back from their own text:

    Value.read raw = .ok v  →  v.IsReadable                            (isReadable_of_read)
    v.IsReadable  →  Value.read v.render = .ok v                       (read_render)

What a raw text is read as has one case for each kind of value (`isReadFrom_of_read`), and it is
refused only when it is an integer of too many digits (`read_eq_error_iff`).
-/

namespace ResourceUrl

/-! ## Numerals in a text -/

theorem Numeral.isBlank_of_isNumeralChar (c : Char) (h : isNumeralChar c = true) :
    Text.isBlank c = false := by
  simp only [isNumeralChar, Bool.or_eq_true, beq_iff_eq] at h
  rcases h with ((((h | rfl) | rfl) | rfl) | rfl) | rfl
  · have := Text.toNat_of_isAlphanum c (by simp [Char.isAlphanum, h])
    exact Text.isBlank_of_toNat c (by omega) (by omega)
  all_goals decide

theorem Numeral.ofText?_of_read? (text : List Char) (n : Numeral) (h : read? text = some n)
    (hfin : n.toBinary64.isFinite = true) : ofText? (.ofList text) = some n := by
  have hblank : ∀ c ∈ text, Text.isBlank c = false := fun c hc =>
    isBlank_of_isNumeralChar c (isNumeralChar_of_read? text n h c hc)
  have htrim : Text.trim text = text := Text.trim_eq_self text
    (fun c hc => hblank c (List.mem_of_mem_head? hc))
    (fun c hc => hblank c (List.mem_of_getLast? hc))
  rw [ofText?, String.toList_ofList, htrim, h]
  simp [Option.filter, hfin]

theorem Numeral.takeFraction_of_no_point (text : List Char) (h : (takeFraction text).1 = false) :
    takeFraction text = (false, [], text) := by
  revert h
  unfold takeFraction
  split
  · intro h; cases h
  · intro _; rfl

theorem Numeral.eq_nil_of_exponent? (text : List Char) (h : exponent? text = some none) :
    text = [] := by
  cases text with
  | nil => rfl
  | cons mark rest =>
    rw [exponent?] at h
    split at h
    · obtain ⟨n, -, hn⟩ := Option.map_eq_some_iff.mp h
      cases hn
    · cases h

/-- A numeral without point and exponent is what stands after the sign. -/
theorem Numeral.parts_of_isInteger (text : List Char) (n : Numeral) (h : read? text = some n)
    (hi : n.isInteger = true) :
    n.whole = (takeSign text).2 ∧ n.whole ≠ [] ∧ AreDigits n.whole ∧ n.fraction = [] ∧
      n.exponent = none := by
  unfold read? at h
  simp only at h
  split at h
  · cases h
  · next hdigits =>
    obtain ⟨e, he, rfl⟩ := Option.map_eq_some_iff.mp h
    simp only [isInteger, Bool.and_eq_true, Bool.not_eq_true', Option.isNone_iff_eq_none] at hi
    obtain ⟨hpoint, rfl⟩ := hi
    have hrest := takeFraction_of_no_point _ hpoint
    rw [hrest] at he
    have hnil : (takeSign text).2.dropWhile Char.isDigit = [] := eq_nil_of_exponent? _ he
    refine ⟨?_, fun hw => hdigits ⟨hw, by rw [hrest]⟩, List.all_eq_true.mp List.all_takeWhile,
      by rw [hrest], rfl⟩
    have hspan := List.takeWhile_append_dropWhile (p := Char.isDigit) (l := (takeSign text).2)
    rwa [hnil, List.append_nil] at hspan

theorem Numeral.exists_sign (text : List Char) :
    ∃ sign ∈ signs, text = sign ++ (takeSign text).2 ∧ (takeSign text).1 = (sign == ['-']) := by
  unfold takeSign signs
  split
  · exact ⟨['+'], by simp, rfl, rfl⟩
  · exact ⟨['-'], by simp, rfl, rfl⟩
  · exact ⟨[], by simp, rfl, rfl⟩

theorem Numeral.natAbs_toInt (n : Numeral) : n.toInt.natAbs = n.coefficient := by
  unfold toInt
  split <;> simp

/-- An integer is within the format exactly below the bound. -/
theorem Numeral.isFinite_of_isInteger (text : List Char) (n : Numeral) (h : read? text = some n)
    (hi : n.isInteger = true) :
    n.toBinary64.isFinite = true ↔ n.toInt.natAbs < 2 ^ 1024 - 2 ^ 970 := by
  obtain ⟨-, -, -, hf, he⟩ := parts_of_isInteger text n h hi
  have hpower : n.power = 0 := by simp [power, hf, he]
  rw [toBinary64, Binary64.isFinite_ofDecimal_iff, hpower, natAbs_toInt, Int.neg_zero, Int.toNat_zero,
    Nat.pow_zero, Nat.mul_one, Nat.mul_one]

/-- The text of an integer within the format: its digits, with or without a sign. -/
structure Numeral.IsIntegerText (text digits : List Char) : Prop where
  signed : ∃ sign ∈ signs, text = sign ++ digits
  ne_nil : digits ≠ []
  are_digits : AreDigits digits
  finite : Nat.ofDigitChars 10 digits 0 < 2 ^ 1024 - 2 ^ 970

/-- What reads as an integer is the text of one, blanks around it apart. -/
theorem Numeral.ofText?_isInteger_iff (text : String) (digits : List Char) :
    (∃ n, ofText? text = some n ∧ n.isInteger = true ∧ n.whole = digits) ↔
      IsIntegerText (Text.trim text.toList) digits := by
  constructor
  · rintro ⟨n, hn, hi, rfl⟩
    obtain ⟨hread, hfin⟩ := Option.filter_eq_some_iff.mp hn
    obtain ⟨hwhole, hne, hd, hfraction, -⟩ := parts_of_isInteger _ n hread hi
    have hbound := (isFinite_of_isInteger _ n hread hi).mp hfin
    rw [natAbs_toInt, coefficient, hfraction, List.append_nil] at hbound
    refine ⟨?_, hne, hd, hbound⟩
    obtain ⟨sign, hs, htext, -⟩ := exists_sign (Text.trim text.toList)
    rw [hwhole]
    exact ⟨sign, hs, htext⟩
  · rintro ⟨⟨sign, hs, htext⟩, hne, hd, hbound⟩
    have hread := read?_signed_integer sign digits [] none hs hd rfl hne
    rw [List.append_nil, ← htext] at hread
    have hfin := isFinite_of_isInteger _ _ hread rfl
    rw [natAbs_toInt, coefficient, List.append_nil] at hfin
    exact ⟨_, Option.filter_eq_some_iff.mpr ⟨hread, hfin.mpr hbound⟩, rfl, rfl⟩

namespace Value

/-- The values that reading a raw text can give. -/
def IsReadable : Value → Prop
  | .null => True
  | .int n => n.natAbs < 2 ^ 1024 - 2 ^ 970
  | .float x => x.isFinite = true
  | .text s => s ≠ "null" ∧ isNumeric s = false

/-! ## What is read -/

/-- What a raw text is read as, one case for each kind of value. -/
inductive IsReadFrom (raw : String) : Value → Prop
  | null : raw = "null" → IsReadFrom raw .null
  | text : raw ≠ "null" → Numeral.ofText? raw = none → IsReadFrom raw (.text raw)
  | int {n : Numeral} : Numeral.ofText? raw = some n → n.isInteger = true →
      n.whole.length ≤ Fault.digitLimit → IsReadFrom raw (.int n.toInt)
  | float {n : Numeral} : Numeral.ofText? raw = some n → n.isInteger = false →
      IsReadFrom raw (.float n.toBinary64)

theorem isReadFrom_of_read (raw : String) (v : Value) (h : read raw = .ok v) : IsReadFrom raw v := by
  unfold read at h
  split at h
  · next hnull =>
    obtain rfl := Except.ok.inj h
    exact .null hnull
  · next hnull =>
    cases hn : Numeral.ofText? raw with
    | none =>
      rw [hn] at h
      obtain rfl := Except.ok.inj h
      exact .text hnull hn
    | some n =>
      rw [hn] at h
      dsimp only at h
      split at h
      · next hi =>
        unfold integerOf at h
        split at h
        · next hlen =>
          obtain rfl := Except.ok.inj h
          exact .int hn hi hlen
        · cases h
      · next hi =>
        obtain rfl := Except.ok.inj h
        exact .float hn (Bool.eq_false_of_not_eq_true hi)

/-- What is read is readable, and a text is read as itself only. -/
theorem isReadable_of_read (raw : String) (v : Value) (h : read raw = .ok v) :
    v.IsReadable ∧ ∀ s, v = .text s → s = raw := by
  cases isReadFrom_of_read raw v h with
  | null hnull => exact ⟨trivial, fun s hs => by cases hs⟩
  | text hnull hn =>
    refine ⟨⟨hnull, ?_⟩, fun s hs => by cases hs; rfl⟩
    rw [isNumeric, hn]
    rfl
  | @int n hn hi hlen =>
    obtain ⟨hread, hfin⟩ := Option.filter_eq_some_iff.mp hn
    exact ⟨(Numeral.isFinite_of_isInteger _ n hread hi).mp hfin, fun s hs => by cases hs⟩
  | float hn hi => exact ⟨(Option.filter_eq_some_iff.mp hn).2, fun s hs => by cases hs⟩

theorem read_eq_error_iff (raw : String) (fault : Fault) :
    read raw = .error fault ↔
      ∃ n, Numeral.ofText? raw = some n ∧ n.isInteger = true ∧ Fault.digitLimit < n.whole.length ∧
        fault = .tooManyDigits n.whole.length := by
  have hnull : Numeral.ofText? "null" = none := rfl
  unfold read
  split
  · next h =>
    subst h
    simp [hnull]
  · cases Numeral.ofText? raw with
    | none => simp
    | some n =>
      constructor
      · intro h
        dsimp only at h
        split at h
        · next hi =>
          unfold integerOf at h
          split at h
          · cases h
          · next hlen => exact ⟨n, rfl, hi, Nat.lt_of_not_le hlen, (Except.error.inj h).symm⟩
        · cases h
      · rintro ⟨k, hk, hi, hlen, rfl⟩
        obtain rfl := Option.some.inj hk
        dsimp only
        rw [if_pos hi, integerOf, if_neg (Nat.not_le_of_lt hlen)]
        rfl

/-! ## What is written -/

theorem integerText_eq (n : Int) :
    integerText n = Numeral.signText (n < 0) ++ (Nat.toDigits 10 n.natAbs ++ []) := by
  rw [List.append_nil]
  cases n with
  | ofNat n => simp [integerText, Numeral.signText]
  | negSucc n => simp [integerText, Numeral.signText]

theorem read?_integerText (n : Int) :
    ∃ k, Numeral.read? (integerText n) = some k ∧ k.isInteger = true ∧ k.toInt = n ∧
      k.whole = Nat.toDigits 10 n.natAbs := by
  rw [integerText_eq]
  refine ⟨_, Numeral.read?_integer _ _ [] none (Numeral.areDigits_toDigits _) Nat.toDigits_ne_nil rfl,
    rfl, ?_, rfl⟩
  simp only [Numeral.toInt, Numeral.coefficient, List.append_nil, Nat.ofDigitChars_ten_toDigits,
    decide_eq_true_eq]
  split <;> omega

/-- Integers within the format keep far below the digit limit. -/
theorem lt_digitLimit (n : Nat) (h : n < 2 ^ 1024 - 2 ^ 970) : n < 10 ^ Fault.digitLimit := by
  have hpow : 2 ^ 1024 ≤ 10 ^ Fault.digitLimit := Binary64.two_pow_le_ten_pow _ _ (by decide)
  generalize 10 ^ Fault.digitLimit = top at *
  exact Nat.lt_of_lt_of_le h (Nat.le_trans (Nat.sub_le _ _) hpow)

theorem null_ne_of_numeral (text : List Char) (n : Numeral) (h : Numeral.read? text = some n) :
    String.ofList text ≠ "null" := by
  intro he
  obtain rfl : text = ['n', 'u', 'l', 'l'] := by
    have := congrArg String.toList he
    rwa [String.toList_ofList] at this
  cases h

theorem read_of_numeral (text : List Char) (n : Numeral) (h : Numeral.read? text = some n)
    (hfin : n.toBinary64.isFinite = true) :
    read (.ofList text) =
      if n.isInteger then (integerOf n).map .int else .ok (.float n.toBinary64) := by
  rw [read, if_neg (null_ne_of_numeral text n h), Numeral.ofText?_of_read? text n h hfin]

theorem read_render (v : Value) (h : v.IsReadable) : read v.render = .ok v := by
  unfold render
  cases v with
  | null => rfl
  | int n =>
    obtain ⟨k, hread, hi, hint, hwhole⟩ := read?_integerText n
    have hfin : k.toBinary64.isFinite = true := by
      rw [Numeral.isFinite_of_isInteger _ k hread hi, hint]
      exact h
    have hlen : k.whole.length ≤ Fault.digitLimit := by
      rw [hwhole, Nat.length_toDigits_le_iff (by decide) (by decide)]
      exact lt_digitLimit _ h
    rw [characters, read_of_numeral _ k hread hfin, if_pos hi, integerOf, if_pos hlen, hint]
    rfl
  | float x =>
    cases x with
    | nan => cases h
    | infinite negative => cases h
    | finite negative m =>
      obtain ⟨k, hread, hi, hval⟩ := Numeral.read?_render floatLayout negative m
      have hfin : k.toBinary64.isFinite = true := by rw [hval]; rfl
      rw [characters, read_of_numeral _ k hread hfin, hi, hval]
      rfl
  | text s =>
    obtain ⟨hnull, hnum⟩ := h
    have hnone : Numeral.ofText? s = none := by
      rw [isNumeric] at hnum
      exact Option.isNone_iff_eq_none.mp (by simpa using hnum)
    rw [characters, String.ofList_toList, read, if_neg hnull, hnone]

theorem isWritable_of_isReadable (v : Value) (h : v.IsReadable) : v.isWritable = true := by
  cases v with
  | int n =>
    have hlt := lt_digitLimit n.natAbs h
    rw [isWritable]
    generalize Fault.digitLimit = limit at hlt ⊢
    exact decide_eq_true hlt
  | null => rfl
  | float x => rfl
  | text s => rfl

end Value

end ResourceUrl
