import ResourceUrl.Proofs.Dispatch
import ResourceUrl.Proofs.Progress
import ResourceUrl.Query.Attempt

/-!
# Faults that are not parse errors

Reading parameters ends in a query or in a parse error, which an attempt keeps, but for two limits on
numbers.  A value that is an integer may be written with more digits than are read
(`Filter.IsOverlong`), since it is found to be a number without regard to its length; zeros at the
front are enough.  And a bound may be a number whose exponent is beyond exact arithmetic
(`Page.IsOutOfRange`), since it is found to be finite after rounding.

`Options.Escapes` says exactly when that happens, and with which fault: the first parameter that fails
runs into one of the limits.  An attempt returns in all other cases (`Options.attempt_escapes_iff`).
-/

namespace ResourceUrl

/-! ## Filters -/

namespace Filter

/-- The first thing in a source that cannot be read is a condition whose integer has `count` digits,
which are more than are read. -/
def IsOverlong (maxDepth : Int) (source : String) (count : Nat) : Prop :=
  ∃ seen token rest e, tokenize source = .ok (seen ++ token :: rest) ∧
    Passes maxDepth 0 seen e ∧ token.kind = .condition ∧ Condition.IsOverlong token.text count

theorem read_of_isOverlong (mode : Mode) (source : String) (count : Nat)
    (h : IsOverlong mode.maxDepth source count) :
    read mode source = .error (.tooManyDigits count) := by
  obtain ⟨seen, token, rest, e, hts, hp, hk, hlong⟩ := h
  have hr := (Condition.read_eq_error_iff token.text _).mpr (Or.inr ⟨count, hlong, rfl⟩)
  rw [read_of_tokenize mode source _ hts, readGroup_refused mode.maxDepth hp token hk _ hr mode.strict]

theorem isOverlong_of_digits (maxDepth : Int) (source field operator digits : List Char)
    (hs : Condition.split? source = some (field, operator, digits)) (hd : Numeral.AreDigits digits)
    (hfin : Nat.ofDigitChars 10 digits 0 < 2 ^ 1024 - 2 ^ 970)
    (hlong : Fault.digitLimit < digits.length) :
    IsOverlong maxDepth (.ofList source) digits.length := by
  obtain ⟨hsource, hne, hf, -, ho, hdigits, -⟩ := (Condition.split?_eq_some_iff _ _ _ _).mp hs
  have hplain := Value.isPlain_of_numeral digits _ (Numeral.read?_of_areDigits digits hd hdigits)
  have htrim : Text.trim source = source := by
    rw [hsource, Condition.trim_parts field operator digits hne hf hplain]
  have hfree : ∀ c ∈ source, c ∉ Mark.chars := by
    rw [hsource]
    exact Condition.not_mem_parts field operator digits hf ho hplain
  have hnil : Text.trim source ≠ [] := by
    rw [htrim, hsource]
    exact List.append_ne_nil_of_left_ne_nil hne _
  have htokens : tokenize (.ofList source) = .ok [⟨.condition, .ofList source, 0⟩] := by
    rw [tokenize_eq_tokensFrom, String.toList_ofList, tokensFrom_last 0 source hfree hnil, htrim]
  exact ⟨[], ⟨.condition, .ofList source, 0⟩, [], 0, htokens, .nil, rfl,
    Condition.isOverlong_of_digits source field operator digits hs hd hfin hlong⟩

/-- Zeros are enough to reach the limit. -/
theorem isOverlong_zeros (maxDepth : Int) (count : Nat) (h : Fault.digitLimit < count) :
    IsOverlong maxDepth (.ofList ("a[eq]".toList ++ List.replicate count '0')) count := by
  have hne : List.replicate count '0' ≠ [] := by
    have hcount : 0 < count := Nat.zero_lt_of_lt h
    simp [hcount.ne']
  have hsplit : Condition.split? ("a[eq]".toList ++ List.replicate count '0') =
      some (['a'], ['e', 'q'], List.replicate count '0') :=
    (Condition.split?_eq_some_iff _ _ _ _).mpr
      ⟨rfl, by decide, by decide, by decide, by decide, hne, by simp⟩
  have hzero : Nat.ofDigitChars 10 (List.replicate count '0') 0 < 2 ^ 1024 - 2 ^ 970 := by
    have hpow : ∀ a b : Nat, b < a → 0 < 2 ^ a - 2 ^ b := fun a b hab =>
      Nat.sub_pos_of_lt (Nat.pow_lt_pow_right Nat.one_lt_two hab)
    rw [Nat.ofDigitChars_replicate_zero, Nat.mul_zero]
    exact hpow 1024 970 (by decide)
  have hover := isOverlong_of_digits maxDepth _ _ _ _ hsplit (Numeral.areDigits_replicate count) hzero
    (by rwa [List.length_replicate])
  rwa [List.length_replicate] at hover

/-- A filter fails with a parse error or with the digits of its first offence. -/
theorem error_of_read (mode : Mode) (source : String) (fault : Fault)
    (h : read mode source = .error fault) :
    (∃ error, fault = .parse error) ∨
      ∃ count, IsOverlong mode.maxDepth source count ∧ fault = .tooManyDigits count := by
  obtain ⟨strict, maxDepth⟩ := mode
  cases hts : tokenize source with
  | error e =>
    have hread := read_of_tokenize_error ⟨strict, maxDepth⟩ source e hts
    exact Or.inl ⟨e, Except.error.inj (h.symm.trans hread)⟩
  | ok ts =>
    rw [read_of_tokenize _ source ts hts] at h
    cases course maxDepth 0 ts with
    | through hp =>
      obtain ⟨top, outer, -, hrun⟩ := readGroup_append_of_passes maxDepth hp
      have hend := hrun strict []
      rw [List.append_nil] at hend
      rw [hend, run] at h
      split at h
      · exact Or.inl ⟨_, (Except.error.inj h).symm⟩
      · cases h
    | tooDeep hp hk hroom =>
      rw [readGroup_tooDeep maxDepth hp _ hk hroom] at h
      exact Or.inl ⟨_, (Except.error.inj h).symm⟩
    | @refused seen rest token e found hp hk hr =>
      rw [readGroup_refused maxDepth hp token hk found hr] at h
      obtain rfl := Except.error.inj h
      rcases (Condition.read_eq_error_iff token.text found).mp hr with ⟨-, rfl⟩ | ⟨count, hlong, rfl⟩
      · exact Or.inl ⟨_, rfl⟩
      · exact Or.inr ⟨count, ⟨seen, token, rest, e, hts, hp, hk, hlong⟩, rfl⟩
    | closed hp hk =>
      obtain ⟨top, outer, ho, hrun⟩ := readGroup_append_of_passes maxDepth hp
      obtain rfl := List.length_eq_zero_iff.mp ho
      rw [hrun, run_closing _ _ _ _ _ _ hk] at h
      split at h
      · exact Or.inl ⟨_, (Except.error.inj h).symm⟩
      · cases h

end Filter

/-! ## Bounds -/

namespace Page

/-- The value is a finite number, but with an exponent that exact arithmetic does not take. -/
def IsOutOfRange (raw : String) : Prop :=
  ∃ n, Numeral.ofText? raw = some n ∧
    (n.power < leastPower ∨ (n.coefficient = 0 ∧ greatestZeroPower < n.power))

theorem isInRange_eq_false_iff (n : Numeral) :
    isInRange n = false ↔
      n.power < leastPower ∨ (n.coefficient = 0 ∧ greatestZeroPower < n.power) := by
  unfold isInRange
  rw [Bool.and_eq_false_iff, Bool.or_eq_false_iff]
  simp

theorem readBound_of_isOutOfRange (key raw : String) (h : IsOutOfRange raw) :
    readBound key raw = .error .exponentOutOfRange := by
  obtain ⟨n, hn, hrange⟩ := h
  rw [readBound, hn]
  simp [(isInRange_eq_false_iff n).mpr hrange]

theorem error_of_readBound (key raw : String) (fault : Fault) (h : readBound key raw = .error fault) :
    (∃ error, fault = .parse error) ∨ (IsOutOfRange raw ∧ fault = .exponentOutOfRange) := by
  cases hn : Numeral.ofText? raw with
  | none =>
    rw [readBound, hn] at h
    exact Or.inl ⟨_, (Except.error.inj h).symm⟩
  | some n =>
    cases hrange : isInRange n with
    | false =>
      have hout : IsOutOfRange raw := ⟨n, hn, (isInRange_eq_false_iff n).mp hrange⟩
      rw [readBound_of_isOutOfRange key raw hout] at h
      exact Or.inr ⟨hout, (Except.error.inj h).symm⟩
    | true =>
      rw [readBound_of_isInRange key raw n hn hrange] at h
      split at h
      · exact Or.inl ⟨_, (Except.error.inj h).symm⟩
      · cases h

end Page

/-! ## Parameters -/

namespace Options

variable (options : Options)

/-- A parameter that fails with something else than a parse error. -/
inductive Overruns (param : Param) : Fault → Prop
  | digits {count : Nat} : options.role param.key = .filter →
      Filter.IsOverlong options.maxFilterDepth param.value count →
      Overruns param (.tooManyDigits count)
  | exponent : options.role param.key = .limit ∨ options.role param.key = .offset →
      Page.IsOutOfRange param.value → Overruns param .exponentOutOfRange

/-- The first parameter that fails does so with something else than a parse error. -/
def Escapes (params : List Param) (fault : Fault) : Prop :=
  ∃ before param after, params = before ++ param :: after ∧
    (∀ p ∈ before, ∃ change, options.read p = .ok change) ∧ options.Overruns param fault

variable {options}

theorem Overruns.ne_parse {param : Param} {fault : Fault} (h : options.Overruns param fault)
    (error : ParseError) : fault ≠ .parse error := by
  cases h <;> simp

theorem Overruns.read_eq {param : Param} {fault : Fault} (h : options.Overruns param fault) :
    options.read param = .error fault := by
  unfold read
  cases h with
  | digits hr hlong =>
    rw [hr]
    simp only [Filter.read_of_isOverlong options.mode param.value _ hlong]
    rfl
  | exponent hr hrange =>
    have hbound := Page.readBound_of_isOutOfRange param.key param.value hrange
    rcases hr with hr | hr <;> simp only [hr, hbound] <;> rfl

variable (options)

/-- A parameter fails with a parse error or overruns a limit. -/
theorem error_of_read (param : Param) (fault : Fault) (h : options.read param = .error fault) :
    (∃ error, fault = .parse error) ∨ options.Overruns param fault := by
  -- the two bounds fail alike
  have hbound : ∀ make : Nat → Change,
      options.role param.key = .limit ∨ options.role param.key = .offset →
      (Page.readBound param.key param.value).map make = .error fault →
      (∃ error, fault = .parse error) ∨ options.Overruns param fault := by
    intro make hr hmap
    rcases Page.error_of_readBound param.key param.value fault (eq_error_of_map_eq_error _ _ _ hmap) with
      herror | ⟨hrange, rfl⟩
    · exact Or.inl herror
    · exact Or.inr (.exponent hr hrange)
  unfold read at h
  cases hr : options.role param.key with
  | filter =>
    simp only [hr] at h
    rcases Filter.error_of_read options.mode param.value fault (eq_error_of_map_eq_error _ _ _ h) with
      herror | ⟨count, hlong, rfl⟩
    · exact Or.inl herror
    · exact Or.inr (.digits hr hlong)
  | sort =>
    simp only [hr] at h
    obtain ⟨error, -, rfl⟩ := exists_of_mapError_eq_error _ _ _ (eq_error_of_map_eq_error _ _ _ h)
    exact Or.inl ⟨error, rfl⟩
  | fields =>
    simp only [hr] at h
    obtain ⟨error, -, rfl⟩ := exists_of_mapError_eq_error _ _ _ (eq_error_of_map_eq_error _ _ _ h)
    exact Or.inl ⟨error, rfl⟩
  | limit =>
    simp only [hr] at h
    exact hbound .limit (Or.inl hr) h
  | offset =>
    simp only [hr] at h
    exact hbound .offset (Or.inr hr) h
  | ignored =>
    simp only [hr] at h
    cases h

theorem readComponents_eq_error_iff_escapes (path : String) (params : List Param) (fault : Fault)
    (h : ∀ error, fault ≠ .parse error) :
    options.readComponents path params = .error fault ↔ options.Escapes params fault := by
  rw [readComponents_eq_error_iff]
  unfold Escapes
  constructor
  · rintro ⟨before, p, after, rfl, hbefore, hp⟩
    refine ⟨before, p, after, rfl, hbefore, ?_⟩
    rcases options.error_of_read p fault hp with ⟨error, rfl⟩ | hover
    · exact absurd rfl (h error)
    · exact hover
  · rintro ⟨before, p, after, rfl, hbefore, hover⟩
    exact ⟨before, p, after, rfl, hbefore, hover.read_eq⟩

/-- Reading ends in a query, a parse error, or a fault that escapes, and an attempt returns unless one
does. -/
theorem attempt_escapes_iff :
    (∀ path params,
      (∃ q, options.readComponents path params = .ok q) ∨
      (∃ error, options.readComponents path params = .error (.parse error)) ∨
      ∃ fault, options.Escapes params fault ∧ options.readComponents path params = .error fault) ∧
    (∀ path params fault, options.Escapes params fault →
      options.readComponents path params = .error fault ∧ ∀ error, fault ≠ .parse error) ∧
    ∀ url path params, options.components url = .ok (path, params) →
      ((∃ attempt, options.attempt url = .ok attempt) ↔ ∀ fault, ¬ options.Escapes params fault) := by
  have hne : ∀ params fault, options.Escapes params fault → ∀ error, fault ≠ .parse error := by
    rintro params fault ⟨-, p, -, -, -, hover⟩
    exact hover.ne_parse
  refine ⟨fun path params => ?_, fun path params fault he => ?_, fun url path params hurl => ?_⟩
  · cases hrc : options.readComponents path params with
    | ok q => exact Or.inl ⟨q, rfl⟩
    | error fault =>
      by_cases hparse : ∃ error, fault = .parse error
      · obtain ⟨error, rfl⟩ := hparse
        exact Or.inr (Or.inl ⟨error, rfl⟩)
      · have hfault : ∀ error, fault ≠ .parse error := fun error he => hparse ⟨error, he⟩
        exact Or.inr (Or.inr ⟨fault,
          (options.readComponents_eq_error_iff_escapes path params fault hfault).mp hrc, rfl⟩)
  · exact ⟨(options.readComponents_eq_error_iff_escapes path params fault (hne params fault he)).mpr he,
      hne params fault he⟩
  · have hread : options.readUrl url = options.readComponents path params := by
      rw [readUrl, hurl]
    unfold attempt
    rw [hread]
    constructor
    · rintro ⟨attempt, ha⟩ fault he
      have hfault := hne params fault he
      rw [(options.readComponents_eq_error_iff_escapes path params fault hfault).mpr he] at ha
      split at ha
      · next h => cases h
      · next error h => exact hfault error (Except.error.inj h)
      · cases ha
    · intro hnone
      split
      · exact ⟨_, rfl⟩
      · exact ⟨_, rfl⟩
      · next fault hfault hrc =>
        refine absurd ((options.readComponents_eq_error_iff_escapes path params fault ?_).mp hrc)
          (hnone fault)
        exact fun error he => hfault error he

/-- Zero gets past both guards, with an exponent too large and with digits too many. -/
theorem attempt_escapes_zero :
    ({} : Options).readComponents "/users" [⟨"limit", "0e1000000000000000000"⟩] =
      .error .exponentOutOfRange ∧
    ({} : Options).attempt "users?limit=0e1000000000000000000" = .error .exponentOutOfRange ∧
    ({} : Options).readComponents "/users"
        [⟨"filter", .ofList ("a[eq]".toList ++ List.replicate 4301 '0')⟩] =
      .error (.tooManyDigits 4301) := by
  refine ⟨rfl, rfl, ?_⟩
  rw [readComponents_eq_error_iff_escapes _ _ _ _ (by simp)]
  have hover := Filter.isOverlong_zeros ({} : Options).maxFilterDepth 4301 (by decide)
  exact ⟨[], _, [], rfl, List.forall_mem_nil _, .digits rfl hover⟩

end Options

end ResourceUrl
