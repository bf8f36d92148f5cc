import ResourceUrl.Proofs.Conditions
import ResourceUrl.Proofs.Progress

/-!
# The first offence

A condition offends when it does not have the form `field[operator]value`, or when its value is the
text of an integer with more digits than are read (`Condition.Offends`).  `Filter.FirstOffence` scans
tokens from left to right with nothing but a counter of open groups: an opening parenthesis offends
when as many groups are open as may be, a closing one when none is, and the end when some are; the
last two in strict mode only, and in permissive mode nothing is scanned after a stray closing
parenthesis.

Reading keeps a stack of half-read groups, of which only the height decides whether it fails:

    (run mode 0 top outer ts).1 = .error fault  ↔  FirstOffence mode outer.length ts fault
                                                                        (run_eq_error_iff)

So several faults of one source are reported in the order of its tokens (`read_first_offence`).
-/

namespace ResourceUrl

/-! ## Conditions -/

namespace Condition

/-- A token has the form of a condition: a field, an operator in brackets, and a value. -/
def IsSpelled (token field operator value : List Char) : Prop :=
  token = field ++ '[' :: (operator ++ ']' :: value) ∧ field ≠ [] ∧ field.all isFieldChar = true ∧
    operator ≠ [] ∧ operator.all isWordChar = true ∧ value ≠ [] ∧ '\n' ∉ value

/-- How a token offends that should be a condition. -/
inductive Offends (token : String) : Fault → Prop
  /-- It does not have the form of one. -/
  | form : (∀ field operator value, ¬ IsSpelled token.toList field operator value) →
      Offends token (.parse (.invalidCondition token))
  /-- Its value is an integer within the format, but of too many digits. -/
  | digits {field operator value digits : List Char} :
      IsSpelled token.toList field operator value →
      Numeral.IsIntegerText (Text.trim value) digits → Fault.digitLimit < digits.length →
      Offends token (.tooManyDigits digits.length)

theorem split?_eq_none_iff (token : List Char) :
    split? token = none ↔ ∀ field operator value, ¬ IsSpelled token field operator value := by
  constructor
  · intro h field operator value hs
    rw [(split?_eq_some_iff token field operator value).mpr hs] at h
    cases h
  · intro h
    cases hs : split? token with
    | none => rfl
    | some parts => exact absurd ((split?_eq_some_iff token _ _ _).mp hs) (h _ _ _)

theorem read_eq_error_iff_offends (token : String) (fault : Fault) :
    read token = .error fault ↔ Offends token fault := by
  rw [read_eq_error_iff]
  constructor
  · rintro (⟨hs, rfl⟩ | ⟨_, ⟨field, operator, value, n, hs, hn, hi, rfl, hlong⟩, rfl⟩)
    · exact .form ((split?_eq_none_iff _).mp hs)
    · have htext := (Numeral.ofText?_isInteger_iff _ _).mp ⟨n, hn, hi, rfl⟩
      rw [String.toList_ofList] at htext
      exact .digits ((split?_eq_some_iff _ _ _ _).mp hs) htext hlong
  · rintro (hs | @⟨field, operator, value, digits, hs, htext, hlong⟩)
    · exact Or.inl ⟨(split?_eq_none_iff _).mpr hs, rfl⟩
    · rw [← String.toList_ofList (l := value)] at htext
      obtain ⟨n, hn, hi, rfl⟩ := (Numeral.ofText?_isInteger_iff _ _).mpr htext
      exact Or.inr ⟨_, ⟨field, operator, value, n, (split?_eq_some_iff _ _ _ _).mpr hs, hn, hi, rfl, hlong⟩, rfl⟩

end Condition

/-! ## Tokens -/

namespace Filter

/-- How a token offends that stands where `n` groups are open. -/
inductive Offends (mode : Mode) (n : Nat) (token : Token) : Fault → Prop
  /-- It opens a group too many. -/
  | opening : token.kind = .mark .opening → mode.maxDepth ≤ n →
      Offends mode n token (.parse (.tooDeep mode.maxDepth))
  /-- It closes a group where none is open. -/
  | closing : token.kind = .mark .closing → mode.strict = true → n = 0 →
      Offends mode n token (.parse (.unbalanced (.unexpectedClose token.position)))
  /-- It is no condition that can be read. -/
  | condition {fault : Fault} : token.kind = .condition → Condition.Offends token.text fault →
      Offends mode n token fault

/-- How many groups a token leaves open that does not offend. -/
inductive Advances (mode : Mode) (n : Nat) (token : Token) : Nat → Prop
  | opening : token.kind = .mark .opening → (n : Int) < mode.maxDepth → Advances mode n token (n + 1)
  | closing {k : Nat} : token.kind = .mark .closing → n = k + 1 → Advances mode n token k
  | delimiter {l : Logical} : token.kind = .mark (.delimiter l) → Advances mode n token n
  | condition : token.kind = .condition → (∀ fault, ¬ Condition.Offends token.text fault) →
      Advances mode n token n

/-- The first offence in tokens that are scanned from left to right, when `n` groups are open.  A
scan ends without one where no token offends and none advances. -/
inductive FirstOffence (mode : Mode) : Nat → List Token → Fault → Prop
  | here {n : Nat} {token : Token} {rest : List Token} {fault : Fault} :
      Offends mode n token fault → FirstOffence mode n (token :: rest) fault
  | later {n k : Nat} {token : Token} {rest : List Token} {fault : Fault} :
      Advances mode n token k → FirstOffence mode k rest fault →
      FirstOffence mode n (token :: rest) fault
  | unclosed {n : Nat} : mode.strict = true → 0 < n →
      FirstOffence mode n [] (.parse (.unbalanced .missingClose))

/-- Any token offends or advances, but for the parenthesis that ends a permissive scan. -/
theorem offends_or_advances (mode : Mode) (n : Nat) (token : Token) :
    (∃ fault, Offends mode n token fault) ∨ (∃ k, Advances mode n token k) ∨
      (token.kind = .mark .closing ∧ mode.strict = false ∧ n = 0) := by
  cases hk : token.kind with
  | mark mark =>
    cases mark with
    | opening =>
      by_cases hroom : mode.maxDepth ≤ n
      · exact Or.inl ⟨_, .opening hk hroom⟩
      · exact Or.inr (Or.inl ⟨_, .opening hk (by omega)⟩)
    | closing =>
      cases n with
      | zero =>
        by_cases hs : mode.strict = true
        · exact Or.inl ⟨_, .closing hk hs rfl⟩
        · exact Or.inr (Or.inr ⟨rfl, by simpa using hs, rfl⟩)
      | succ k => exact Or.inr (Or.inl ⟨k, .closing hk rfl⟩)
    | delimiter l => exact Or.inr (Or.inl ⟨n, .delimiter hk⟩)
  | condition =>
    by_cases hc : ∃ fault, Condition.Offends token.text fault
    · obtain ⟨fault, hc⟩ := hc
      exact Or.inl ⟨fault, .condition hk hc⟩
    · exact Or.inr (Or.inl ⟨n, .condition hk (not_exists.mp hc)⟩)

theorem passes_of_advances (mode : Mode) (n k : Nat) (token : Token) (h : Advances mode n token k) :
    Passes mode.maxDepth n [token] k := by
  cases h with
  | opening hk hroom => exact .opening hk hroom .nil
  | closing hk hn =>
    subst hn
    exact .closing hk .nil
  | delimiter hk => exact .delimiter hk .nil
  | condition hk hc =>
    cases hr : Condition.read token.text with
    | error fault => exact absurd ((Condition.read_eq_error_iff_offends _ _).mp hr) (hc fault)
    | ok c => exact .condition hk hr .nil

/-! ## Frames -/

section
variable (mode : Mode) (top : Frame) (outer : List Frame) (token : Token)

theorem run_of_offends (fault : Fault) (h : Offends mode outer.length token fault)
    (rest : List Token) :
    run mode 0 top outer (token :: rest) = (.error fault, rest) := by
  cases h with
  | opening hk hroom => rw [run_opening _ _ _ _ _ _ hk, Int.zero_add, if_pos hroom]
  | closing hk hs hn => rw [run_closing _ _ _ _ _ _ hk, if_pos ⟨hs, by omega⟩]
  | condition hk hc =>
    rw [run_condition _ _ _ _ _ _ hk, (Condition.read_eq_error_iff_offends _ _).mpr hc]

theorem run_of_advances (k : Nat) (h : Advances mode outer.length token k) :
    ∃ top' outer', outer'.length = k ∧ ∀ rest,
      run mode 0 top outer (token :: rest) = run mode 0 top' outer' rest := by
  have hp := passes_of_advances mode _ _ token h
  rw [← Int.sub_zero mode.maxDepth] at hp
  obtain ⟨top', outer', hk, hrun⟩ :=
    run_append_of_passes mode.maxDepth 0 (Int.le_refl 0) hp top outer rfl
  exact ⟨top', outer', hk, hrun mode.strict⟩

end

theorem run_of_firstOffence (mode : Mode) (n : Nat) (ts : List Token) (fault : Fault)
    (h : FirstOffence mode n ts fault) (top : Frame) (outer : List Frame) (hn : outer.length = n) :
    (run mode 0 top outer ts).1 = .error fault := by
  induction h generalizing top outer with
  | here ho =>
    subst hn
    rw [run_of_offends _ _ _ _ _ ho]
  | later ha _ ih =>
    subst hn
    obtain ⟨top', outer', hk, hrun⟩ := run_of_advances mode top outer _ _ ha
    rw [hrun]
    exact ih top' outer' hk
  | unclosed hs hpos => rw [run, if_pos ⟨hs, by omega⟩]

theorem firstOffence_of_run (mode : Mode) (ts : List Token) (fault : Fault) (top : Frame)
    (outer : List Frame) (h : (run mode 0 top outer ts).1 = .error fault) :
    FirstOffence mode outer.length ts fault := by
  induction ts generalizing top outer with
  | nil =>
    rw [run] at h
    split at h
    · next hopen =>
      obtain rfl := Except.error.inj h
      exact .unclosed hopen.1 (by omega)
    · cases h
  | cons token ts ih =>
    rcases offends_or_advances mode outer.length token with ⟨found, ho⟩ | ⟨k, ha⟩ | ⟨hk, hs, hn⟩
    · rw [run_of_offends _ _ _ _ _ ho] at h
      obtain rfl := Except.error.inj h
      exact .here ho
    · obtain ⟨top', outer', rfl, hrun⟩ := run_of_advances mode top outer _ _ ha
      rw [hrun] at h
      exact .later ha (ih top' outer' h)
    · -- a stray parenthesis ends the group of the root
      obtain rfl := List.length_eq_zero_iff.mp hn
      rw [run_closing _ _ _ _ _ _ hk, if_neg (by simp [hs])] at h
      cases h

/-- Whether reading fails, and how, depends on the number of open groups and on the tokens only. -/
theorem run_eq_error_iff (mode : Mode) (top : Frame) (outer : List Frame) (ts : List Token)
    (fault : Fault) :
    (run mode 0 top outer ts).1 = .error fault ↔ FirstOffence mode outer.length ts fault :=
  ⟨firstOffence_of_run mode ts fault top outer,
    fun h => run_of_firstOffence mode _ ts fault h top outer rfl⟩

/-! ## From the start -/

/-- A source that cannot be divided into tokens is refused for that, whatever else is wrong with it.
Otherwise reading reports the first offence of its tokens, and gives a group when there is none. -/
theorem read_first_offence (mode : Mode) (source : String) :
    (∀ error, tokenize source = .error error →
      (∃ position, error = .missingDelimiter position) ∧
        read mode source = .error (.parse error)) ∧
    ∀ ts, tokenize source = .ok ts →
      (∀ fault, read mode source = .error fault ↔ FirstOffence mode 0 ts fault) ∧
      ((∃ g, read mode source = .ok g) ↔ ∀ fault, ¬ FirstOffence mode 0 ts fault) := by
  constructor
  · intro error h
    exact ⟨error_of_tokenize source error h, read_of_tokenize_error mode source error h⟩
  · intro ts h
    have hfault : ∀ fault, read mode source = .error fault ↔ FirstOffence mode 0 ts fault := by
      intro fault
      rw [read_of_tokenize mode source ts h]
      exact run_eq_error_iff mode {} [] ts fault
    refine ⟨hfault, ?_⟩
    constructor
    · rintro ⟨g, hg⟩ fault hf
      rw [(hfault fault).mpr hf] at hg
      cases hg
    · intro hnone
      cases hr : read mode source with
      | ok g => exact ⟨g, rfl⟩
      | error fault => exact absurd ((hfault fault).mp hr) (hnone fault)

end Filter

end ResourceUrl
