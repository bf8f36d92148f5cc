import Mathlib.Tactic.Ring
import ResourceUrl.Filter.Token
import ResourceUrl.Filter.Condition
import ResourceUrl.Proofs.Values

/-!
# Conditions that are read and written

A token divides into field, operator and value in one way only (`split?_eq_some_iff`).
`Condition.IsFilterable` says which conditions a filter can hold: those whose parts keep to the
characters of a field, an operator and a value, and whose value is not one that would be read as
another.  Within a filter these are the conditions that are read

    Condition.read token = .ok c  →  c.IsFilterable                  (isFilterable_of_read)
    c.IsFilterable  →  Condition.read c.render = .ok c               (read_render)

where the token is plain, that is free of marks and line feeds and not ended by a blank.  The tokens
that are refused are those that do not divide, and those whose value is an integer of too many digits
(`read_eq_error_iff`).
-/

namespace ResourceUrl

def Mark.chars : List Char := ['(', ')', ';', '|']

theorem Mark.ofChar?_eq_none_iff (c : Char) : ofChar? c = none ↔ c ∉ chars := by
  unfold ofChar? chars
  by_cases h1 : c = '('
  · simp [h1]
  by_cases h2 : c = ')'
  · simp [h2]
  by_cases h3 : c = ';'
  · simp [h3, Logical.mark]
  by_cases h4 : c = '|'
  · simp [h4, Logical.mark]
  simp [h1, h2, h3, h4, Logical.mark]

/-- Characters of a kind that no mark is of. -/
theorem Mark.not_mem_chars (p : Char → Bool) (h : (chars.all fun mark => !p mark) = true) (c : Char)
    (hc : p c = true) : c ∉ chars := by
  intro hm
  have hnot := List.all_eq_true.mp h c hm
  rw [hc] at hnot
  cases hnot

theorem Mark.not_mem_chars_of_isNumeralChar (c : Char) (h : Numeral.isNumeralChar c = true) :
    c ∉ chars ∧ c ≠ '\n' := by
  refine ⟨not_mem_chars Numeral.isNumeralChar (by decide) c h, ?_⟩
  rintro rfl
  cases h

namespace Value

/-- A text that may end a condition: not empty, on one line, without marks, and not ended by a
blank. -/
structure IsPlain (text : List Char) : Prop where
  ne_nil : text ≠ []
  no_mark : ∀ c ∈ text, c ∉ Mark.chars
  no_line : '\n' ∉ text
  no_blank : ∀ c ∈ text.getLast?, Text.isBlank c = false

/-- The values that a condition of a filter can hold. -/
def IsFilterable : Value → Prop
  | .null => True
  | .int n => n.natAbs < 2 ^ 1024 - 2 ^ 970
  | .float x => x.isFinite = true
  | .text s => IsPlain s.toList ∧ s ≠ "null" ∧ isNumeric s = false

theorem isPlain_of_numeral (text : List Char) (n : Numeral) (h : Numeral.read? text = some n) :
    IsPlain text := by
  have hchar := Numeral.isNumeralChar_of_read? text n h
  refine ⟨?_, ?_, ?_, ?_⟩
  · rintro rfl
    cases h
  · intro c hc
    exact (Mark.not_mem_chars_of_isNumeralChar c (hchar c hc)).1
  · intro hc
    exact (Mark.not_mem_chars_of_isNumeralChar _ (hchar _ hc)).2 rfl
  · intro c hc
    exact Numeral.isBlank_of_isNumeralChar c (hchar c (List.mem_of_getLast? hc))

/-- Filterable values are the readable ones whose text is plain, which can fail for texts only. -/
theorem isFilterable_iff (v : Value) : v.IsFilterable ↔ v.IsReadable ∧ IsPlain v.characters := by
  cases v with
  | null =>
    have hplain : IsPlain ['n', 'u', 'l', 'l'] :=
      ⟨by simp, by simp [Mark.chars], by simp, by simp [Text.isBlank_of_toNat]⟩
    exact iff_of_true trivial ⟨trivial, hplain⟩
  | int n =>
    obtain ⟨k, hread, -⟩ := read?_integerText n
    exact ⟨fun h => ⟨h, isPlain_of_numeral _ k hread⟩, fun h => h.1⟩
  | float x =>
    cases x with
    | nan => exact ⟨fun h => (by cases h), fun h => h.1⟩
    | infinite negative => exact ⟨fun h => (by cases h), fun h => h.1⟩
    | finite negative m =>
      obtain ⟨k, hread, -⟩ := Numeral.read?_render floatLayout negative m
      exact ⟨fun h => ⟨h, isPlain_of_numeral _ k hread⟩, fun h => h.1⟩
  | text s => exact ⟨fun h => ⟨h.2, h.1⟩, fun h => ⟨h.2, h.1⟩⟩

end Value

namespace Condition

/-- The conditions that a filter can hold. -/
structure IsFilterable (c : Condition) : Prop where
  field_ne : c.field ≠ ""
  field_chars : c.field.toList.all isFieldChar = true
  operator_ne : c.operator ≠ ""
  operator_chars : c.operator.toList.all isWordChar = true
  value : c.value.IsFilterable

/-! ## Dividing a token -/

theorem bracket_not_mem (text : List Char) (h : text.all isFieldChar = true) : '[' ∉ text := by
  intro hm
  have := List.all_eq_true.mp h '[' hm
  cases this

theorem closing_not_mem (text : List Char) (h : text.all isWordChar = true) : ']' ∉ text := by
  intro hm
  have := List.all_eq_true.mp h ']' hm
  cases this

/-- A token has one reading: the parts are those between its first brackets. -/
theorem split?_eq_some_iff (token field operator value : List Char) :
    split? token = some (field, operator, value) ↔
      token = field ++ '[' :: (operator ++ ']' :: value) ∧ field ≠ [] ∧
        field.all isFieldChar = true ∧ operator ≠ [] ∧ operator.all isWordChar = true ∧
        value ≠ [] ∧ '\n' ∉ value := by
  constructor
  · intro h
    unfold split? at h
    simp only at h
    split at h
    · next hcond =>
      simp only [Option.some.injEq, Prod.mk.injEq] at h
      obtain ⟨rfl, rfl, rfl⟩ := h
      obtain ⟨h1, h2, h3, h4, h5, h6⟩ := hcond
      refine ⟨?_, h1, h2, h3, h4, h5, h6⟩
      have hrest : (Text.cut '[' token).2 ≠ [] := by
        intro hnil
        rw [hnil] at h3
        exact h3 rfl
      rw [Text.append_cut ']' _ h5, Text.append_cut '[' _ hrest]
    · cases h
  · rintro ⟨rfl, h1, h2, h3, h4, h5, h6⟩
    unfold split?
    simp only [Text.cut_append (bracket_not_mem field h2), Text.cut_append (closing_not_mem operator h4)]
    rw [if_pos ⟨h1, h2, h3, h4, h5, h6⟩]

/-! ## Reading and writing -/

theorem read_render (c : Condition) (h : c.IsFilterable) : read (.ofList c.render) = .ok c := by
  obtain ⟨hread, hplain⟩ := (Value.isFilterable_iff c.value).mp h.value
  have hsplit : split? c.render = some (c.field.toList, c.operator.toList, c.value.characters) :=
    (split?_eq_some_iff _ _ _ _).mpr ⟨rfl, Text.toList_ne_nil _ h.field_ne, h.field_chars,
      Text.toList_ne_nil _ h.operator_ne, h.operator_chars, hplain.ne_nil, hplain.no_line⟩
  have hvalue : Value.read (.ofList c.value.characters) = .ok c.value := Value.read_render c.value hread
  rw [read, String.toList_ofList, hsplit]
  simp only [hvalue, String.ofList_toList]
  rfl

/-- What is read from a token without marks and without a blank at its end is filterable. -/
theorem isFilterable_of_read (token : String) (c : Condition) (h : read token = .ok c)
    (hmark : ∀ x ∈ token.toList, x ∉ Mark.chars)
    (hblank : ∀ x ∈ token.toList.getLast?, Text.isBlank x = false) : c.IsFilterable := by
  unfold read at h
  cases hs : split? token.toList with
  | none => rw [hs] at h; cases h
  | some parts =>
    obtain ⟨field, operator, value⟩ := parts
    obtain ⟨htoken, h1, h2, h3, h4, h5, h6⟩ := (split?_eq_some_iff _ _ _ _).mp hs
    rw [hs] at h
    dsimp only at h
    cases hv : Value.read (.ofList value) with
    | error fault => rw [hv] at h; cases h
    | ok v =>
      rw [hv] at h
      obtain rfl := Except.ok.inj h
      obtain ⟨hreadable, htext⟩ := Value.isReadable_of_read _ v hv
      refine ⟨by simpa using h1, by simpa using h2, by simpa using h3, by simpa using h4, ?_⟩
      cases v with
      | text s =>
        obtain rfl := htext s rfl
        refine ⟨⟨by simpa using h5, ?_, by simpa using h6, ?_⟩, hreadable⟩
        · intro x hx
          apply hmark
          rw [htoken]
          rw [String.toList_ofList] at hx
          simp [hx]
        · intro x hx
          apply hblank
          rw [htoken]
          rw [String.toList_ofList, Option.mem_def] at hx
          simp [List.getLast?_append, List.getLast?_cons, hx]
      | null => exact hreadable
      | int n => exact hreadable
      | float y => exact hreadable

/-! ## What is refused -/

/-- A token whose value is an integer of `count` digits, which are more than are read. -/
def IsOverlong (token : String) (count : Nat) : Prop :=
  ∃ field operator value n, split? token.toList = some (field, operator, value) ∧
    Numeral.ofText? (.ofList value) = some n ∧ n.isInteger = true ∧ n.whole.length = count ∧
    Fault.digitLimit < count

theorem read_eq_error_iff (token : String) (fault : Fault) :
    read token = .error fault ↔
      (split? token.toList = none ∧ fault = .parse (.invalidCondition token)) ∨
      ∃ count, IsOverlong token count ∧ fault = .tooManyDigits count := by
  unfold read IsOverlong
  cases hs : split? token.toList with
  | none =>
    constructor
    · intro h
      exact Or.inl ⟨rfl, (Except.error.inj h).symm⟩
    · rintro (⟨-, rfl⟩ | ⟨count, ⟨_, _, _, _, hparts, -⟩, -⟩)
      · rfl
      · cases hparts
  | some parts =>
    obtain ⟨field, operator, value⟩ := parts
    have hmap : (Value.read (.ofList value)).map (fun value =>
        ({ field := .ofList field, operator := .ofList operator, value } : Condition)) = .error fault ↔
        Value.read (.ofList value) = .error fault := by
      cases Value.read (.ofList value) <;> simp [Except.map]
    rw [hmap, Value.read_eq_error_iff]
    constructor
    · rintro ⟨n, hn, hi, hlen, rfl⟩
      exact Or.inr ⟨_, ⟨field, operator, value, n, rfl, hn, hi, rfl, hlen⟩, rfl⟩
    · rintro (⟨h, -⟩ | ⟨count, ⟨field', operator', value', n, hparts, hn, hi, hcount, hlen⟩, rfl⟩)
      · cases h
      · cases hparts
        subst hcount
        exact ⟨n, hn, hi, hlen, rfl⟩

/-- Digits are too many by their number alone, whatever integer they stand for. -/
theorem isOverlong_of_digits (token field operator digits : List Char)
    (hs : split? token = some (field, operator, digits)) (hd : Numeral.AreDigits digits)
    (hfin : Nat.ofDigitChars 10 digits 0 < 2 ^ 1024 - 2 ^ 970)
    (hlong : Fault.digitLimit < digits.length) : IsOverlong (.ofList token) digits.length := by
  obtain ⟨-, -, -, -, -, hne, -⟩ := (split?_eq_some_iff _ _ _ _).mp hs
  have hread := Numeral.read?_of_areDigits digits hd hne
  have habs : (Numeral.toInt ⟨false, digits, false, [], none⟩).natAbs = Nat.ofDigitChars 10 digits 0 := by
    rw [Numeral.natAbs_toInt, Numeral.coefficient, List.append_nil]
  have htext := Numeral.ofText?_of_read? digits _ hread
    ((Numeral.isFinite_of_isInteger digits _ hread rfl).mpr (habs ▸ hfin))
  refine ⟨field, operator, digits, _, ?_, htext, rfl, rfl, hlong⟩
  rw [String.toList_ofList, hs]

/-! ## The text of a condition -/

theorem not_mem_chars_of_isFieldChar (x : Char) (h : isFieldChar x = true) : x ∉ Mark.chars :=
  Mark.not_mem_chars isFieldChar (by decide) x h

theorem isBlank_of_isFieldChar (c : Char) (h : isFieldChar c = true) : Text.isBlank c = false := by
  simp only [isFieldChar, isWordChar, Bool.or_eq_true, beq_iff_eq] at h
  rcases h with (((h | rfl) | rfl) | rfl) | rfl
  · have := Text.toNat_of_isAlphanum c h
    exact Text.isBlank_of_toNat c (by omega) (by omega)
  all_goals decide

theorem not_mem_parts (field operator value : List Char) (hf : field.all isFieldChar = true)
    (ho : operator.all isWordChar = true) (hv : Value.IsPlain value) :
    ∀ x ∈ field ++ '[' :: (operator ++ ']' :: value), x ∉ Mark.chars := by
  intro x hx
  simp only [List.mem_append, List.mem_cons] at hx
  rcases hx with hx | rfl | hx | rfl | hx
  · exact not_mem_chars_of_isFieldChar x (List.all_eq_true.mp hf x hx)
  · decide
  · have hw := List.all_eq_true.mp ho x hx
    exact not_mem_chars_of_isFieldChar x (by simp [isFieldChar, hw])
  · decide
  · exact hv.no_mark x hx

theorem trim_parts (field operator value : List Char) (hne : field ≠ [])
    (hf : field.all isFieldChar = true) (hv : Value.IsPlain value) :
    Text.trim (field ++ '[' :: (operator ++ ']' :: value)) =
      field ++ '[' :: (operator ++ ']' :: value) := by
  obtain ⟨x, field, rfl⟩ := List.exists_cons_of_ne_nil hne
  apply Text.trim_eq_self
  · intro y hy
    have hx := List.all_eq_true.mp hf x List.mem_cons_self
    obtain rfl : x = y := by simpa using hy
    exact isBlank_of_isFieldChar x hx
  · intro y hy
    apply hv.no_blank
    have hlast := List.getLast?_eq_some_getLast hv.ne_nil
    simpa [List.getLast?_append, List.getLast?_cons, hlast] using hy

theorem not_mem_render (c : Condition) (h : c.IsFilterable) : ∀ x ∈ c.render, x ∉ Mark.chars :=
  not_mem_parts _ _ _ h.field_chars h.operator_chars ((Value.isFilterable_iff c.value).mp h.value).2

theorem trim_render (c : Condition) (h : c.IsFilterable) : Text.trim c.render = c.render :=
  trim_parts _ _ _ (Text.toList_ne_nil _ h.field_ne) h.field_chars
    ((Value.isFilterable_iff c.value).mp h.value).2

end Condition

end ResourceUrl
