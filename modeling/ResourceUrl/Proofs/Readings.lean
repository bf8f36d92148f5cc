import ResourceUrl.Proofs.Offences

/-!
# The reading of a condition

A field has no brackets and an operator no closing one, so that a token in the form of a condition is
divided by its first brackets, however many more its value has (`IsSpelled.cut_eq`), and in no other way
(`IsSpelled.unique`).  What is read of such a token is decided by its value alone:

    IsSpelled token field operator value  →
      read token = (Value.read value).map fun v => ⟨field, operator, v⟩          (read_of_isSpelled)

and a token that is refused for its form has none (`read_eq_invalid_iff`).  `read_by_brackets` puts these
together.
-/

namespace ResourceUrl.Condition

section
variable {token field operator value : List Char} (h : IsSpelled token field operator value)
include h

/-- The first opening bracket ends the field, and the first closing one after it the operator. -/
theorem IsSpelled.cut_eq :
    Text.cut '[' token = (field, operator ++ ']' :: value) ∧
      Text.cut ']' (operator ++ ']' :: value) = (operator, value) := by
  obtain ⟨rfl, -, hfield, -, hoperator, -, -⟩ := h
  exact ⟨Text.cut_append (bracket_not_mem field hfield) _,
    Text.cut_append (closing_not_mem operator hoperator) _⟩

theorem IsSpelled.unique {field' operator' value' : List Char}
    (h' : IsSpelled token field' operator' value') :
    field' = field ∧ operator' = operator ∧ value' = value := by
  obtain ⟨hfield, hoperator⟩ := h.cut_eq
  obtain ⟨hfield', hoperator'⟩ := h'.cut_eq
  rw [hfield, Prod.mk.injEq] at hfield'
  obtain ⟨rfl, hrest⟩ := hfield'
  rw [← hrest, hoperator, Prod.mk.injEq] at hoperator'
  obtain ⟨rfl, rfl⟩ := hoperator'
  exact ⟨rfl, rfl, rfl⟩

end

/-- A token in the form of a condition is read as its value is, also when that is refused. -/
theorem read_of_isSpelled (token : String) (field operator value : List Char)
    (h : IsSpelled token.toList field operator value) :
    read token = (Value.read (.ofList value)).map fun v =>
      { field := .ofList field, operator := .ofList operator, value := v } := by
  rw [read, (split?_eq_some_iff _ _ _ _).mpr h]

example : read "a.b[eq]x]y[z]" = .ok ⟨"a.b", "eq", .text "x]y[z]"⟩ := rfl

/-- The form is refused of tokens only that do not have it, and the refusal names the token. -/
theorem read_eq_invalid_iff (token text : String) :
    read token = .error (.parse (.invalidCondition text)) ↔
      text = token ∧ ∀ field operator value, ¬ IsSpelled token.toList field operator value := by
  rw [read_eq_error_iff, split?_eq_none_iff]
  constructor
  · rintro (⟨hform, hfault⟩ | ⟨count, -, hfault⟩)
    · cases hfault
      exact ⟨rfl, hform⟩
    · cases hfault
  · rintro ⟨rfl, hform⟩
    exact Or.inl ⟨hform, rfl⟩

/-- A token that does not have the form `field[operator]value` is refused by name.  One that has it is
divided by its first brackets and in no other way; it is read as a condition of its field, its operator
and what its value is read as, and the names on the path of the field are its pieces between points. -/
theorem read_by_brackets (token : String) :
    (∀ text, read token = .error (.parse (.invalidCondition text)) ↔
      text = token ∧ ∀ field operator value, ¬ IsSpelled token.toList field operator value) ∧
    (∀ field operator value, IsSpelled token.toList field operator value →
      Text.cut '[' token.toList = (field, operator ++ ']' :: value) ∧
      Text.cut ']' (operator ++ ']' :: value) = (operator, value) ∧
      (∀ field' operator' value', IsSpelled token.toList field' operator' value' →
        field' = field ∧ operator' = operator ∧ value' = value) ∧
      read token = (Value.read (.ofList value)).map fun v =>
        { field := .ofList field, operator := .ofList operator, value := v }) ∧
    ∀ c, read token = .ok c →
      ".".intercalate c.path = c.field ∧ ∀ name ∈ c.path, '.' ∉ name.toList := by
  refine ⟨read_eq_invalid_iff token, fun field operator value h => ?_, fun c _ => ⟨?_, ?_⟩⟩
  · obtain ⟨hfield, hoperator⟩ := h.cut_eq
    exact ⟨hfield, hoperator, fun _ _ _ h' => h.unique h', read_of_isSpelled token field operator value h⟩
  · exact Text.intercalate_pieces '.' c.field
  · exact fun name hname => Text.not_mem_of_mem_pieces '.' c.field name hname

end ResourceUrl.Condition
