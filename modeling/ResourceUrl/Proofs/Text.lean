import ResourceUrl.Text.Blank
import ResourceUrl.Text.Split

/-!
# Trimming and cutting

What trimming leaves has no blank at either end (`head?_trimLeft`, `getLast?_trim`), and a text without
blanks at its ends is left as it is (`trim_eq_self`).  It drops blanks only (`exists_append_trim`), however
many stand at either end (`trim_append_left`, `trim_append_right`).  Cutting at a mark loses nothing but the mark
(`append_cut`), and the part before it is free of the mark (`not_mem_cut`), as is every piece when a
text is split at all its marks (`not_mem_of_mem_splitOn`).  Joined by the mark, the pieces are the text
again (`intercalate_pieces`).
-/

namespace ResourceUrl.Text

/-! ## Blanks -/

theorem toNat_of_isAlphanum (c : Char) (h : c.isAlphanum = true) : 0x30 ≤ c.toNat ∧ c.toNat ≤ 0x7A := by
  have hval : c.toNat = c.val.toNat := rfl
  delta Char.isAlphanum Char.isAlpha Char.isUpper Char.isLower Char.isDigit at h
  simp only [Bool.or_eq_true, Bool.and_eq_true, decide_eq_true_eq, UInt32.le_iff_toNat_le,
    ge_iff_le] at h
  simp at h
  omega

/-- The characters of ASCII from the exclamation mark to the tilde are not blank. -/
theorem isBlank_of_toNat (c : Char) (hl : 0x21 ≤ c.toNat) (hh : c.toNat ≤ 0x7E) : isBlank c = false := by
  simp [isBlank, blankRanges]
  omega

theorem toList_ne_nil (s : String) (h : s ≠ "") : s.toList ≠ [] := by
  intro hnil
  exact h (String.toList_eq_nil_iff.mp hnil)

/-! ## Trimming -/

theorem trimLeft_eq_self (text : List Char) (h : ∀ c ∈ text.head?, isBlank c = false) :
    trimLeft text = text := by
  unfold trimLeft
  cases text with
  | nil => rfl
  | cons c rest =>
    have hc : isBlank c = false := h c rfl
    simp [hc]

theorem trimRight_eq_self (text : List Char) (h : ∀ c ∈ text.getLast?, isBlank c = false) :
    trimRight text = text := by
  have := trimLeft_eq_self text.reverse (by rwa [List.head?_reverse])
  unfold trimLeft at this
  rw [trimRight, this, List.reverse_reverse]

theorem trim_eq_self (text : List Char) (hh : ∀ c ∈ text.head?, isBlank c = false)
    (hl : ∀ c ∈ text.getLast?, isBlank c = false) : trim text = text := by
  rw [trim, trimLeft_eq_self text hh, trimRight_eq_self text hl]

theorem head?_trimLeft (text : List Char) : ∀ c ∈ (trimLeft text).head?, isBlank c = false := by
  intro c hc
  unfold trimLeft at hc
  have := List.head?_dropWhile_not isBlank text
  cases h : (text.dropWhile isBlank).head? with
  | none => rw [h] at hc; cases hc
  | some d =>
    rw [h] at hc this
    obtain rfl : d = c := by simpa using hc
    simpa using this

theorem getLast?_trimRight (text : List Char) :
    ∀ c ∈ (trimRight text).getLast?, isBlank c = false := by
  intro c hc
  apply head?_trimLeft text.reverse c
  rwa [trimRight, List.getLast?_reverse] at hc

theorem getLast?_trim (text : List Char) : ∀ c ∈ (trim text).getLast?, isBlank c = false :=
  getLast?_trimRight (trimLeft text)

theorem trim_append_left (blanks text : List Char) (h : ∀ c ∈ blanks, isBlank c = true) :
    trim (blanks ++ text) = trim text := by
  rw [trim, trim, trimLeft, trimLeft, List.dropWhile_append_of_pos h]

theorem trimRight_append (text blanks : List Char) (h : ∀ c ∈ blanks, isBlank c = true) :
    trimRight (text ++ blanks) = trimRight text := by
  have hreverse : ∀ c ∈ blanks.reverse, isBlank c = true := fun c hc => h c (List.mem_reverse.mp hc)
  rw [trimRight, trimRight, List.reverse_append, List.dropWhile_append_of_pos hreverse]

theorem trim_append_right (text blanks : List Char) (h : ∀ c ∈ blanks, isBlank c = true) :
    trim (text ++ blanks) = trim text := by
  have hblanks : blanks.dropWhile isBlank = [] := by
    rw [← List.append_nil blanks, List.dropWhile_append_of_pos h, List.dropWhile_nil]
  rw [trim, trim, trimLeft, trimLeft, List.dropWhile_append]
  split
  · next hempty => rw [hblanks, List.isEmpty_iff.mp hempty]
  · exact trimRight_append _ blanks h

/-- Trimming drops blanks only. -/
theorem exists_append_trim (text : List Char) : ∃ front back, text = front ++ (trim text ++ back) ∧
    (∀ c ∈ front, isBlank c = true) ∧ ∀ c ∈ back, isBlank c = true := by
  refine ⟨text.takeWhile isBlank, ((trimLeft text).reverse.takeWhile isBlank).reverse, ?_, ?_, ?_⟩
  · rw [trim, trimRight, ← List.reverse_append, List.takeWhile_append_dropWhile, List.reverse_reverse,
      trimLeft, List.takeWhile_append_dropWhile]
  · exact List.all_eq_true.mp List.all_takeWhile
  · intro c hc
    exact List.all_eq_true.mp List.all_takeWhile c (List.mem_reverse.mp hc)

theorem mem_of_mem_trim (text : List Char) (c : Char) (h : c ∈ trim text) : c ∈ text := by
  unfold trim trimRight trimLeft at h
  rw [List.mem_reverse] at h
  have := (List.dropWhile_sublist _).mem h
  rw [List.mem_reverse] at this
  exact (List.dropWhile_sublist _).mem this

/-! ## Cutting -/

theorem not_mem_cut (mark : Char) (text : List Char) : mark ∉ (cut mark text).1 := by
  intro h
  have := List.all_eq_true.mp List.all_takeWhile mark h
  simp at this

/-- Nothing stands before a mark at the front. -/
theorem cut_fst_eq_nil_iff (mark : Char) (text : List Char) :
    (cut mark text).1 = [] ↔ text = [] ∨ text.head? = some mark := by
  cases text with
  | nil => simp [cut]
  | cons c rest => by_cases hc : c = mark <;> simp [cut, hc]

theorem append_cut (mark : Char) (text : List Char) (h : (cut mark text).2 ≠ []) :
    (cut mark text).1 ++ mark :: (cut mark text).2 = text := by
  have hsplit := List.takeWhile_append_dropWhile (p := (· != mark)) (l := text)
  have hhead := List.head?_dropWhile_not (· != mark) text
  unfold cut at h ⊢
  cases hd : text.dropWhile (· != mark) with
  | nil => rw [hd] at h; exact absurd rfl h
  | cons d rest =>
    rw [hd] at hhead hsplit
    obtain rfl : d = mark := by simpa using hhead
    exact hsplit

/-! ## Splitting -/

theorem not_mem_of_mem_splitOn (mark : Char) (text piece : List Char)
    (h : piece ∈ text.splitOn mark) : mark ∉ piece := by
  induction text generalizing piece with
  | nil =>
    rw [List.splitOn_nil, List.mem_singleton] at h
    rw [h]
    exact List.not_mem_nil
  | cons c rest ih =>
    rw [List.splitOn_cons_eq_if_modifyHead] at h
    split at h
    · rcases List.mem_cons.mp h with rfl | h
      · exact List.not_mem_nil
      · exact ih piece h
    · next hc =>
      cases hs : rest.splitOn mark with
      | nil => exact absurd hs (List.splitOn_ne_nil _ _)
      | cons first others =>
        rw [hs, List.modifyHead_cons] at h
        rcases List.mem_cons.mp h with rfl | h
        · have hfirst := ih first (by rw [hs]; exact List.mem_cons_self)
          intro hm
          rcases List.mem_cons.mp hm with rfl | hm
          · exact hc BEq.rfl
          · exact hfirst hm
        · exact ih piece (by rw [hs]; exact List.mem_cons_of_mem _ h)

theorem not_mem_of_mem_pieces (mark : Char) (text piece : String) (h : piece ∈ pieces mark text) :
    mark ∉ piece.toList := by
  obtain ⟨characters, hmem, rfl⟩ := List.mem_map.mp h
  rw [String.toList_ofList]
  exact not_mem_of_mem_splitOn mark text.toList characters hmem

/-- Splitting at a mark is undone by joining with it. -/
theorem intercalate_pieces (mark : Char) (text : String) :
    (String.singleton mark).intercalate (pieces mark text) = text := by
  have hpieces : (pieces mark text).map String.toList = text.toList.splitOn mark := by
    rw [pieces, List.map_map]
    exact List.map_id'' (fun piece => String.toList_ofList) _
  apply String.toList_injective
  rw [String.toList_intercalate, hpieces, String.toList_singleton, List.intercalate_splitOn]

end ResourceUrl.Text
