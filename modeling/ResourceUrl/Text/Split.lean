/-!
# Cutting text at a mark

`cut` divides a text at the first occurrence of a mark, which itself is dropped. It is the inverse of
joining two texts by a mark that the first does not hold (`cut_append`), and leaves a text without
the mark whole (`cut_eq_of_not_mem`).
-/

namespace ResourceUrl.Text

/-- The text before the first `mark` and the text after it; the second part is empty when there
is no mark. -/
def cut (mark : Char) (text : List Char) : List Char × List Char :=
  (text.takeWhile (· != mark), (text.dropWhile (· != mark)).drop 1)

/-- The text up to and including the last `mark`, and the text after it; the first part is empty
when there is no mark. -/
def cutLast (mark : Char) (text : List Char) : List Char × List Char :=
  ((text.reverse.dropWhile (· != mark)).reverse, (text.reverse.takeWhile (· != mark)).reverse)

/-- Splits at every `mark`; a text without marks is one piece. -/
def pieces (mark : Char) (text : String) : List String :=
  (text.toList.splitOn mark).map String.ofList

/-! ## Lemmas -/

theorem cut_eq_of_not_mem {mark : Char} {text : List Char} (h : mark ∉ text) :
    cut mark text = (text, []) := by
  unfold cut
  induction text with
  | nil => rfl
  | cons c rest ih =>
    simp only [List.mem_cons, not_or] at h
    have hc : (c != mark) = true := by simpa using Ne.symm h.1
    have := ih h.2
    simp_all

theorem cut_append {mark : Char} {before : List Char} (h : mark ∉ before) (after : List Char) :
    cut mark (before ++ mark :: after) = (before, after) := by
  unfold cut
  induction before with
  | nil => simp
  | cons c rest ih =>
    simp only [List.mem_cons, not_or] at h
    have hc : (c != mark) = true := by simpa using Ne.symm h.1
    have := ih h.2
    simp_all

end ResourceUrl.Text
