import Mathlib.Logic.Relation
import ResourceUrl.Proofs.Progress

/-!
# Blanks around marks

Blanks may be put in or left out beside the marks of a source and at its ends (`IsRespaced`).  Such
sources are those with the same `outline`: the same marks, and between them the same runs once these are
trimmed (`isRespaced_iff`).

Tokens are told by the outline up to their positions (`tokenize_of_outline`), and reading looks at
positions only to report them (`Filter.run_of_forall₂`).  So sources that are respaced are read alike, or
refused alike but for the position in the report (`Filter.read_respaced`).
-/

namespace ResourceUrl

/-! ## Sources -/

/-- Blanks are put in at an end of a source or beside one of its marks. -/
inductive InsertsBlanks : List Char → List Char → Prop
  | atStart {blanks : List Char} (source : List Char) : (∀ c ∈ blanks, Text.isBlank c = true) →
      InsertsBlanks source (blanks ++ source)
  | atEnd {blanks : List Char} (source : List Char) : (∀ c ∈ blanks, Text.isBlank c = true) →
      InsertsBlanks source (source ++ blanks)
  | before {blanks : List Char} (front : List Char) (mark : Mark) (rest : List Char) :
      (∀ c ∈ blanks, Text.isBlank c = true) →
      InsertsBlanks (front ++ mark.toChar :: rest) (front ++ (blanks ++ mark.toChar :: rest))
  | after {blanks : List Char} (front : List Char) (mark : Mark) (rest : List Char) :
      (∀ c ∈ blanks, Text.isBlank c = true) →
      InsertsBlanks (front ++ mark.toChar :: rest) (front ++ mark.toChar :: (blanks ++ rest))

/-- Blanks are put in and left out, any number of times. -/
def IsRespaced : List Char → List Char → Prop :=
  Relation.EqvGen InsertsBlanks

/-- A run without the blanks around it, and its mark. -/
def Run.outline (run : Run) : List Char × Option Mark :=
  (Text.trim run.text, run.mark)

def outline (source : List Char) : List (List Char × Option Mark) :=
  (Run.all source).map Run.outline

/-! ## Outlines -/

/-- It makes no difference to the outline where a source begins. -/
theorem outline_split (source : List Char) (position : Nat) :
    ((Run.split position source).1 :: (Run.split position source).2).map Run.outline = outline source := by
  have hany : ∀ p q, ((Run.split p source).1 :: (Run.split p source).2).map Run.outline =
      ((Run.split q source).1 :: (Run.split q source).2).map Run.outline := by
    induction source using source_induction with
    | last text h =>
      intro p q
      rw [← List.append_nil text, Run.split_append text h, Run.split_append text h]
      rfl
    | mark text mark rest h ih =>
      intro p q
      rw [Run.split_append text h, Run.split_append text h, Run.split_mark, Run.split_mark]
      exact congrArg ((Text.trim (text ++ []), some mark) :: ·) (ih _ _)
  exact hany position 0

theorem outline_text (text : List Char) (h : ∀ c ∈ text, c ∉ Mark.chars) :
    outline text = [(Text.trim text, none)] := by
  rw [← outline_split text 0, ← List.append_nil text, Run.split_append text h, List.append_nil]
  simp [Run.split, Run.outline]

theorem outline_run (text : List Char) (h : ∀ c ∈ text, c ∉ Mark.chars) (mark : Mark) (rest : List Char) :
    outline (text ++ mark.toChar :: rest) = (Text.trim text, some mark) :: outline rest := by
  rw [← outline_split _ 0, Run.split_append text h, Run.split_mark,
    ← outline_split rest (0 + text.length + 1)]
  simp [Run.outline]

section
variable (blanks : List Char) (hblanks : ∀ c ∈ blanks, Text.isBlank c = true)
include hblanks

theorem not_mem_append_blanks (text : List Char) (h : ∀ c ∈ text, c ∉ Mark.chars) :
    (∀ c ∈ blanks ++ text, c ∉ Mark.chars) ∧ ∀ c ∈ text ++ blanks, c ∉ Mark.chars := by
  have hfree : ∀ c ∈ blanks, c ∉ Mark.chars := fun c hc =>
    Mark.not_mem_chars Text.isBlank (by decide) c (hblanks c hc)
  simp only [List.mem_append]
  exact ⟨fun c hc => hc.elim (hfree c) (h c), fun c hc => hc.elim (h c) (hfree c)⟩

theorem outline_append_left (source : List Char) : outline (blanks ++ source) = outline source := by
  induction source using source_induction with
  | last text h =>
    rw [outline_text _ (not_mem_append_blanks blanks hblanks text h).1, outline_text text h,
      Text.trim_append_left blanks text hblanks]
  | mark text mark rest h _ =>
    rw [← List.append_assoc, outline_run _ (not_mem_append_blanks blanks hblanks text h).1,
      outline_run text h, Text.trim_append_left blanks text hblanks]

theorem outline_append_right (source : List Char) : outline (source ++ blanks) = outline source := by
  induction source using source_induction with
  | last text h =>
    rw [outline_text _ (not_mem_append_blanks blanks hblanks text h).2, outline_text text h,
      Text.trim_append_right text blanks hblanks]
  | mark text mark rest h ih =>
    rw [List.append_assoc, List.cons_append, outline_run text h, outline_run text h, ih]

theorem outline_before (front : List Char) (mark : Mark) (rest : List Char) :
    outline (front ++ (blanks ++ mark.toChar :: rest)) = outline (front ++ mark.toChar :: rest) := by
  induction front using source_induction with
  | last text h =>
    rw [← List.append_assoc, outline_run _ (not_mem_append_blanks blanks hblanks text h).2,
      outline_run text h, Text.trim_append_right text blanks hblanks]
  | mark text m others h ih =>
    rw [List.append_assoc, List.append_assoc, List.cons_append, List.cons_append, outline_run text h,
      outline_run text h, ih]

theorem outline_after (front : List Char) (mark : Mark) (rest : List Char) :
    outline (front ++ mark.toChar :: (blanks ++ rest)) = outline (front ++ mark.toChar :: rest) := by
  induction front using source_induction with
  | last text h =>
    rw [outline_run text h, outline_run text h, outline_append_left blanks hblanks]
  | mark text m others h ih =>
    rw [List.append_assoc, List.append_assoc, List.cons_append, List.cons_append, outline_run text h,
      outline_run text h, ih]

end

theorem outline_of_insertsBlanks (source other : List Char) (h : InsertsBlanks source other) :
    outline other = outline source := by
  cases h with
  | atStart _ hblanks => exact outline_append_left _ hblanks source
  | atEnd _ hblanks => exact outline_append_right _ hblanks source
  | before front mark rest hblanks => exact outline_before _ hblanks front mark rest
  | after front mark rest hblanks => exact outline_after _ hblanks front mark rest

/-! ## Sources of one outline -/

namespace IsRespaced

theorem symm {source other : List Char} (h : IsRespaced source other) : IsRespaced other source :=
  Relation.EqvGen.symm _ _ h

theorem trans {source other third : List Char} (h : IsRespaced source other)
    (h' : IsRespaced other third) : IsRespaced source third :=
  Relation.EqvGen.trans _ _ _ h h'

theorem congr {f : List Char → List Char} {source other : List Char} (h : IsRespaced source other)
    (hf : ∀ a b, InsertsBlanks a b → InsertsBlanks (f a) (f b)) : IsRespaced (f source) (f other) := by
  induction h with
  | rel a b hab => exact .rel _ _ (hf a b hab)
  | refl a => exact .refl _
  | symm a b _ ih => exact ih.symm
  | trans a b c _ _ ihab ihbc => exact ihab.trans ihbc

theorem before {front front' : List Char} (h : IsRespaced front front') (mark : Mark) (rest : List Char) :
    IsRespaced (front ++ mark.toChar :: rest) (front' ++ mark.toChar :: rest) := by
  refine congr (f := fun front => front ++ mark.toChar :: rest) h fun a b hab => ?_
  cases hab with
  | atStart _ hblanks => simpa using InsertsBlanks.atStart (a ++ mark.toChar :: rest) hblanks
  | atEnd _ hblanks => simpa using InsertsBlanks.before a mark rest hblanks
  | before first m others hblanks =>
    simpa using InsertsBlanks.before first m (others ++ mark.toChar :: rest) hblanks
  | after first m others hblanks =>
    simpa using InsertsBlanks.after first m (others ++ mark.toChar :: rest) hblanks

theorem after {rest rest' : List Char} (h : IsRespaced rest rest') (front : List Char) (mark : Mark) :
    IsRespaced (front ++ mark.toChar :: rest) (front ++ mark.toChar :: rest') := by
  refine congr (f := fun rest => front ++ mark.toChar :: rest) h fun a b hab => ?_
  cases hab with
  | atStart _ hblanks => exact .after front mark a hblanks
  | atEnd _ hblanks => simpa using InsertsBlanks.atEnd (front ++ mark.toChar :: a) hblanks
  | before first m others hblanks =>
    simpa using InsertsBlanks.before (front ++ mark.toChar :: first) m others hblanks
  | after first m others hblanks =>
    simpa using InsertsBlanks.after (front ++ mark.toChar :: first) m others hblanks

theorem trim (text : List Char) : IsRespaced (Text.trim text) text := by
  obtain ⟨front, back, htext, hfront, hback⟩ := Text.exists_append_trim text
  have hfirst : IsRespaced (Text.trim text ++ back) (front ++ (Text.trim text ++ back)) :=
    .rel _ _ (.atStart _ hfront)
  rw [← htext] at hfirst
  exact trans (.rel _ _ (.atEnd _ hback)) hfirst

end IsRespaced

theorem isRespaced_of_trim (text text' : List Char) (h : Text.trim text = Text.trim text') :
    IsRespaced text text' := by
  have htext := IsRespaced.trim text
  rw [h] at htext
  exact htext.symm.trans (.trim text')

theorem isRespaced_of_outline (source other : List Char) (h : outline source = outline other) :
    IsRespaced source other := by
  induction source using source_induction generalizing other with
  | last text ht =>
    rw [outline_text text ht] at h
    induction other using source_induction with
    | last text' ht' =>
      rw [outline_text text' ht'] at h
      simp only [List.cons.injEq, Prod.mk.injEq, and_true] at h
      exact isRespaced_of_trim text text' h
    | mark text' mark' rest' ht' _ =>
      rw [outline_run text' ht'] at h
      simp at h
  | mark text mark rest ht ih =>
    rw [outline_run text ht] at h
    induction other using source_induction with
    | last text' ht' =>
      rw [outline_text text' ht'] at h
      simp at h
    | mark text' mark' rest' ht' _ =>
      rw [outline_run text' ht'] at h
      simp only [List.cons.injEq, Prod.mk.injEq, Option.some.injEq] at h
      obtain ⟨⟨htext, rfl⟩, hrest⟩ := h
      exact ((isRespaced_of_trim text text' htext).before mark rest).trans ((ih rest' hrest).after text' mark)

/-- Sources are respaced when they have the same marks and, between them, the same trimmed runs. -/
theorem isRespaced_iff (source other : List Char) :
    IsRespaced source other ↔ outline source = outline other := by
  constructor
  · intro h
    induction h with
    | rel a b hab => exact (outline_of_insertsBlanks a b hab).symm
    | refl a => rfl
    | symm a b _ ih => exact ih.symm
    | trans a b c _ _ ihab ihbc => exact ihab.trans ihbc
  · exact isRespaced_of_outline source other

/-! ## Tokens without positions -/

/-- The same token, wherever it stands. -/
structure Token.IsLike (a b : Token) : Prop where
  kind : a.kind = b.kind
  text : a.text = b.text

/-- Tokenizing comes to the same but for positions. -/
inductive TokenizedAlike : Except ParseError (List Token) → Except ParseError (List Token) → Prop
  | ok {ts us : List Token} : List.Forall₂ Token.IsLike ts us → TokenizedAlike (.ok ts) (.ok us)
  | error (p q : Option Int) :
      TokenizedAlike (.error (.missingDelimiter p)) (.error (.missingDelimiter q))

theorem Run.tokens_of_outline (run other : Run) (h : run.outline = other.outline) :
    TokenizedAlike run.tokens other.tokens := by
  obtain ⟨start, text, mark⟩ := run
  obtain ⟨start', text', mark'⟩ := other
  obtain ⟨htext, rfl⟩ : Text.trim text = Text.trim text' ∧ mark = mark' := by
    simpa [Run.outline] using h
  have hcondition : List.Forall₂ Token.IsLike (Run.mk start text mark).condition?.toList
      (Run.mk start' text' mark).condition?.toList := by
    unfold condition?
    simp only [htext]
    split
    · exact .nil
    · exact .cons ⟨rfl, rfl⟩ .nil
  have hmark : List.Forall₂ Token.IsLike (Run.mk start text mark).markToken?.toList
      (Run.mk start' text' mark).markToken?.toList := by
    cases mark with
    | none => exact .nil
    | some mark => exact .cons ⟨rfl, rfl⟩ .nil
  have hsome : (Run.mk start text mark).condition?.isSome = (Run.mk start' text' mark).condition?.isSome := by
    unfold condition?
    simp only [htext]
    split <;> rfl
  unfold tokens
  rw [hsome]
  split
  · exact .error _ _
  · exact .ok (List.rel_append hcondition hmark)

theorem TokenizedAlike.append {first first' rest rest' : Except ParseError (List Token)}
    (h : TokenizedAlike first first') (hrest : TokenizedAlike rest rest') :
    TokenizedAlike (first.bind fun ts => rest.map (ts ++ ·)) (first'.bind fun us => rest'.map (us ++ ·)) := by
  cases h with
  | error p q => exact .error p q
  | ok hfirst =>
    cases hrest with
    | error p q => exact .error p q
    | ok hrest => exact .ok (List.rel_append hfirst hrest)

theorem Run.flatten_tokens_of_outline (runs others : List Run)
    (h : List.Forall₂ (fun run other => run.outline = other.outline) runs others) :
    TokenizedAlike ((runs.mapM tokens).map List.flatten) ((others.mapM tokens).map List.flatten) := by
  induction h with
  | nil => exact .ok .nil
  | cons hrun _ ih =>
    rw [flatten_tokens_cons, flatten_tokens_cons]
    exact (tokens_of_outline _ _ hrun).append ih

theorem tokenize_of_outline (source other : String) (h : outline source.toList = outline other.toList) :
    TokenizedAlike (tokenize source) (tokenize other) := by
  apply Run.flatten_tokens_of_outline
  rw [outline, outline, ← List.forall₂_eq_eq_eq, List.forall₂_map_left_iff, List.forall₂_map_right_iff] at h
  exact h

/-! ## Reports without positions -/

def ParseError.unplaced : ParseError → ParseError
  | .missingDelimiter _ => .missingDelimiter none
  | .unbalanced (.unexpectedClose _) => .unbalanced (.unexpectedClose 0)
  | error => error

def Fault.unplaced : Fault → Fault
  | .parse error => .parse error.unplaced
  | fault => fault

namespace Filter

/-- Reading takes no notice of positions but to report them. -/
theorem run_of_forall₂ (mode : Mode) (base : Int) (ts us : List Token)
    (h : List.Forall₂ Token.IsLike ts us) (top : Frame) (outer : List Frame) :
    (run mode base top outer ts).1.mapError Fault.unplaced =
      (run mode base top outer us).1.mapError Fault.unplaced := by
  induction h generalizing top outer with
  | nil => rfl
  | @cons a b ts us hab _ ih =>
    cases hk : a.kind with
    | condition =>
      rw [run_condition _ _ _ _ _ _ hk, run_condition _ _ _ _ _ _ (hab.kind ▸ hk), hab.text]
      cases Condition.read b.text with
      | error fault => rfl
      | ok c => exact ih _ _
    | mark mark =>
      have hk' := hab.kind ▸ hk
      cases mark with
      | delimiter l =>
        rw [run_delimiter _ _ _ _ _ _ l hk, run_delimiter _ _ _ _ _ _ l hk']
        exact ih _ _
      | opening =>
        rw [run_opening _ _ _ _ _ _ hk, run_opening _ _ _ _ _ _ hk']
        split
        · rfl
        · exact ih _ _
      | closing =>
        rw [run_closing _ _ _ _ _ _ hk, run_closing _ _ _ _ _ _ hk']
        split
        · rfl
        · cases outer with
          | nil => rfl
          | cons parent outer => exact ih _ _

/-- Blanks that are put in or left out beside marks and at the ends of a source make no difference to what is
read, nor to why it is refused, but for the position in the report. -/
theorem read_respaced (mode : Mode) (source other : String)
    (h : IsRespaced source.toList other.toList) :
    (read mode source).mapError Fault.unplaced = (read mode other).mapError Fault.unplaced := by
  have htokens := tokenize_of_outline source other ((isRespaced_iff _ _).mp h)
  generalize hs : tokenize source = tokens at htokens
  generalize ho : tokenize other = tokens' at htokens
  cases htokens with
  | error p q =>
    rw [read_of_tokenize_error mode source _ hs, read_of_tokenize_error mode other _ ho]
    rfl
  | ok htokens =>
    rw [read_of_tokenize mode source _ hs, read_of_tokenize mode other _ ho]
    exact run_of_forall₂ mode 0 _ _ htokens {} []

/-- Blanks of several kinds are put in and left out, and a stray parenthesis is reported where it stands. -/
theorem read_respaced_stray :
    IsRespaced "(a[eq] x );b[gt]y)".toList "\n( a[eq] x)\t; b[gt]y\u00A0)".toList ∧
      read ⟨true, 1⟩ "(a[eq] x );b[gt]y)" = .error (.parse (.unbalanced (.unexpectedClose 17))) ∧
      read ⟨true, 1⟩ "\n( a[eq] x)\t; b[gt]y\u00A0)" =
        .error (.parse (.unbalanced (.unexpectedClose 21))) ∧
      (read ⟨true, 1⟩ "(a[eq] x );b[gt]y)").mapError Fault.unplaced =
        (read ⟨true, 1⟩ "\n( a[eq] x)\t; b[gt]y\u00A0)").mapError Fault.unplaced := by
  have h : IsRespaced "(a[eq] x );b[gt]y)".toList "\n( a[eq] x)\t; b[gt]y\u00A0)".toList :=
    (isRespaced_iff _ _).mpr (by decide)
  exact ⟨h, rfl, rfl, read_respaced ⟨true, 1⟩ _ _ h⟩

end Filter

end ResourceUrl
