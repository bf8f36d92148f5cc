import ResourceUrl.Proofs.Conditions
import ResourceUrl.Proofs.Sequence

/-!
# Tokens of a source, from the front

`tokensFrom` is tokenizing with the position where the source begins.  It takes a run with its mark
off the front (`tokensFrom_run`), so that facts about tokens go by induction on runs
(`source_induction`): a mark other than an opening parenthesis divides a source into two that are
tokenized apart (`tokensFrom_append_mark`), and the marks of the tokens are those of the source
(`marks_of_tokensFrom`).  A condition is never blank at its ends and holds no mark
(`condition_of_mem_tokenize`).
-/

namespace ResourceUrl

namespace Run

/-! ## Runs -/

theorem start_split (position : Nat) (source : List Char) :
    (split position source).1.start = position := by
  cases source with
  | nil => rfl
  | cons c rest =>
    unfold split
    cases Mark.ofChar? c <;> rfl

theorem split_mark (position : Nat) (mark : Mark) (rest : List Char) :
    split position (mark.toChar :: rest) =
      (⟨position, [], some mark⟩, (split (position + 1) rest).1 :: (split (position + 1) rest).2) := by
  rw [split]
  simp only [Mark.ofChar?_toChar]

theorem split_append (text : List Char) (h : ∀ c ∈ text, c ∉ Mark.chars) (position : Nat)
    (rest : List Char) :
    split position (text ++ rest) =
      (⟨position, text ++ (split (position + text.length) rest).1.text,
        (split (position + text.length) rest).1.mark⟩, (split (position + text.length) rest).2) := by
  induction text generalizing position with
  | nil =>
    have hstart := start_split position rest
    simp only [List.nil_append, List.length_nil, Nat.add_zero]
    generalize split position rest = runs at hstart
    obtain ⟨⟨start, text, mark⟩, others⟩ := runs
    obtain rfl : start = position := hstart
    rfl
  | cons c text ih =>
    have hc : Mark.ofChar? c = none := (Mark.ofChar?_eq_none_iff c).mpr (h c List.mem_cons_self)
    rw [List.cons_append, split]
    simp only [hc, ih (fun d hd => h d (List.mem_cons_of_mem _ hd)) (position + 1)]
    rw [show position + 1 + text.length = position + (c :: text).length by simp; omega]
    rfl

theorem not_mem_of_mem_split (position : Nat) (source : List Char) :
    ∀ run ∈ (split position source).1 :: (split position source).2, ∀ c ∈ run.text,
      c ∉ Mark.chars := by
  induction source generalizing position with
  | nil => simp [split]
  | cons c rest ih =>
    intro run hrun
    unfold split at hrun
    cases hc : Mark.ofChar? c with
    | some mark =>
      simp only [hc] at hrun
      rcases List.mem_cons.mp hrun with rfl | hrun
      · simp
      · exact ih (position + 1) run hrun
    | none =>
      simp only [hc] at hrun
      have hih := ih (position + 1)
      rcases List.mem_cons.mp hrun with rfl | hrun
      · intro d hd
        rcases List.mem_cons.mp hd with rfl | hd
        · exact (Mark.ofChar?_eq_none_iff d).mp hc
        · exact hih _ List.mem_cons_self d hd
      · exact hih run (List.mem_cons_of_mem _ hrun)

end Run

/-! ## Tokens -/

def Mark.token (mark : Mark) (position : Nat) : Token :=
  ⟨.mark mark, .ofList [mark.toChar], position⟩

namespace Run

theorem condition?_eq_some_iff (run : Run) (token : Token) :
    run.condition? = some token ↔
      Text.trim run.text ≠ [] ∧ token = ⟨.condition, .ofList (Text.trim run.text), run.start⟩ := by
  unfold condition?
  by_cases hblank : Text.trim run.text = []
  · simp [hblank]
  · simp [hblank, eq_comm]

theorem markToken?_eq_some_iff (run : Run) (token : Token) :
    run.markToken? = some token ↔ ∃ mark, run.mark = some mark ∧ token = mark.token run.stop := by
  unfold markToken?
  cases run.mark with
  | none => simp
  | some mark => simp [Mark.token, eq_comm]

/-- A run has tokens unless its condition meets an opening parenthesis. -/
theorem tokens_eq_ok_iff (run : Run) (ts : List Token) :
    run.tokens = .ok ts ↔
      ¬ (run.condition?.isSome = true ∧ run.mark = some .opening) ∧
        ts = run.condition?.toList ++ run.markToken?.toList := by
  unfold tokens
  by_cases hundivided : run.condition?.isSome = true ∧ run.mark = some .opening
  · rw [if_pos hundivided]
    exact iff_of_false nofun fun h => h.1 hundivided
  · rw [if_neg hundivided]
    constructor
    · intro h
      exact ⟨hundivided, (Except.ok.inj h).symm⟩
    · rintro ⟨-, rfl⟩
      rfl

end Run

theorem Run.flatten_tokens_cons (run : Run) (runs : List Run) :
    ((run :: runs).mapM tokens).map List.flatten =
      run.tokens.bind fun ts => ((runs.mapM tokens).map List.flatten).map (ts ++ ·) := by
  rw [List.mapM_cons]
  cases run.tokens with
  | error e => rfl
  | ok ts => cases runs.mapM tokens <;> rfl

/-- The tokens of a source that begins at `position`. -/
def tokensFrom (position : Nat) (source : List Char) : Except ParseError (List Token) :=
  (((Run.split position source).1 :: (Run.split position source).2).mapM Run.tokens).map List.flatten

theorem tokenize_eq_tokensFrom (source : String) : tokenize source = tokensFrom 0 source.toList := rfl

theorem tokensFrom_text (position : Nat) (text : List Char) (h : ∀ c ∈ text, c ∉ Mark.chars) :
    tokensFrom position text = (Run.mk position text none).tokens := by
  have hsplit := Run.split_append text h position []
  simp only [List.append_nil, Run.split] at hsplit
  unfold tokensFrom
  rw [hsplit, List.mapM_cons, List.mapM_nil]
  cases (Run.mk position text none).tokens with
  | error e => rfl
  | ok ts => exact congrArg Except.ok (List.append_nil ts)

/-- The first run and its mark come before the tokens of the rest. -/
theorem tokensFrom_run (position : Nat) (text : List Char) (h : ∀ c ∈ text, c ∉ Mark.chars)
    (mark : Mark) (rest : List Char) :
    tokensFrom position (text ++ mark.toChar :: rest) =
      (Run.mk position text (some mark)).tokens.bind fun ts =>
        (tokensFrom (position + text.length + 1) rest).map (ts ++ ·) := by
  rw [tokensFrom, tokensFrom, Run.split_append text h, Run.split_mark, Run.flatten_tokens_cons,
    List.append_nil]

theorem tokensFrom_run_eq_ok_iff (position : Nat) (text : List Char) (h : ∀ c ∈ text, c ∉ Mark.chars)
    (mark : Mark) (rest : List Char) (ts : List Token) :
    tokensFrom position (text ++ mark.toChar :: rest) = .ok ts ↔
      ∃ us vs, (Run.mk position text (some mark)).tokens = .ok us ∧
        tokensFrom (position + text.length + 1) rest = .ok vs ∧ ts = us ++ vs := by
  rw [tokensFrom_run position text h]
  constructor
  · intro hts
    cases hrun : (Run.mk position text (some mark)).tokens with
    | error e => rw [hrun] at hts; cases hts
    | ok us =>
      rw [hrun] at hts
      obtain ⟨vs, hvs, rfl⟩ := exists_of_map_eq_ok _ _ _ hts
      exact ⟨us, vs, rfl, hvs, rfl⟩
  · rintro ⟨us, vs, hrun, hvs, rfl⟩
    rw [hrun, hvs]
    rfl

theorem tokensFrom_mark (position : Nat) (mark : Mark) (rest : List Char) :
    tokensFrom position (mark.toChar :: rest) =
      (tokensFrom (position + 1) rest).map (mark.token position :: ·) :=
  tokensFrom_run position [] (by simp) mark rest

theorem tokensFrom_condition (position : Nat) (text : List Char) (h : ∀ c ∈ text, c ∉ Mark.chars)
    (hne : Text.trim text ≠ []) (mark : Mark) (hm : mark ≠ .opening) (rest : List Char) :
    tokensFrom position (text ++ mark.toChar :: rest) =
      (tokensFrom (position + text.length) (mark.toChar :: rest)).map
        (⟨.condition, .ofList (Text.trim text), position⟩ :: ·) := by
  have hrun : (Run.mk position text (some mark)).tokens =
      .ok [⟨.condition, .ofList (Text.trim text), position⟩,
        mark.token (position + text.length)] := by
    simp [Run.tokens, Run.condition?, Run.markToken?, Run.stop, Mark.token, hne, hm]
  rw [tokensFrom_run position text h, tokensFrom_mark, hrun]
  cases tokensFrom (position + text.length + 1) rest <;> rfl

theorem tokensFrom_last (position : Nat) (text : List Char) (h : ∀ c ∈ text, c ∉ Mark.chars)
    (hne : Text.trim text ≠ []) :
    tokensFrom position text = .ok [⟨.condition, .ofList (Text.trim text), position⟩] := by
  rw [tokensFrom_text position text h]
  simp [Run.tokens, Run.condition?, Run.markToken?, hne]

/-- The text of a condition holds no mark and does not end in a blank. -/
theorem condition_of_mem_tokenize (source : String) (ts : List Token) (h : tokenize source = .ok ts)
    (token : Token) (ht : token ∈ ts) (hk : token.kind = .condition) :
    (∀ c ∈ token.text.toList, c ∉ Mark.chars) ∧
      ∀ c ∈ token.text.toList.getLast?, Text.isBlank c = false := by
  rw [tokenize_eq_tokensFrom, tokensFrom] at h
  cases hm : ((Run.split 0 source.toList).1 :: (Run.split 0 source.toList).2).mapM Run.tokens with
  | error e => rw [hm] at h; cases h
  | ok lists =>
    rw [hm] at h
    obtain rfl := Except.ok.inj h
    obtain ⟨l, hl, htl⟩ := List.mem_flatten.mp ht
    obtain ⟨run, hrun, htokens⟩ := exists_of_mem_mapM _ _ _ hm l hl
    have hfree := Run.not_mem_of_mem_split 0 source.toList run hrun
    obtain ⟨-, rfl⟩ := (run.tokens_eq_ok_iff l).mp htokens
    rcases List.mem_append.mp htl with hc | hc
    · obtain ⟨-, rfl⟩ := (run.condition?_eq_some_iff token).mp (Option.mem_toList.mp hc)
      rw [String.toList_ofList]
      exact ⟨fun c hmem => hfree c (Text.mem_of_mem_trim _ c hmem), Text.getLast?_trim run.text⟩
    · obtain ⟨mark, -, rfl⟩ := (run.markToken?_eq_some_iff token).mp (Option.mem_toList.mp hc)
      cases hk

/-- A source is divided into tokens unless a delimiter is missing. -/
theorem error_of_tokenize (source : String) (error : ParseError) (h : tokenize source = .error error) :
    ∃ position, error = .missingDelimiter position := by
  have herror : (Run.all source.toList).mapM Run.tokens = .error error := by
    unfold tokenize at h
    cases hm : (Run.all source.toList).mapM Run.tokens with
    | error e => rw [hm] at h; rw [Except.error.inj h]
    | ok lists => rw [hm] at h; cases h
  obtain ⟨-, run, -, -, -, hrun⟩ := (mapM_eq_error_iff _ _ _).mp herror
  unfold Run.tokens at hrun
  split at hrun
  · exact ⟨_, (Except.error.inj hrun).symm⟩
  · cases hrun

/-! ## Run by run -/

theorem Mark.eq_toChar_of_ofChar? (c : Char) (mark : Mark) (h : ofChar? c = some mark) :
    c = mark.toChar := by
  have hmem : c ∈ chars := by
    by_contra hc
    rw [(ofChar?_eq_none_iff c).mpr hc] at h
    cases h
  simp only [chars, List.mem_cons, List.not_mem_nil, or_false] at hmem
  rcases hmem with rfl | rfl | rfl | rfl <;> (cases h; rfl)

/-- Every source is a run without a mark, or a run, its mark, and another source. -/
theorem source_induction {P : List Char → Prop}
    (last : ∀ text, (∀ c ∈ text, c ∉ Mark.chars) → P text)
    (mark : ∀ text (mark : Mark) rest, (∀ c ∈ text, c ∉ Mark.chars) → P rest →
      P (text ++ mark.toChar :: rest))
    (source : List Char) : P source := by
  -- the run that is open when a character is reached is kept general
  suffices h : ∀ text, (∀ c ∈ text, c ∉ Mark.chars) → P (text ++ source) from h [] (by simp)
  induction source with
  | nil =>
    intro text htext
    rw [List.append_nil]
    exact last text htext
  | cons c rest ih =>
    intro text htext
    cases hc : Mark.ofChar? c with
    | some m =>
      rw [Mark.eq_toChar_of_ofChar? c m hc]
      exact mark text m rest htext (ih [] (by simp))
    | none =>
      have hfree := (Mark.ofChar?_eq_none_iff c).mp hc
      rw [← List.singleton_append, ← List.append_assoc]
      refine ih (text ++ [c]) fun d hd => ?_
      rcases List.mem_append.mp hd with hd | hd
      · exact htext d hd
      · rwa [List.mem_singleton.mp hd]

theorem Run.tokens_of_ne_opening (position : Nat) (text : List Char) (mark : Mark)
    (hm : mark ≠ .opening) :
    (Run.mk position text (some mark)).tokens =
      (Run.mk position text none).tokens.map (· ++ [mark.token (position + text.length)]) := by
  simp [Run.tokens, hm, Run.condition?, Run.markToken?, Run.stop, Mark.token, Except.map]

/-- A mark that is no opening parenthesis divides a source: it ends the run before it, and the tokens on
either side are those of the two parts. -/
theorem tokensFrom_append_mark (mark : Mark) (hm : mark ≠ .opening) (source rest : List Char)
    (position : Nat) :
    tokensFrom position (source ++ mark.toChar :: rest) =
      (tokensFrom position source).bind fun ts =>
        (tokensFrom (position + source.length + 1) rest).map
          (ts ++ mark.token (position + source.length) :: ·) := by
  induction source using source_induction generalizing position with
  | last text h =>
    rw [tokensFrom_run position text h, tokensFrom_text position text h,
      Run.tokens_of_ne_opening position text mark hm]
    cases (Run.mk position text none).tokens with
    | error e => rfl
    | ok ts => simp [Except.map, Except.bind]
  | mark text m before h ih =>
    have hlength : position + (text ++ m.toChar :: before).length =
        position + text.length + 1 + before.length := by
      rw [List.length_append, List.length_cons]
      omega
    rw [List.append_assoc, List.cons_append, tokensFrom_run position text h m,
      tokensFrom_run position text h m, ih, hlength]
    cases (Run.mk position text (some m)).tokens with
    | error e => rfl
    | ok ts =>
      cases tokensFrom (position + text.length + 1) before with
      | error e => rfl
      | ok us =>
        cases tokensFrom (position + text.length + 1 + before.length + 1) rest <;>
          simp [Except.map, Except.bind]

/-! ## Marks -/

def Token.mark? (token : Token) : Option Mark :=
  match token.kind with
  | .condition => none
  | .mark mark => some mark

theorem Run.marks_of_tokens (run : Run) (ts : List Token) (h : run.tokens = .ok ts) :
    ts.filterMap Token.mark? = run.mark.toList := by
  obtain ⟨-, rfl⟩ := (run.tokens_eq_ok_iff ts).mp h
  have hcondition : run.condition?.toList.filterMap Token.mark? = [] := by
    unfold condition?
    dsimp only
    split <;> rfl
  rw [List.filterMap_append, hcondition, List.nil_append, markToken?]
  cases run.mark <;> rfl

theorem filterMap_ofChar?_eq_nil (text : List Char) (h : ∀ c ∈ text, c ∉ Mark.chars) :
    text.filterMap Mark.ofChar? = [] := by
  rw [List.filterMap_eq_nil_iff]
  intro c hc
  exact (Mark.ofChar?_eq_none_iff c).mpr (h c hc)

/-- The tokens have the marks of their source, in order. -/
theorem marks_of_tokensFrom (source : List Char) (position : Nat) (ts : List Token)
    (h : tokensFrom position source = .ok ts) :
    ts.filterMap Token.mark? = source.filterMap Mark.ofChar? := by
  induction source using source_induction generalizing position ts with
  | last text htext =>
    rw [tokensFrom_text position text htext] at h
    rw [Run.marks_of_tokens _ ts h, filterMap_ofChar?_eq_nil text htext]
    rfl
  | mark text m rest htext ih =>
    obtain ⟨us, vs, hus, hvs, rfl⟩ := (tokensFrom_run_eq_ok_iff position text htext m rest ts).mp h
    rw [List.filterMap_append, List.filterMap_append, Run.marks_of_tokens _ us hus, ih _ vs hvs,
      filterMap_ofChar?_eq_nil text htext, List.filterMap_cons_some (Mark.ofChar?_toChar m)]
    rfl

end ResourceUrl
