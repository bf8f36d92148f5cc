import ResourceUrl.Proofs.Tokens

/-!
# Tokens in one pass

A source can be tokenized in one pass over its characters, with a buffer for the run that is open
(`scan`).  A mark ends the run: it leaves the buffer empty and adds the tokens that the run has
(`Scanner.Holds.step_mark`).  So a pass whose buffer holds what there is from `start` on adds to its tokens
those of the buffer and of the characters to come,

    (s.pass (start + s.buffer.length) rest).map (·.flush.tokens) =
      (tokensFrom start (s.buffer ++ rest)).map (s.tokens ++ ·)          (Scanner.pass_eq_tokensFrom)

and from an empty buffer these are the tokens of the source (`scan_eq_tokenize`).
-/

namespace ResourceUrl

/-- The state of a pass: the run that is open, where it begins, and the tokens before it. -/
structure Scanner where
  buffer : List Char := []
  start : Nat := 0
  tokens : List Token := []

namespace Scanner

def emit (s : Scanner) (token : Token) : Scanner :=
  { s with tokens := s.tokens ++ [token] }

def clear (s : Scanner) : Scanner :=
  { s with buffer := [] }

/-- Adds a character to the run, which begins with it if the buffer is empty. -/
def push (s : Scanner) (position : Nat) (c : Char) : Scanner :=
  { s with start := if s.buffer = [] then position else s.start, buffer := s.buffer ++ [c] }

/-- Ends the run that is open: it is a condition unless it is blank. -/
def flush (s : Scanner) : Scanner :=
  let text := Text.trim s.buffer
  if text = [] then s.clear else (s.emit ⟨.condition, .ofList text, s.start⟩).clear

/-- Passes the character at a position.  An opening parenthesis drops the buffer; a text in it is let by
only if it ends in the mark of `and`, which it never does (`Holds.getLast?_pending_ne`). -/
def step (s : Scanner) (position : Nat) (c : Char) : Except ParseError Scanner :=
  match Mark.ofChar? c with
  | some .opening =>
    let pending := Text.trim s.buffer
    if pending ≠ [] ∧ pending.getLast? ≠ some Logical.and.mark then
      .error (.missingDelimiter (some position))
    else .ok (s.clear.emit (Mark.opening.token position))
  | some mark => .ok (s.flush.emit (mark.token position))
  | none => .ok (s.push position c)

/-- Passes characters from a position on. -/
def pass (s : Scanner) (position : Nat) : List Char → Except ParseError Scanner
  | [] => .ok s
  | c :: rest => do (← s.step position c).pass (position + 1) rest

end Scanner

/-- The tokens of a source in one pass. -/
def scan (source : String) : Except ParseError (List Token) :=
  (Scanner.pass {} 0 source.toList).map (·.flush.tokens)

namespace Scanner

/-- The buffer holds the characters of a run from `start` on. -/
structure Holds (s : Scanner) (start : Nat) : Prop where
  free : ∀ c ∈ s.buffer, c ∉ Mark.chars
  start_eq : s.buffer ≠ [] → s.start = start

namespace Holds

variable {s : Scanner} {start : Nat} (h : s.Holds start)
include h

theorem flush_eq (mark : Option Mark) :
    s.flush = { s with buffer := [],
                       tokens := s.tokens ++ (Run.mk start s.buffer mark).condition?.toList } := by
  unfold flush Run.condition?
  dsimp only
  split
  · simp [clear]
  · next hne =>
    have hbuffer : s.buffer ≠ [] := by
      intro hnil
      rw [hnil] at hne
      exact hne rfl
    simp [clear, emit, h.start_eq hbuffer]

theorem getLast?_pending_ne : (Text.trim s.buffer).getLast? ≠ some Logical.and.mark := by
  intro hlast
  have hmem := Text.mem_of_mem_trim _ _ (List.mem_of_getLast? hlast)
  exact h.free _ hmem (by decide)

/-- A mark adds the tokens of the run that it ends. -/
theorem step_mark (mark : Mark) :
    s.step (start + s.buffer.length) mark.toChar =
      (Run.mk start s.buffer (some mark)).tokens.map fun ts =>
        { s with buffer := [], tokens := s.tokens ++ ts } := by
  unfold step
  rw [Mark.ofChar?_toChar]
  by_cases hm : mark = .opening
  · subst hm
    by_cases hblank : Text.trim s.buffer = []
    · simp [hblank, Run.tokens, Run.condition?, Run.markToken?, Run.stop, Mark.token, clear, emit, Except.map]
    · simp [hblank, h.getLast?_pending_ne, Run.tokens, Run.condition?, Run.stop, Except.map]
  · have htokens : (Run.mk start s.buffer (some mark)).tokens =
        .ok ((Run.mk start s.buffer (some mark)).condition?.toList ++
          [mark.token (start + s.buffer.length)]) := by
      simp [Run.tokens, hm, Run.markToken?, Run.stop, Mark.token]
    rw [htokens, Except.map]
    have hflush := h.flush_eq (some mark)
    cases mark with
    | opening => exact absurd rfl hm
    | closing => simp [hflush, emit]
    | delimiter l => simp [hflush, emit]

theorem push (c : Char) (hc : c ∉ Mark.chars) : (s.push (start + s.buffer.length) c).Holds start := by
  constructor
  · intro d hd
    rcases List.mem_append.mp hd with hd | hd
    · exact h.free d hd
    · rwa [List.mem_singleton.mp hd]
  · intro _
    unfold Scanner.push
    dsimp only
    split
    · next hnil => rw [hnil]; rfl
    · next hne => exact h.start_eq hne

end Holds

/-- The pass adds the tokens of the buffer and of the characters to come. -/
theorem pass_eq_tokensFrom (rest : List Char) (s : Scanner) (start : Nat) (h : s.Holds start) :
    (s.pass (start + s.buffer.length) rest).map (·.flush.tokens) =
      (tokensFrom start (s.buffer ++ rest)).map (s.tokens ++ ·) := by
  induction rest generalizing s start with
  | nil =>
    rw [List.append_nil, tokensFrom_text start s.buffer h.free, pass]
    simp [Except.map, h.flush_eq none, Run.tokens, Run.markToken?]
  | cons c rest ih =>
    rw [pass]
    cases hc : Mark.ofChar? c with
    | some mark =>
      obtain rfl := Mark.eq_toChar_of_ofChar? c mark hc
      rw [h.step_mark, tokensFrom_run start s.buffer h.free]
      cases (Run.mk start s.buffer (some mark)).tokens with
      | error e => rfl
      | ok ts =>
        calc ((Scanner.mk [] s.start (s.tokens ++ ts)).pass (start + s.buffer.length + 1) rest).map
                (·.flush.tokens)
            = (tokensFrom (start + s.buffer.length + 1) rest).map (s.tokens ++ ts ++ ·) :=
              ih _ _ ⟨by simp, by simp⟩
          _ = ((tokensFrom (start + s.buffer.length + 1) rest).map (ts ++ ·)).map (s.tokens ++ ·) := by
              cases tokensFrom (start + s.buffer.length + 1) rest <;> simp [Except.map]
    | none =>
      have hfree := (Mark.ofChar?_eq_none_iff c).mp hc
      have hnext := ih _ start (h.push c hfree)
      simp only [Scanner.push, List.append_assoc, List.singleton_append, List.length_append,
        List.length_singleton] at hnext
      unfold step
      rw [hc]
      exact hnext

end Scanner

/-- One pass gives the tokens of the runs of a source. -/
theorem scan_eq_tokenize (source : String) : scan source = tokenize source := by
  have h := Scanner.pass_eq_tokensFrom source.toList {} 0 ⟨by simp, by simp⟩
  rw [scan, tokenize_eq_tokensFrom]
  calc (Scanner.pass {} 0 source.toList).map (·.flush.tokens)
      = (tokensFrom 0 source.toList).map ([] ++ ·) := h
    _ = tokensFrom 0 source.toList := by cases tokensFrom 0 source.toList <;> rfl

end ResourceUrl
