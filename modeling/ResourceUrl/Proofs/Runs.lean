import Mathlib.Data.List.Chain
import Mathlib.Data.List.Nodup
import ResourceUrl.Proofs.Tokens

/-!
# Tokens by position

A source can be described by its positions alone: a mark stands at some of them (`IsMarkAt`), and a run
is a stretch without marks that goes as far as it can on both sides (`IsRun`).  Its tokens are the runs
that are not blank and the marks, in the order in which they begin, unless an opening parenthesis
stands right after such a run (`tokenize_by_position`):

    tokenize source = .ok ts  ↔
      nothing in the source is undivided ∧ the positions of ts increase ∧
        ∀ token, token ∈ ts ↔ IsTokenOf source token

Runs do not overlap (`IsRun.unique`), so each step of tokenizing settles the positions up to the next
mark, and `isTokenized_tokensFrom` carries this through a source from a mark onwards.
-/

namespace ResourceUrl

/-! ## Positions -/

def IsMarkAt (source : List Char) (position : Nat) : Prop :=
  ∃ mark : Mark, source[position]? = some mark.toChar

/-- From `start` up to `stop` there is no mark, and on either side a mark or an end of the source. -/
structure IsRun (source : List Char) (start stop : Nat) : Prop where
  start_le : start ≤ stop
  stop_le : stop ≤ source.length
  free : ∀ p, start ≤ p → p < stop → ¬ IsMarkAt source p
  before : start = 0 ∨ IsMarkAt source (start - 1)
  after : stop = source.length ∨ IsMarkAt source stop

def stretch (source : List Char) (start stop : Nat) : List Char :=
  (source.take stop).drop start

/-- The tokens that a source should have. -/
inductive IsTokenOf (source : List Char) : Token → Prop
  /-- A run that is not blank is a condition.  It begins with its run, but its text is trimmed. -/
  | condition {start stop : Nat} : IsRun source start stop →
      Text.trim (stretch source start stop) ≠ [] →
      IsTokenOf source ⟨.condition, .ofList (Text.trim (stretch source start stop)), start⟩
  /-- A mark is a token by itself. -/
  | mark {position : Nat} {mark : Mark} : source[position]? = some mark.toChar →
      IsTokenOf source ⟨.mark mark, .ofList [mark.toChar], position⟩

/-- At the position stands an opening parenthesis, right after a run that is not blank. -/
def IsUndivided (source : List Char) (position : Nat) : Prop :=
  source[position]? = some '(' ∧
    ∃ start, IsRun source start position ∧ Text.trim (stretch source start position) ≠ []

theorem Mark.toChar_mem_chars (mark : Mark) : mark.toChar ∈ chars := by
  by_contra h
  have hnone := (ofChar?_eq_none_iff mark.toChar).mpr h
  rw [ofChar?_toChar] at hnone
  cases hnone

theorem Mark.toChar_injective (mark other : Mark) (h : mark.toChar = other.toChar) : mark = other := by
  have hsome := ofChar?_toChar mark
  rw [h, ofChar?_toChar] at hsome
  exact (Option.some.inj hsome).symm

theorem IsMarkAt.lt {source : List Char} {p : Nat} (h : IsMarkAt source p) : p < source.length := by
  obtain ⟨mark, hm⟩ := h
  exact (List.getElem?_eq_some_iff.mp hm).1

theorem IsUndivided.isMarkAt {source : List Char} {p : Nat} (h : IsUndivided source p) :
    IsMarkAt source p :=
  ⟨.opening, h.1⟩

theorem IsRun.unique {source : List Char} {start stop start' stop' : Nat} (h : IsRun source start stop)
    (h' : IsRun source start' stop') (hle : start ≤ start') (hshared : start' ≤ stop) :
    start = start' ∧ stop = stop' := by
  have hstart : start = start' := by
    by_contra hne
    rcases h'.before with hzero | hmark
    · omega
    · exact h.free (start' - 1) (by omega) (by omega) hmark
  subst hstart
  refine ⟨rfl, ?_⟩
  by_contra hne
  rcases Nat.lt_or_gt_of_ne hne with hlt | hlt
  · rcases h.after with hend | hmark
    · have := h'.stop_le
      omega
    · exact h'.free stop h.start_le hlt hmark
  · rcases h'.after with hend | hmark
    · have := h.stop_le
      omega
    · exact h.free stop' h'.start_le hlt hmark

theorem IsRun.start_unique {source : List Char} {start start' stop : Nat} (h : IsRun source start stop)
    (h' : IsRun source start' stop) : start = start' := by
  rcases Nat.le_total start start' with hle | hle
  · exact (h.unique h' hle h'.start_le).1
  · exact (h'.unique h hle h.start_le).1.symm

section
variable {source : List Char} {start stop : Nat} (h : IsRun source start stop)
include h

/-- A token that begins within a run or at its end is the condition of the run or the mark after it. -/
theorem IsRun.eq_of_isTokenOf (token : Token) (ht : IsTokenOf source token)
    (hl : start ≤ token.position) (hu : token.position ≤ stop) :
    (Text.trim (stretch source start stop) ≠ [] ∧
      token = ⟨.condition, .ofList (Text.trim (stretch source start stop)), start⟩) ∨
    ∃ mark : Mark, source[stop]? = some mark.toChar ∧ token = mark.token stop := by
  cases ht with
  | condition hrun hne =>
    obtain ⟨rfl, rfl⟩ := h.unique hrun hl hu
    exact Or.inl ⟨hne, rfl⟩
  | @mark position mark hm =>
    have hstop : position = stop := by
      by_contra hne
      have hlt : position < stop := Nat.lt_of_le_of_ne hu hne
      exact h.free position hl hlt ⟨mark, hm⟩
    subst hstop
    exact Or.inr ⟨mark, hm, rfl⟩

/-- Only at the end of a run can an opening parenthesis be joined to it. -/
theorem IsRun.eq_of_isUndivided (p : Nat) (hp : IsUndivided source p) (hl : start ≤ p) (hu : p ≤ stop) :
    p = stop ∧ Text.trim (stretch source start stop) ≠ [] := by
  have hstop : p = stop := by
    by_contra hne
    exact h.free p hl (Nat.lt_of_le_of_ne hu hne) hp.isMarkAt
  subst hstop
  obtain ⟨-, start', hrun, hne⟩ := hp
  obtain rfl := h.start_unique hrun
  exact ⟨rfl, hne⟩

end

/-! ## The tokens of a run -/

def AreOrdered (ts : List Token) : Prop :=
  ts.Pairwise fun a b => a.position < b.position

namespace Run

/-- The run is one of the source, with the mark that follows it there. -/
structure StandsIn (run : Run) (source : List Char) : Prop where
  isRun : IsRun source run.start run.stop
  text : stretch source run.start run.stop = run.text
  mark : source[run.stop]? = run.mark.map Mark.toChar

theorem isSome_condition?_iff (run : Run) : run.condition?.isSome = true ↔ Text.trim run.text ≠ [] := by
  simp [Option.isSome_iff_exists, condition?_eq_some_iff]

theorem areOrdered (run : Run) : AreOrdered (run.condition?.toList ++ run.markToken?.toList) := by
  have hsingle : ∀ token : Option Token, AreOrdered token.toList := by
    intro token
    cases token with
    | none => exact .nil
    | some token => exact List.pairwise_singleton _ _
  refine List.pairwise_append.mpr ⟨hsingle _, hsingle _, fun a ha b hb => ?_⟩
  obtain ⟨hne, rfl⟩ := (condition?_eq_some_iff run a).mp (Option.mem_toList.mp ha)
  obtain ⟨mark, -, rfl⟩ := (markToken?_eq_some_iff run b).mp (Option.mem_toList.mp hb)
  have hlength : 0 < run.text.length := by
    rw [List.length_pos_iff]
    intro hnil
    rw [hnil] at hne
    exact hne rfl
  show run.start < run.start + run.text.length
  omega

section
variable {run : Run} {source : List Char} (h : run.StandsIn source)
include h

theorem StandsIn.mem_tokens_iff (token : Token) :
    token ∈ run.condition?.toList ++ run.markToken?.toList ↔
      IsTokenOf source token ∧ run.start ≤ token.position ∧ token.position ≤ run.stop := by
  have hle := h.isRun.start_le
  rw [List.mem_append, Option.mem_toList, Option.mem_toList, condition?_eq_some_iff, markToken?_eq_some_iff]
  constructor
  · rintro (⟨hne, rfl⟩ | ⟨mark, hm, rfl⟩)
    · rw [← h.text] at hne ⊢
      exact ⟨.condition h.isRun hne, Nat.le_refl _, hle⟩
    · have hchar := h.mark
      rw [hm] at hchar
      exact ⟨.mark hchar, hle, Nat.le_refl _⟩
  · rintro ⟨htoken, hl, hu⟩
    rcases h.isRun.eq_of_isTokenOf token htoken hl hu with hcondition | ⟨mark, hm, rfl⟩
    · rw [h.text] at hcondition
      exact Or.inl hcondition
    · rw [h.mark] at hm
      obtain ⟨other, hother, hchar⟩ := Option.map_eq_some_iff.mp hm
      obtain rfl := Mark.toChar_injective _ _ hchar
      exact Or.inr ⟨other, hother, rfl⟩

/-- Within a run and at its end, only the mark of a run that is not blank can be undivided. -/
theorem StandsIn.isUndivided_iff (p : Nat) (hl : run.start ≤ p) (hu : p ≤ run.stop) :
    IsUndivided source p ↔ p = run.stop ∧ run.condition?.isSome = true ∧ run.mark = some .opening := by
  rw [isSome_condition?_iff, ← h.text]
  constructor
  · intro hp
    obtain ⟨rfl, hne⟩ := h.isRun.eq_of_isUndivided p hp hl hu
    have hchar := hp.1
    rw [h.mark] at hchar
    obtain ⟨mark, hm, hopening⟩ := Option.map_eq_some_iff.mp hchar
    obtain rfl : mark = .opening := Mark.toChar_injective _ _ hopening
    exact ⟨rfl, hne, hm⟩
  · rintro ⟨rfl, hne, hm⟩
    refine ⟨?_, run.start, h.isRun, hne⟩
    rw [h.mark, hm]
    rfl

end

end Run

/-! ## The outcome by position -/

/-- What tokenizing a source from `start` onwards comes to: a report of the first opening parenthesis
that is not divided from the run before it, or all tokens in order. -/
inductive IsTokenized (source : List Char) (start : Nat) : Except ParseError (List Token) → Prop
  | error {p : Nat} : start ≤ p → IsUndivided source p →
      (∀ q, start ≤ q → q < p → ¬ IsUndivided source q) →
      IsTokenized source start (.error (.missingDelimiter (some p)))
  | ok {ts : List Token} : (∀ q, start ≤ q → ¬ IsUndivided source q) → AreOrdered ts →
      (∀ token, token ∈ ts ↔ IsTokenOf source token ∧ start ≤ token.position) →
      IsTokenized source start (.ok ts)

theorem isTokenized_end (source : List Char) (start : Nat) (h : source.length < start) :
    IsTokenized source start (.ok []) := by
  refine .ok (fun q hq hu => ?_) .nil fun token => ?_
  · have := hu.isMarkAt.lt
    omega
  · refine iff_of_false List.not_mem_nil fun ⟨htoken, hl⟩ => ?_
    cases htoken with
    | condition hrun hne =>
      have := hrun.start_le
      have := hrun.stop_le
      dsimp only at hl
      omega
    | @mark position mark hm =>
      have := IsMarkAt.lt ⟨mark, hm⟩
      dsimp only at hl
      omega

/-- The tokens of a run go before whatever tokenizing comes to after its mark. -/
theorem Run.StandsIn.isTokenized {run : Run} {source : List Char} (h : run.StandsIn source)
    (outcome : Except ParseError (List Token)) (hrest : IsTokenized source (run.stop + 1) outcome) :
    IsTokenized source run.start (run.tokens.bind fun ts => outcome.map (ts ++ ·)) := by
  have hle := h.isRun.start_le
  have hwithin := h.isUndivided_iff
  unfold Run.tokens
  split
  · next hundivided =>
    refine .error hle ((hwithin _ hle (Nat.le_refl _)).mpr ⟨rfl, hundivided⟩) fun q hl hlt hq => ?_
    have := ((hwithin q hl (Nat.le_of_lt hlt)).mp hq).1
    omega
  · next hdivided =>
    have hnone : ∀ q, run.start ≤ q → q ≤ run.stop → ¬ IsUndivided source q := by
      intro q hl hu hq
      exact hdivided ((hwithin q hl hu).mp hq).2
    cases hrest with
    | @error p hl hp hfirst =>
      refine .error (by omega) hp fun q hq hlt => ?_
      by_cases hu : q ≤ run.stop
      · exact hnone q hq hu
      · exact hfirst q (by omega) hlt
    | @ok ts hafter hordered hmem =>
      refine .ok (fun q hq => ?_) ?_ fun token => ?_
      · by_cases hu : q ≤ run.stop
        · exact hnone q hq hu
        · exact hafter q (by omega)
      · refine List.pairwise_append.mpr ⟨run.areOrdered, hordered, fun a ha b hb => ?_⟩
        have := ((h.mem_tokens_iff a).mp ha).2.2
        have := ((hmem b).mp hb).2
        omega
      · rw [List.mem_append, h.mem_tokens_iff, hmem]
        constructor
        · rintro (⟨htoken, hl, -⟩ | ⟨htoken, hl⟩)
          · exact ⟨htoken, hl⟩
          · exact ⟨htoken, by omega⟩
        · rintro ⟨htoken, hl⟩
          by_cases hu : token.position ≤ run.stop
          · exact Or.inl ⟨htoken, hl, hu⟩
          · exact Or.inr ⟨htoken, by omega⟩

/-! ## Run by run through a source -/

/-- A source may be divided after this part of it. -/
def EndsInMark (before : List Char) : Prop :=
  before = [] ∨ ∃ (front : List Char) (mark : Mark), before = front ++ [mark.toChar]

/-- Text without marks, with a mark or an end of the source on either side, is a run. -/
theorem Run.standsIn_append (before text : List Char) (mark : Option Mark) (rest : List Char)
    (hb : EndsInMark before) (ht : ∀ c ∈ text, c ∉ Mark.chars)
    (hr : rest.head? = mark.map Mark.toChar) :
    (Run.mk before.length text mark).StandsIn (before ++ (text ++ rest)) := by
  have hmark : (before ++ (text ++ rest))[before.length + text.length]? = mark.map Mark.toChar := by
    rw [List.getElem?_append_right (by omega), Nat.add_sub_cancel_left,
      List.getElem?_append_right (Nat.le_refl _), Nat.sub_self, ← List.head?_eq_getElem?, hr]
  refine ⟨⟨Nat.le_add_right _ _, ?_, ?_, ?_, ?_⟩, ?_, hmark⟩
  · show before.length + text.length ≤ _
    rw [List.length_append, List.length_append]
    omega
  · rintro p hl hu ⟨other, hother⟩
    have hlt : p < before.length + text.length := hu
    have hle : before.length ≤ p := hl
    rw [List.getElem?_append_right hle, List.getElem?_append_left (by omega)] at hother
    exact ht _ (List.mem_of_getElem? hother) other.toChar_mem_chars
  · rcases hb with rfl | ⟨front, last, rfl⟩
    · exact Or.inl rfl
    · right
      refine ⟨last, ?_⟩
      simp
  · cases mark with
    | none =>
      left
      obtain rfl := List.head?_eq_none_iff.mp hr
      show before.length + text.length = _
      rw [List.append_nil, List.length_append]
    | some mark => exact Or.inr ⟨mark, hmark⟩
  · show (List.take (before.length + text.length) _).drop before.length = text
    rw [← List.append_assoc, List.take_left' List.length_append, List.drop_left' rfl]

/-- Tokenizing from a mark onwards, or from the start, settles the positions of the source from there. -/
theorem isTokenized_tokensFrom (rest before : List Char) (hb : EndsInMark before) :
    IsTokenized (before ++ rest) before.length (tokensFrom before.length rest) := by
  induction rest using source_induction generalizing before with
  | last text ht =>
    have hstands := Run.standsIn_append before text none [] hb ht rfl
    rw [List.append_nil] at hstands
    have hlast := hstands.isTokenized (.ok []) (isTokenized_end _ _ (by
      show (before ++ text).length < before.length + text.length + 1
      rw [List.length_append]
      omega))
    rw [tokensFrom_text before.length text ht]
    cases htokens : (Run.mk before.length text none).tokens with
    | error e => rwa [htokens] at hlast
    | ok ts =>
      rw [htokens] at hlast
      rwa [← List.append_nil ts]
  | mark text mark rest ht ih =>
    rw [tokensFrom_run before.length text ht mark rest]
    apply (Run.standsIn_append before text (some mark) _ hb ht rfl).isTokenized
    have hnext := ih (before ++ (text ++ [mark.toChar])) (Or.inr ⟨before ++ text, mark, by simp⟩)
    have hlength : (before ++ (text ++ [mark.toChar])).length = before.length + text.length + 1 := by
      rw [List.length_append, List.length_append, List.length_singleton]
      omega
    have hsource : before ++ (text ++ [mark.toChar]) ++ rest = before ++ (text ++ mark.toChar :: rest) := by
      simp
    rw [hlength, hsource] at hnext
    exact hnext

/-- Tokens in order are told by which they are. -/
theorem AreOrdered.eq_of_mem_iff {ts us : List Token} (hts : AreOrdered ts) (hus : AreOrdered us)
    (h : ∀ token, token ∈ ts ↔ token ∈ us) : ts = us := by
  have hnodup : ∀ l : List Token, AreOrdered l → l.Nodup := by
    intro l hl
    refine hl.imp fun hab heq => ?_
    rw [heq] at hab
    exact Nat.lt_irrefl _ hab
  refine List.Perm.eq_of_pairwise (fun a b _ _ hab hba => ?_) hts hus
    ((List.perm_ext_iff_of_nodup (hnodup ts hts) (hnodup us hus)).mpr h)
  exact absurd hba (Nat.lt_asymm hab)

/-! ## Neighbours -/

/-- Whether one token may stand right before another: a condition is followed neither by another one
nor by an opening parenthesis. -/
def MayPrecede (a b : Token) : Prop :=
  a.kind = .condition → b.kind ≠ .condition ∧ b.kind ≠ .mark .opening

theorem Run.isChain_tokens (run : Run) (ts : List Token) (h : run.tokens = .ok ts) :
    ts.IsChain MayPrecede := by
  obtain ⟨hdivided, rfl⟩ := (run.tokens_eq_ok_iff ts).mp h
  cases hcondition : run.condition? with
  | none =>
    cases run.markToken? with
    | none => exact .nil
    | some token => exact .singleton _
  | some condition =>
    cases hmark : run.markToken? with
    | none => exact .singleton _
    | some token =>
      obtain ⟨mark, hm, rfl⟩ := (run.markToken?_eq_some_iff token).mp hmark
      refine List.IsChain.cons_cons (fun _ => ⟨Token.Kind.noConfusion, fun hopening => ?_⟩) (.singleton _)
      obtain rfl : mark = .opening := Token.Kind.mark.inj hopening
      exact hdivided ⟨by rw [hcondition]; rfl, hm⟩

theorem Run.getLast?_tokens (position : Nat) (text : List Char) (mark : Mark) (ts : List Token)
    (h : (Run.mk position text (some mark)).tokens = .ok ts) :
    ts.getLast? = some (mark.token (position + text.length)) := by
  obtain ⟨-, rfl⟩ := (tokens_eq_ok_iff _ ts).mp h
  rw [List.getLast?_append]
  rfl

theorem isChain_of_tokensFrom (source : List Char) (position : Nat) (ts : List Token)
    (h : tokensFrom position source = .ok ts) : ts.IsChain MayPrecede := by
  induction source using source_induction generalizing position ts with
  | last text ht =>
    rw [tokensFrom_text position text ht] at h
    exact Run.isChain_tokens _ ts h
  | mark text mark rest ht ih =>
    obtain ⟨us, vs, hus, hvs, rfl⟩ := (tokensFrom_run_eq_ok_iff position text ht mark rest ts).mp h
    -- no condition is followed by a token of another run
    refine (Run.isChain_tokens _ us hus).append (ih _ vs hvs) fun a ha b _ hk => ?_
    rw [Run.getLast?_tokens position text mark us hus] at ha
    obtain rfl := Option.some.inj ha
    cases hk

/-- The tokens of a source are its runs that are not blank and its marks, in order.  There are none
exactly when some opening parenthesis is not divided from a run before it, and then the first of
these is reported. -/
theorem tokenize_by_position (source : String) :
    ((∃ error, tokenize source = .error error) ↔ ∃ p, IsUndivided source.toList p) ∧
    (∀ error, tokenize source = .error error →
      ∃ p : Nat, error = .missingDelimiter (some p) ∧ IsUndivided source.toList p ∧
        ∀ q < p, ¬ IsUndivided source.toList q) ∧
    (∀ ts, tokenize source = .ok ts ↔
      (∀ p, ¬ IsUndivided source.toList p) ∧ ts.Pairwise (fun a b => a.position < b.position) ∧
        ∀ token, token ∈ ts ↔ IsTokenOf source.toList token) ∧
    ∀ ts, tokenize source = .ok ts → ts.IsChain fun a b =>
      a.kind = .condition → b.kind ≠ .condition ∧ b.kind ≠ .mark .opening := by
  have hsource := isTokenized_tokensFrom source.toList [] (Or.inl rfl)
  rw [List.nil_append, List.length_nil, ← tokenize_eq_tokensFrom] at hsource
  have hchain := fun ts => isChain_of_tokensFrom source.toList 0 ts
  rw [← tokenize_eq_tokensFrom] at hchain
  generalize tokenize source = outcome at hsource hchain
  cases hsource with
  | @error p hl hp hfirst =>
    refine ⟨iff_of_true ⟨_, rfl⟩ ⟨p, hp⟩, fun error he => ?_, fun ts => ?_, hchain⟩
    · obtain rfl := Except.error.inj he
      exact ⟨p, rfl, hp, fun q hq => hfirst q (Nat.zero_le q) hq⟩
    · exact iff_of_false nofun fun h => h.1 p hp
  | @ok us hdivided hordered hmem =>
    have hnone : ∀ p, ¬ IsUndivided source.toList p := fun p => hdivided p (Nat.zero_le p)
    have htokens : ∀ token, token ∈ us ↔ IsTokenOf source.toList token := by
      intro token
      rw [hmem]
      exact ⟨fun h => h.1, fun h => ⟨h, Nat.zero_le _⟩⟩
    refine ⟨iff_of_false nofun fun ⟨p, hp⟩ => hnone p hp, nofun, fun ts => ⟨fun h => ?_, fun h => ?_⟩,
      hchain⟩
    · obtain rfl := Except.ok.inj h
      exact ⟨hnone, hordered, htokens⟩
    · obtain ⟨-, hts, hmemts⟩ := h
      have hsame : us = ts := AreOrdered.eq_of_mem_iff hordered hts fun token => by
        rw [htokens, hmemts]
      rw [hsame]

end ResourceUrl
