import Mathlib.Data.List.Infix
import ResourceUrl.Filter.Cursor
import ResourceUrl.Proofs.Consumption

/-!
# Cursors through any requests

A cursor over `tokens` is determined by its index.  `Serves tokens i request answer j` says from the
tokens alone what is answered at the index `i`, and at which index `j` the cursor stands then: a token
takes one step, a group as many as `Ends` says, and an exhausted cursor none.  Each request is served
that way and never moves the cursor backwards or beyond the tokens (`step_serves`), and so is every
sequence of requests, after failures too:

    ServesAll tokens 0 requests ((start tokens).serve requests)            (serve_by_tokens)

Groups that are read one after another at the root divide the tokens before the cursor among them, and
each is read from its own stretch alone.
-/

namespace ResourceUrl.Filter

namespace Cursor

def before (tokens : List Token) (i : Nat) : Cursor :=
  { index := i, rest := tokens.drop i }

/-- What a request is answered before the token of index `i`, and the index of the token that comes
next. -/
inductive Serves (tokens : List Token) (i : Nat) : Request → Answer → Nat → Prop
  | next {token : Token} : tokens[i]? = some token → Serves tokens i .next (.token token) (i + 1)
  | exhausted : tokens.length ≤ i → Serves tokens i .next .exhausted i
  | group {depth : Int} {mode : Mode} {outcome : Except Fault Group} {n : Nat} :
      Ends mode depth (tokens.drop i) outcome n →
      Serves tokens i (.group depth mode) (.group outcome) (i + n)
  | peek : Serves tokens i .peek .nothing i

/-- Requests are served one after another, and the index goes up from one to the next, within the
tokens. -/
inductive ServesAll (tokens : List Token) : Nat → List Request → List (Answer × Cursor) → Prop
  | nil {i : Nat} : ServesAll tokens i [] []
  | cons {i j : Nat} {request : Request} {requests : List Request} {answer : Answer}
      {served : List (Answer × Cursor)} : Serves tokens i request answer j → i ≤ j →
      j ≤ tokens.length → ServesAll tokens j requests served →
      ServesAll tokens i (request :: requests) ((answer, before tokens j) :: served)

/-! ## One request -/

theorem moveTo_before (tokens : List Token) (i n : Nat) (h : i + n ≤ tokens.length) :
    (before tokens i).moveTo (tokens.drop (i + n)) = before tokens (i + n) := by
  simp only [moveTo, before, List.length_drop, Cursor.mk.injEq, and_true]
  omega

section
variable (tokens : List Token) (i : Nat) (hi : i ≤ tokens.length)
include hi

theorem step_group (depth : Int) (mode : Mode) (hdepth : 0 ≤ depth) :
    ∃ n, i + n ≤ tokens.length ∧
      Ends mode depth (tokens.drop i) (readGroup mode depth (tokens.drop i)).1 n ∧
      (readGroup mode depth (tokens.drop i)).2 = (tokens.drop i).drop n ∧
      (before tokens i).step (.group depth mode) =
        (.group (readGroup mode depth (tokens.drop i)).1, before tokens (i + n)) := by
  obtain ⟨n, hn, hends, hrest⟩ := readGroup_ends mode depth hdepth (tokens.drop i)
  rw [List.length_drop] at hn
  have hle : i + n ≤ tokens.length := by omega
  refine ⟨n, hle, hends, hrest, ?_⟩
  show (Answer.group _, (before tokens i).moveTo (readGroup mode depth (tokens.drop i)).2) = _
  rw [hrest, List.drop_drop, moveTo_before tokens i n hle]
  rfl

theorem step_serves (request : Request)
    (hdepth : ∀ depth mode, request = .group depth mode → 0 ≤ depth) :
    ∃ answer j, i ≤ j ∧ j ≤ tokens.length ∧ Serves tokens i request answer j ∧
      (before tokens i).step request = (answer, before tokens j) := by
  cases request with
  | next =>
    rcases Nat.lt_or_ge i tokens.length with hlt | hge
    · refine ⟨.token tokens[i], i + 1, by omega, hlt, .next (List.getElem?_eq_getElem hlt), ?_⟩
      have hmove := moveTo_before tokens i 1 hlt
      rw [step, before, List.drop_eq_getElem_cons hlt]
      rw [before, List.drop_eq_getElem_cons hlt] at hmove
      dsimp only
      rw [hmove]
    · refine ⟨.exhausted, i, Nat.le_refl _, hi, .exhausted hge, ?_⟩
      rw [step, before, List.drop_eq_nil_of_le hge]
  | group depth mode =>
    obtain ⟨n, hle, hends, -, hstep⟩ := step_group tokens i hi depth mode (hdepth depth mode rfl)
    exact ⟨_, i + n, by omega, hle, .group hends, hstep⟩
  | peek => exact ⟨.nothing, i, Nat.le_refl _, hi, .peek, rfl⟩

/-! ## Any requests -/

theorem servesAll_serve (requests : List Request)
    (hdepth : ∀ depth mode, .group depth mode ∈ requests → 0 ≤ depth) :
    ServesAll tokens i requests ((before tokens i).serve requests) := by
  induction requests generalizing i with
  | nil => exact .nil
  | cons request requests ih =>
    obtain ⟨answer, j, hij, hj, hserves, hstep⟩ := step_serves tokens i hi request
      fun depth mode heq => hdepth depth mode (heq ▸ List.mem_cons_self)
    rw [serve, hstep]
    exact .cons hserves hij hj
      (ih j hj fun depth mode hmem => hdepth depth mode (List.mem_cons_of_mem _ hmem))

/-- Root groups that are all read divide what they take into a stretch for each of them. -/
theorem exists_stretches (modes : List Mode)
    (hok : ∀ served ∈ (before tokens i).serve (modes.map (.group 0)),
      ∃ g, served.1 = .group (.ok g)) :
    ∃ stretches : List (List Token),
      ((before tokens i).serve (modes.map (.group 0))).map (fun served => tokens.take served.2.index) =
        stretches.inits.tail.map (fun taken => tokens.take i ++ taken.flatten) ∧
      ((before tokens i).serve (modes.map (.group 0))).map (·.1) =
        List.zipWith (fun mode stretch => .group (readGroup mode 0 stretch).1) modes stretches := by
  induction modes generalizing i with
  | nil => exact ⟨[], rfl, rfl⟩
  | cons mode modes ih =>
    obtain ⟨n, hle, -, hrest, hstep⟩ := step_group tokens i hi 0 mode (Int.le_refl 0)
    rw [List.map_cons, serve, hstep] at hok ⊢
    obtain ⟨g, hg⟩ := hok _ List.mem_cons_self
    obtain ⟨stretches, htaken, hanswers⟩ :=
      ih (i + n) hle fun served hmem => hok served (List.mem_cons_of_mem _ hmem)
    have hread : readGroup mode 0 (tokens.drop i) = (.ok g, (tokens.drop i).drop n) := by
      rw [← hrest, ← Answer.group.inj hg]
    obtain ⟨stretch, hsplit, halone⟩ := readGroup_of_taken mode 0 (Int.le_refl 0) _ g _ hread
    obtain rfl := eq_take_of_eq_append_drop _ stretch n hsplit
    refine ⟨(tokens.drop i).take n :: stretches, ?_, ?_⟩
    · have hnext : tokens.take (i + n) = tokens.take i ++ (tokens.drop i).take n := List.take_add
      have hinits : ((tokens.drop i).take n :: stretches).inits.tail =
          [(tokens.drop i).take n] ::
            stretches.inits.tail.map ((tokens.drop i).take n :: ·) := by
        cases stretches <;> simp
      rw [hinits, List.map_cons, List.map_cons, List.map_map, htaken]
      simp only [before, hnext, List.append_assoc, Function.comp_def, List.flatten_cons,
        List.flatten_nil, List.append_nil]
    · rw [List.map_cons, List.zipWith_cons_cons, hanswers, halone]
      exact congrArg (· :: _) hg

end

/-! ## From the start -/

/-- Whatever is asked of a cursor, each request is served from the tokens behind it and moves it
forwards within them.  Root groups that are read one after another take stretches of the tokens that
follow each other and make up all that lies before the cursor; each is read from its own stretch. -/
theorem serve_by_tokens (tokens : List Token) (requests : List Request)
    (hdepth : ∀ depth mode, .group depth mode ∈ requests → 0 ≤ depth) :
    ServesAll tokens 0 requests ((start tokens).serve requests) ∧
    ∀ modes : List Mode,
      (∀ served ∈ (start tokens).serve (modes.map (.group 0)), ∃ g, served.1 = .group (.ok g)) →
      ∃ stretches : List (List Token),
        ((start tokens).serve (modes.map (.group 0))).map (fun served => tokens.take served.2.index) =
          stretches.inits.tail.map List.flatten ∧
        ((start tokens).serve (modes.map (.group 0))).map (·.1) =
          List.zipWith (fun mode stretch => .group (readGroup mode 0 stretch).1) modes stretches :=
  ⟨servesAll_serve tokens 0 (Nat.zero_le _) requests hdepth,
    fun modes hok => exists_stretches tokens 0 (Nat.zero_le _) modes hok⟩

/-- A group ends at a parenthesis of its own, a condition is refused, and reading goes on behind it;
two root groups share the tokens of another cursor. -/
theorem serve_by_tokens_resumed :
    let tokens : List Token := [⟨.condition, "a[like]x", 0⟩, ⟨.mark .closing, ")", 8⟩,
      ⟨.mark .opening, "(", 9⟩, ⟨.condition, "oops", 10⟩, ⟨.mark .closing, ")", 14⟩]
    let requests : List Request := [.group 0 {}, .group 1 ⟨true, 2⟩, .next, .next, .group 3 {}]
    let roots : List Token := [⟨.condition, "a[like]x", 0⟩, ⟨.mark .closing, ")", 8⟩,
      ⟨.condition, "b[gt]y", 9⟩]
    ((∀ depth mode, .group depth mode ∈ requests → 0 ≤ depth) ∧
      ServesAll tokens 0 requests ((start tokens).serve requests) ∧
      ((start tokens).serve requests).map (·.2.index) = [2, 4, 5, 5, 5]) ∧
    (∀ served ∈ (start roots).serve [.group 0 {}, .group 0 {}], ∃ g, served.1 = .group (.ok g)) ∧
      ∃ stretches : List (List Token),
        [roots.take 2, roots] = stretches.inits.tail.map List.flatten := by
  intro tokens requests roots
  have hdepth : ∀ depth mode, .group depth mode ∈ requests → 0 ≤ depth := by
    intro depth mode hmem
    simp only [requests, List.mem_cons, List.not_mem_nil, Request.group.injEq, reduceCtorEq,
      false_or, or_false] at hmem
    rcases hmem with ⟨rfl, -⟩ | ⟨rfl, -⟩ | ⟨rfl, -⟩ <;> decide
  have hserved : (start roots).serve [.group 0 {}, .group 0 {}] =
      [(.group (.ok ⟨.and, [.condition ⟨"a", "like", .text "x"⟩]⟩), before roots 2),
        (.group (.ok ⟨.and, [.condition ⟨"b", "gt", .text "y"⟩]⟩), before roots 3)] := rfl
  have hok : ∀ served ∈ (start roots).serve [.group 0 {}, .group 0 {}],
      ∃ g, served.1 = .group (.ok g) := by
    rw [hserved]
    simp
  obtain ⟨stretches, htaken, -⟩ := (serve_by_tokens roots [] (by simp)).2 [{}, {}] hok
  exact ⟨⟨hdepth, (serve_by_tokens tokens requests hdepth).1, rfl⟩, hok, stretches, htaken⟩

end Cursor

end ResourceUrl.Filter
