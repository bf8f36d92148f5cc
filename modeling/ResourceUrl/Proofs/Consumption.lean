import ResourceUrl.Proofs.Offences

/-!
# The tokens of a group

A group ends with the first closing parenthesis that no parenthesis among its tokens opens
(`firstUnmatched?`, a matter of counting), or with the last token.  `Ends` says from the tokens alone
how reading a group ends and how many of them it takes; reading a group always ends that way, at any
depth, and leaves the tokens that it does not take (`readGroup_ends`):

    (readGroup mode base ts).2 = ts.drop n,   Ends mode base ts (readGroup mode base ts).1 n

The leaves of a group are the conditions among the tokens that it takes, in order
(`leaves_of_run_eq_ok`), so that the leaves of a filter are those of its source (`leaves_eq_of_read`).
-/

namespace ResourceUrl

/-! ## Counting parentheses -/

namespace Token

def isOpening (token : Token) : Bool := token.kind == .mark .opening

def isClosing (token : Token) : Bool := token.kind == .mark .closing

def isCondition (token : Token) : Bool := token.kind == .condition

end Token

namespace Filter

/-- At the index stands a closing parenthesis, and up to it more are closed than opened. -/
def IsUnmatched (ts : List Token) (k : Nat) : Prop :=
  ts[k]?.any Token.isClosing = true ∧
    (ts.take (k + 1)).countP Token.isOpening < (ts.take (k + 1)).countP Token.isClosing

instance (ts : List Token) : DecidablePred (IsUnmatched ts) := fun k =>
  inferInstanceAs (Decidable (ts[k]?.any Token.isClosing = true ∧
    (ts.take (k + 1)).countP Token.isOpening < (ts.take (k + 1)).countP Token.isClosing))

/-- The index of the first closing parenthesis that no parenthesis before it opens. -/
def firstUnmatched? (ts : List Token) : Option Nat :=
  (List.range ts.length).find? fun k => IsUnmatched ts k

/-- The conditions that tokens spell, in order. -/
def conditionsOf (ts : List Token) : List (Except Fault Condition) :=
  (ts.filter Token.isCondition).map fun token => Condition.read token.text

/-- The groups that are open in the end are those that were open, with those opened and without those
closed. -/
theorem countP_of_nest? (ts : List Token) (d e : Nat)
    (h : Mark.nest? d (ts.filterMap Token.mark?) = some e) :
    d + ts.countP Token.isOpening = e + ts.countP Token.isClosing := by
  induction ts generalizing d with
  | nil =>
    obtain rfl : d = e := Option.some.inj h
    rfl
  | cons token ts ih =>
    rw [List.countP_cons, List.countP_cons]
    unfold Token.isOpening Token.isClosing at ih ⊢
    cases hk : token.kind with
    | condition =>
      rw [List.filterMap_cons_none (by rw [Token.mark?, hk])] at h
      have := ih d h
      simp
      omega
    | mark mark =>
      rw [List.filterMap_cons_some (by rw [Token.mark?, hk]), Mark.nest?_cons] at h
      cases mark with
      | opening =>
        have := ih (d + 1) h
        simp
        omega
      | delimiter l =>
        have := ih d h
        simp
        omega
      | closing =>
        cases d with
        | zero => cases h
        | succ d =>
          have := ih d h
          simp
          omega

theorem not_isUnmatched_of_nest? (seen rest : List Token) (e : Nat)
    (h : Mark.nest? 0 (seen.filterMap Token.mark?) = some e) (k : Nat) (hk : k < seen.length) :
    ¬ IsUnmatched (seen ++ rest) k := by
  rintro ⟨-, hcount⟩
  have htake : (seen ++ rest).take (k + 1) = seen.take (k + 1) := List.take_append_of_le_length hk
  rw [htake] at hcount
  rw [← List.take_append_drop (k + 1) seen, List.filterMap_append, Mark.nest?_append] at h
  obtain ⟨d, hd, -⟩ := Option.bind_eq_some_iff.mp h
  have := countP_of_nest? _ 0 d hd
  omega

theorem firstUnmatched?_eq_none (ts : List Token) (e : Nat)
    (h : Mark.nest? 0 (ts.filterMap Token.mark?) = some e) : firstUnmatched? ts = none := by
  rw [firstUnmatched?, List.find?_range_eq_none]
  intro k hk
  have := not_isUnmatched_of_nest? ts [] e h k hk
  rw [List.append_nil] at this
  simpa using this

theorem exists_closing_of_firstUnmatched? (ts : List Token) (k : Nat)
    (h : firstUnmatched? ts = some k) : ∃ token, ts[k]? = some token ∧ token.isClosing = true := by
  obtain ⟨hunmatched, -, -⟩ := List.find?_range_eq_some.mp h
  obtain ⟨hclosing, -⟩ := of_decide_eq_true hunmatched
  exact (Option.any_eq_true _ _).mp hclosing

/-- After tokens that close all they open, a closing parenthesis is the first unmatched one. -/
theorem firstUnmatched?_append (seen rest : List Token) (token : Token)
    (h : Mark.nest? 0 (seen.filterMap Token.mark?) = some 0) (hk : token.kind = .mark .closing) :
    firstUnmatched? (seen ++ token :: rest) = some seen.length := by
  have hclosing : token.isClosing = true := by rw [Token.isClosing, hk]; rfl
  have hopening : token.isOpening = false := by rw [Token.isOpening, hk]; rfl
  rw [firstUnmatched?, List.find?_range_eq_some]
  refine ⟨decide_eq_true ⟨?_, ?_⟩, ?_, ?_⟩
  · rw [List.getElem?_append_right (Nat.le_refl _), Nat.sub_self]
    exact hclosing
  · have hcount := countP_of_nest? seen 0 0 h
    have htake : (seen ++ token :: rest).take (seen.length + 1) = seen ++ [token] := by
      rw [List.take_length_add_append]
      rfl
    rw [htake, List.countP_append, List.countP_append]
    simp [hclosing, hopening]
    omega
  · rw [List.mem_range, List.length_append, List.length_cons]
    omega
  · intro k hlt
    have := not_isUnmatched_of_nest? seen (token :: rest) 0 h k hlt
    simpa using this

/-! ## How reading a group ends -/

/-- How reading a group at depth `base` ends, and how many of the tokens it takes. -/
inductive Ends (mode : Mode) (base : Int) (ts : List Token) : Except Fault Group → Nat → Prop
  /-- Behind the first closing parenthesis that is its own. -/
  | closed {g : Group} {k : Nat} : firstUnmatched? ts = some k →
      Passes (mode.maxDepth - base) 0 (ts.take k) 0 → ¬ (mode.strict = true ∧ base = 0) →
      Ends mode base ts (.ok g) (k + 1)
  /-- Behind the last token, if no parenthesis is its own. -/
  | exhausted {g : Group} {e : Nat} : firstUnmatched? ts = none →
      Passes (mode.maxDepth - base) 0 ts e → ¬ (mode.strict = true ∧ 0 < base + e) →
      Ends mode base ts (.ok g) ts.length
  /-- Behind the first token that offends, where `e` groups are open in this one. -/
  | failed {token : Token} {fault : Fault} {k e : Nat} : ts[k]? = some token →
      Passes (mode.maxDepth - base) 0 (ts.take k) e → Offends mode (base.toNat + e) token fault →
      Ends mode base ts (.error fault) (k + 1)
  /-- Behind the last token, where strict mode misses a closing parenthesis. -/
  | unclosed {e : Nat} : Passes (mode.maxDepth - base) 0 ts e → mode.strict = true →
      0 < base + e → Ends mode base ts (.error (.parse (.unbalanced .missingClose))) ts.length

theorem eq_take_of_eq_append_drop (ts taken : List Token) (n : Nat) (h : ts = taken ++ ts.drop n) :
    taken = ts.take n := by
  rw [← List.append_left_inj (ts.drop n), List.take_append_drop]
  exact h.symm

section
variable (mode : Mode) (base : Int) (hbase : 0 ≤ base)
include hbase

theorem readGroup_append_passed {seen : List Token} {e : Nat}
    (h : Passes (mode.maxDepth - base) 0 seen e) :
    ∃ top outer, outer.length = e ∧ ∀ rest,
      readGroup mode base (seen ++ rest) = run mode base top outer rest := by
  obtain ⟨top, outer, he, hrun⟩ := run_append_of_passes mode.maxDepth base hbase h {} [] rfl
  exact ⟨top, outer, he, hrun mode.strict⟩

theorem readGroup_of_offends {seen : List Token} {e : Nat}
    (h : Passes (mode.maxDepth - base) 0 seen e) (token : Token) (fault : Fault)
    (ho : Offends mode (base.toNat + e) token fault) (rest : List Token) :
    readGroup mode base (seen ++ token :: rest) = (.error fault, rest) := by
  obtain ⟨top, outer, he, hrun⟩ := readGroup_append_passed mode base hbase h
  rw [hrun]
  cases ho with
  | opening hk hroom => rw [run_opening _ _ _ _ _ _ hk, if_pos (by omega)]
  | closing hk hs hn => rw [run_closing _ _ _ _ _ _ hk, if_pos ⟨hs, by omega⟩]
  | condition hk hc =>
    rw [run_condition _ _ _ _ _ _ hk, (Condition.read_eq_error_iff_offends _ _).mpr hc]

/-- A closing parenthesis of the group ends it, unless strict mode has none to close at the root. -/
theorem readGroup_of_closing {seen : List Token} (h : Passes (mode.maxDepth - base) 0 seen 0)
    (token : Token) (hk : token.kind = .mark .closing) (hopen : ¬ (mode.strict = true ∧ base = 0)) :
    ∃ g, ∀ rest, readGroup mode base (seen ++ token :: rest) = (.ok g, rest) := by
  obtain ⟨top, outer, he, hrun⟩ := readGroup_append_passed mode base hbase h
  obtain rfl := List.length_eq_zero_iff.mp he
  refine ⟨top.group, fun rest => ?_⟩
  rw [hrun, run_closing _ _ _ _ _ _ hk, if_neg (by simpa using hopen)]

theorem readGroup_ends_of_offends {seen : List Token} {e : Nat}
    (h : Passes (mode.maxDepth - base) 0 seen e) {token : Token} {fault : Fault}
    (ho : Offends mode (base.toNat + e) token fault) (rest : List Token) :
    ∃ n ≤ (seen ++ token :: rest).length,
      Ends mode base (seen ++ token :: rest) (readGroup mode base (seen ++ token :: rest)).1 n ∧
      (readGroup mode base (seen ++ token :: rest)).2 = (seen ++ token :: rest).drop n := by
  refine ⟨seen.length + 1, by simp, ?_⟩
  rw [readGroup_of_offends mode base hbase h token fault ho]
  refine ⟨.failed (by simp : (seen ++ token :: rest)[seen.length]? = some token) ?_ ho, ?_⟩
  · rwa [List.take_left]
  · simp

/-- Reading a group ends in one of the ways of `Ends`, and leaves the tokens that it does not take. -/
theorem readGroup_ends (ts : List Token) :
    ∃ n ≤ ts.length, Ends mode base ts (readGroup mode base ts).1 n ∧
      (readGroup mode base ts).2 = ts.drop n := by
  cases course (mode.maxDepth - base) 0 ts with
  | @through _ e hp =>
    obtain ⟨top, outer, he, hrun⟩ := readGroup_append_passed mode base hbase hp
    have hend := hrun []
    rw [List.append_nil] at hend
    refine ⟨ts.length, Nat.le_refl _, ?_⟩
    rw [hend, List.drop_length, run]
    by_cases hopen : mode.strict = true ∧ 0 < base + (outer.length : Int)
    · rw [if_pos hopen]
      exact ⟨.unclosed hp hopen.1 (by omega), rfl⟩
    · rw [if_neg hopen]
      rw [he] at hopen
      exact ⟨.exhausted (firstUnmatched?_eq_none ts e hp.nest?_eq) hp hopen, rfl⟩
  | @tooDeep seen rest token e hp hk hroom =>
    exact readGroup_ends_of_offends mode base hbase hp (.opening hk (by omega)) rest
  | @refused seen rest token e fault hp hk hr =>
    have hc := (Condition.read_eq_error_iff_offends _ _).mp hr
    exact readGroup_ends_of_offends mode base hbase hp (.condition hk hc) rest
  | @closed seen rest token hp hk =>
    by_cases hopen : mode.strict = true ∧ base = 0
    · exact readGroup_ends_of_offends mode base hbase hp (.closing hk hopen.1 (by omega)) rest
    · obtain ⟨g, hg⟩ := readGroup_of_closing mode base hbase hp token hk hopen
      have hfirst := firstUnmatched?_append seen rest token hp.nest?_eq hk
      refine ⟨seen.length + 1, by simp, ?_⟩
      rw [hg]
      refine ⟨.closed hfirst ?_ hopen, ?_⟩
      · rwa [List.take_left]
      · simp

theorem readGroup_of_taken (ts : List Token) (g : Group) (rest : List Token)
    (h : readGroup mode base ts = (.ok g, rest)) :
    ∃ taken, ts = taken ++ rest ∧ readGroup mode base taken = (.ok g, []) := by
  obtain ⟨n, hle, hends, hrest⟩ := readGroup_ends mode base hbase ts
  rw [h] at hends hrest
  obtain rfl : rest = ts.drop n := hrest
  cases hends with
  | exhausted =>
    rw [List.drop_length] at h ⊢
    exact ⟨ts, (List.append_nil ts).symm, h⟩
  | @closed _ k hsome hp hopen =>
    obtain ⟨token, hget, hclosing⟩ := exists_closing_of_firstUnmatched? ts k hsome
    obtain ⟨found, hfound⟩ :=
      readGroup_of_closing mode base hbase hp token (eq_of_beq hclosing) hopen
    have hsplit : ts = ts.take k ++ token :: ts.drop (k + 1) := by
      obtain ⟨hk, rfl⟩ := List.getElem?_eq_some_iff.mp hget
      rw [← List.drop_eq_getElem_cons hk, List.take_append_drop]
    have hall := hfound (ts.drop (k + 1))
    rw [← hsplit, h] at hall
    obtain rfl : g = found := Except.ok.inj (Prod.mk.inj hall).1
    refine ⟨ts.take k ++ [token], ?_, hfound []⟩
    rw [List.append_assoc, List.singleton_append]
    exact hsplit

end

/-! ## Leaves -/

end Filter

theorem Node.leavesOf_append (a b : List Node) :
    Node.leavesOf (a ++ b) = Node.leavesOf a ++ Node.leavesOf b := by
  induction a with
  | nil => rfl
  | cons node rest ih => simp only [List.cons_append, Node.leavesOf, ih, List.append_assoc]

namespace Filter

/-- A child that is added to the innermost group comes after all leaves that are read. -/
theorem Frame.leaves_closeAll_push (top : Frame) (outer : List Frame) (node : Node) :
    ((top.push node).closeAll outer).leaves = (top.closeAll outer).leaves ++ node.leaves := by
  have hgroup : ∀ (frame : Frame) (child : Node),
      (frame.push child).group.leaves = frame.group.leaves ++ child.leaves := by
    intro frame child
    simp [Group.leaves, Frame.group, Frame.push, Node.leavesOf_append, Node.leavesOf]
  induction outer generalizing top node with
  | nil => exact hgroup top node
  | cons parent outer ih =>
    have hnode : ∀ group : Group, group.toNode.leaves = group.leaves := by
      intro group
      rw [Group.toNode, Node.leaves, Group.leaves]
    show ((parent.push (top.push node).group.toNode).closeAll outer).leaves =
      ((parent.push top.group.toNode).closeAll outer).leaves ++ node.leaves
    rw [ih, ih, hnode, hnode, hgroup, List.append_assoc]

theorem Frame.leaves_closeAll_logical (top : Frame) (outer : List Frame) (l : Logical) :
    (Frame.closeAll { top with logical := l } outer).leaves = (top.closeAll outer).leaves := by
  cases outer with
  | nil => rfl
  | cons parent outer =>
    show ((parent.push (Frame.group { top with logical := l }).toNode).closeAll outer).leaves =
      ((parent.push top.group.toNode).closeAll outer).leaves
    rw [leaves_closeAll_push, leaves_closeAll_push]
    simp only [Group.toNode, Node.leaves, Frame.group]

theorem Frame.leaves_closeAll_opened (top : Frame) (outer : List Frame) :
    (Frame.closeAll {} (top :: outer)).leaves = (top.closeAll outer).leaves := by
  show ((top.push (Frame.group {}).toNode).closeAll outer).leaves = _
  rw [leaves_closeAll_push]
  simp [Group.toNode, Node.leaves, Frame.group, Node.leavesOf]

theorem conditionsOf_append (ts us : List Token) :
    conditionsOf (ts ++ us) = conditionsOf ts ++ conditionsOf us := by
  unfold conditionsOf
  rw [List.filter_append, List.map_append]

theorem conditionsOf_mark (token : Token) (mark : Mark) (h : token.kind = .mark mark) :
    conditionsOf [token] = [] := by
  unfold conditionsOf Token.isCondition
  rw [List.filter_singleton, h]
  rfl

theorem leaves_of_step (mode : Mode) (base : Int) (token : Token) {top top' : Frame}
    {outer outer' : List Frame} (h : Step mode base token top outer top' outer') :
    (top'.closeAll outer').leaves.map .ok =
      (top.closeAll outer).leaves.map .ok ++ conditionsOf [token] := by
  cases h with
  | condition c hk hr =>
    have hone : conditionsOf [token] = [.ok c] := by
      simp [conditionsOf, Token.isCondition, hk, hr]
    rw [hone, Frame.leaves_closeAll_push, Node.leaves, List.map_append]
    rfl
  | delimiter l hk =>
    rw [conditionsOf_mark token _ hk, List.append_nil, Frame.leaves_closeAll_logical]
  | opening hk _ =>
    rw [conditionsOf_mark token _ hk, List.append_nil, Frame.leaves_closeAll_opened]
  | closing hk =>
    rw [conditionsOf_mark token _ hk, List.append_nil]
    rfl

/-- The leaves of what is read are those read so far, and then the conditions among the tokens that
are taken. -/
theorem leaves_of_run_eq_ok (mode : Mode) (base : Int) (ts : List Token) (top : Frame)
    (outer : List Frame) (g : Group) (rest : List Token)
    (h : run mode base top outer ts = (.ok g, rest)) :
    ∃ taken, ts = taken ++ rest ∧
      g.leaves.map .ok = (top.closeAll outer).leaves.map .ok ++ conditionsOf taken := by
  induction ts generalizing top outer with
  | nil =>
    rw [run] at h
    split at h
    · cases h
    · simp only [Prod.mk.injEq, Except.ok.injEq] at h
      obtain ⟨rfl, rfl⟩ := h
      exact ⟨[], rfl, by simp [conditionsOf]⟩
  | cons token ts ih =>
    rcases run_cons_eq_ok _ _ _ _ _ _ _ _ h with ⟨top', outer', hstep, hrun⟩ | ⟨hk, rfl, -, rfl, rfl⟩
    · obtain ⟨taken, rfl, hg⟩ := ih top' outer' hrun
      refine ⟨token :: taken, rfl, ?_⟩
      rw [← List.singleton_append, conditionsOf_append, hg, leaves_of_step mode base token hstep,
        List.append_assoc]
    · refine ⟨[token], rfl, ?_⟩
      rw [conditionsOf_mark token .closing hk, List.append_nil]
      rfl

/-- The leaves of a filter that is read are the conditions of its source in order, up to the first
closing parenthesis that nothing opens. -/
theorem leaves_eq_of_read (mode : Mode) (source : String) (g : Group)
    (h : read mode source = .ok g) :
    ∃ ts, tokenize source = .ok ts ∧
      g.leaves.map .ok = conditionsOf (ts.take ((firstUnmatched? ts).getD ts.length)) := by
  cases hts : tokenize source with
  | error e =>
    rw [read_of_tokenize_error mode source e hts] at h
    cases h
  | ok ts =>
    rw [read_of_tokenize mode source ts hts] at h
    refine ⟨ts, rfl, ?_⟩
    obtain ⟨n, hle, hends, hrest⟩ := readGroup_ends mode 0 (Int.le_refl 0) ts
    rw [h] at hends
    have hrun : run mode 0 {} [] ts = (.ok g, ts.drop n) := by
      rw [← h, ← hrest]
      rfl
    obtain ⟨taken, hsplit, hleaves⟩ := leaves_of_run_eq_ok mode 0 ts {} [] g _ hrun
    rw [hleaves, eq_take_of_eq_append_drop ts taken n hsplit]
    show conditionsOf (ts.take n) = _
    cases hends with
    | exhausted hnone => rw [hnone, Option.getD_none]
    | @closed _ k hsome =>
      -- the parenthesis that ends the group is taken, but is no condition
      rw [hsome, Option.getD_some]
      obtain ⟨token, hget, hclosing⟩ := exists_closing_of_firstUnmatched? ts k hsome
      rw [List.take_add_one, hget, Option.toList_some, conditionsOf_append,
        conditionsOf_mark token .closing (eq_of_beq hclosing), List.append_nil]

/-- Groups that the end closes, and a condition behind a stray parenthesis. -/
theorem leaves_eq_of_read_stray :
    let nested : Group := ⟨.and, [.condition ⟨"a", "like", .text "x"⟩,
      .group .or [.condition ⟨"b", "gt", .text "y"⟩,
        .group .and [.condition ⟨"c", "lt", .text "z"⟩]]]⟩
    let cut : Group := ⟨.and, [.group .or [.condition ⟨"a", "like", .text "x"⟩]]⟩
    read ⟨false, 2⟩ "a[like]x;(b[gt]y|(c[lt]z" = .ok nested ∧
      (∃ ts, tokenize "a[like]x;(b[gt]y|(c[lt]z" = .ok ts ∧
        nested.leaves.map .ok = conditionsOf (ts.take ((firstUnmatched? ts).getD ts.length))) ∧
      read ⟨false, 1⟩ "(a[like]x|));oops" = .ok cut ∧
      ∃ ts, tokenize "(a[like]x|));oops" = .ok ts ∧
        cut.leaves.map .ok = conditionsOf (ts.take ((firstUnmatched? ts).getD ts.length)) := by
  intro nested cut
  have hnested : read ⟨false, 2⟩ "a[like]x;(b[gt]y|(c[lt]z" = .ok nested := rfl
  have hcut : read ⟨false, 1⟩ "(a[like]x|));oops" = .ok cut := rfl
  exact ⟨hnested, leaves_eq_of_read _ _ nested hnested, hcut, leaves_eq_of_read _ _ cut hcut⟩

end Filter

end ResourceUrl
