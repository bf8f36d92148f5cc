import ResourceUrl.Proofs.Machine

/-!
# Reading groups by descent

A group can also be read by a recursion that descends into each group in it and reads on after what that
one has left of the tokens (`descend`).  The stack of `run` holds what such a recursion has still to do:
to read with a stack is to descend into its innermost group and then to go on in the others,

    run mode base top outer ts =
      resume mode base outer (descend mode (base + outer.length) top ts)           (run_eq_resume)

and when there are no others this is the recursion itself (`readGroup_eq_descend`).
-/

namespace ResourceUrl.Filter

/-- What reading a group comes to, and the tokens that are left, which are no more than there were. -/
structure Descent (ts : List Token) where
  outcome : Except Fault Group
  rest : List Token
  rest_le : rest.length ≤ ts.length

namespace Descent

def weaken {ts us : List Token} (h : ts.length ≤ us.length) (d : Descent ts) : Descent us :=
  { d with rest_le := Nat.le_trans d.rest_le h }

/-- Reads on after a group, unless reading it failed. -/
def bind {ts : List Token} (d : Descent ts)
    (next : Group → (left : List Token) → left.length ≤ ts.length → Descent left) : Descent ts :=
  match d with
  | ⟨.error fault, left, h⟩ => ⟨.error fault, left, h⟩
  | ⟨.ok group, left, h⟩ => (next group left h).weaken h

end Descent

/-- Reads on in the group `top`, which is at `depth`, up to the parenthesis that closes it. -/
def descend (mode : Mode) (depth : Int) (top : Frame) : (ts : List Token) → Descent ts
  | [] =>
    if mode.strict ∧ 0 < depth then ⟨.error (.parse (.unbalanced .missingClose)), [], Nat.le_refl _⟩
    else ⟨.ok top.group, [], Nat.le_refl _⟩
  | token :: rest =>
    match token.kind with
    | .mark .opening =>
      if mode.maxDepth ≤ depth then ⟨.error (.parse (.tooDeep mode.maxDepth)), rest, Nat.le_succ _⟩
      else
        ((descend mode (depth + 1) {} rest).bind fun group left _ =>
          descend mode depth (top.push group.toNode) left).weaken (Nat.le_succ _)
    | .mark .closing =>
      if mode.strict ∧ depth = 0 then
        ⟨.error (.parse (.unbalanced (.unexpectedClose token.position))), rest, Nat.le_succ _⟩
      else ⟨.ok top.group, rest, Nat.le_succ _⟩
    | .mark (.delimiter logical) => (descend mode depth { top with logical } rest).weaken (Nat.le_succ _)
    | .condition =>
      match Condition.read token.text with
      | .error fault => ⟨.error fault, rest, Nat.le_succ _⟩
      | .ok c => (descend mode depth (top.push (.condition c)) rest).weaken (Nat.le_succ _)
termination_by ts => ts.length
decreasing_by all_goals (rw [List.length_cons]; omega)

/-- Goes on in the groups around one that has been read. -/
def resume (mode : Mode) (base : Int) (outer : List Frame) {ts : List Token} (d : Descent ts) :
    Except Fault Group × List Token :=
  match d.outcome, outer with
  | .error fault, _ => (.error fault, d.rest)
  | .ok group, [] => (.ok group, d.rest)
  | .ok group, parent :: outer => run mode base (parent.push group.toNode) outer d.rest

/-- Reading with a stack descends into its innermost group and goes on in the others. -/
theorem run_eq_resume (mode : Mode) (base : Int) (ts : List Token) (top : Frame) (outer : List Frame) :
    run mode base top outer ts = resume mode base outer (descend mode (base + outer.length) top ts) := by
  induction hn : ts.length using Nat.strongRecOn generalizing ts top outer with
  | ind n ih =>
    cases ts with
    | nil =>
      unfold run descend
      split
      · rfl
      · next hopen =>
        cases outer with
        | nil => rfl
        | cons parent outer =>
          show _ = run mode base (parent.push top.group.toNode) outer []
          have hparent : ¬ (mode.strict = true ∧ 0 < base + (outer.length : Int)) := by
            rintro ⟨hstrict, hdeep⟩
            refine hopen ⟨hstrict, ?_⟩
            rw [List.length_cons]
            omega
          rw [run, if_neg hparent, Frame.closeAll]
    | cons token rest =>
      have hrest : rest.length < n := by
        rw [← hn]
        exact Nat.lt_succ_self _
      cases hk : token.kind with
      | condition =>
        rw [run_condition _ _ _ _ _ _ hk, descend, hk]
        cases Condition.read token.text with
        | error fault => rfl
        | ok c => exact ih _ hrest rest _ outer rfl
      | mark mark =>
        cases mark with
        | delimiter l =>
          rw [run_delimiter _ _ _ _ _ _ l hk, descend, hk]
          exact ih _ hrest rest _ outer rfl
        | opening =>
          rw [run_opening _ _ _ _ _ _ hk, descend, hk]
          split
          · rfl
          · have hinner := ih _ hrest rest {} (top :: outer) rfl
            rw [List.length_cons, Int.natCast_succ, ← Int.add_assoc] at hinner
            rw [hinner]
            dsimp only
            generalize descend mode (base + outer.length + 1) {} rest = inner
            obtain ⟨outcome, left, hleft⟩ := inner
            cases outcome with
            | error fault => rfl
            | ok group => exact ih _ (Nat.lt_of_le_of_lt hleft hrest) left _ outer rfl
        | closing =>
          rw [run_closing _ _ _ _ _ _ hk, descend, hk]
          split
          · rfl
          · cases outer <;> rfl

/-- A group is read as the recursion reads it, with the same tokens left. -/
theorem readGroup_eq_descend (mode : Mode) (depth : Int) (ts : List Token) :
    readGroup mode depth ts = ((descend mode depth {} ts).outcome, (descend mode depth {} ts).rest) := by
  have h := run_eq_resume mode depth ts {} []
  rw [List.length_nil, Int.natCast_zero, Int.add_zero] at h
  rw [readGroup, h]
  obtain ⟨outcome, rest, _⟩ := descend mode depth {} ts
  cases outcome <;> rfl

end ResourceUrl.Filter
