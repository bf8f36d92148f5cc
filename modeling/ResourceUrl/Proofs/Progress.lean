import ResourceUrl.Proofs.Machine
import ResourceUrl.Proofs.Tokens

/-!
# How far reading comes

`Passes room d ts e` says that reading comes through the tokens `ts`, from `d` open groups to `e`, with
`room` for that many groups at most.  What follows such tokens is then read by itself, in both modes
from the same frames (`run_append_of_passes`).

Every list of tokens has one of four courses (`course`): reading comes through it, or stops at an
opening parenthesis too deep, at a condition that is refused, or at a closing parenthesis of its own
group.  The first stop decides, whatever stands after it.
-/

namespace ResourceUrl

/-! ## Depth of marks -/

namespace Mark

/-- How many groups are open after a mark; a closing parenthesis needs an open group. -/
def step? (depth : Nat) : Mark → Option Nat
  | .opening => some (depth + 1)
  | .closing => if depth = 0 then none else some (depth - 1)
  | .delimiter _ => some depth

/-- How many groups are open after several marks, if each closing parenthesis closes one. -/
def nest? (depth : Nat) (marks : List Mark) : Option Nat :=
  marks.foldlM step? depth

theorem nest?_append (depth : Nat) (before after : List Mark) :
    nest? depth (before ++ after) = (nest? depth before).bind (nest? · after) :=
  List.foldlM_append

theorem nest?_cons (depth : Nat) (mark : Mark) (marks : List Mark) :
    nest? depth (mark :: marks) = (step? depth mark).bind (nest? · marks) :=
  List.foldlM_cons

end Mark

namespace Filter

/-! ## Tokens that are passed -/

/-- Reading comes through the tokens from one number of open groups to another: no opening parenthesis
exceeds the room, every closing one has a group to close, and every condition is read. -/
inductive Passes (room : Int) : Nat → List Token → Nat → Prop
  | nil {d : Nat} : Passes room d [] d
  | condition {d e : Nat} {token : Token} {rest : List Token} {c : Condition} :
      token.kind = .condition → Condition.read token.text = .ok c → Passes room d rest e →
      Passes room d (token :: rest) e
  | delimiter {d e : Nat} {token : Token} {rest : List Token} {l : Logical} :
      token.kind = .mark (.delimiter l) → Passes room d rest e → Passes room d (token :: rest) e
  | opening {d e : Nat} {token : Token} {rest : List Token} :
      token.kind = .mark .opening → (d : Int) < room → Passes room (d + 1) rest e →
      Passes room d (token :: rest) e
  | closing {d e : Nat} {token : Token} {rest : List Token} :
      token.kind = .mark .closing → Passes room d rest e → Passes room (d + 1) (token :: rest) e

/-- Tokens that are passed change the number of open groups by their marks. -/
theorem Passes.nest?_eq {room : Int} {d e : Nat} {ts : List Token} (h : Passes room d ts e) :
    Mark.nest? d (ts.filterMap Token.mark?) = some e := by
  induction h with
  | nil => rfl
  | condition hk _ _ ih =>
    rw [List.filterMap_cons_none (by rw [Token.mark?, hk])]
    exact ih
  | delimiter hk _ ih =>
    rw [List.filterMap_cons_some (by rw [Token.mark?, hk]), Mark.nest?_cons]
    exact ih
  | opening hk _ _ ih =>
    rw [List.filterMap_cons_some (by rw [Token.mark?, hk]), Mark.nest?_cons]
    exact ih
  | closing hk _ ih =>
    rw [List.filterMap_cons_some (by rw [Token.mark?, hk]), Mark.nest?_cons]
    exact ih

/-- What follows tokens that are passed is read from frames that do not depend on it, nor on the
mode. -/
theorem run_append_of_passes (maxDepth base : Int) (hbase : 0 ≤ base) {d e : Nat} {seen : List Token}
    (h : Passes (maxDepth - base) d seen e) (top : Frame) (outer : List Frame)
    (hd : outer.length = d) :
    ∃ top' outer', outer'.length = e ∧ ∀ strict rest,
      run ⟨strict, maxDepth⟩ base top outer (seen ++ rest) =
        run ⟨strict, maxDepth⟩ base top' outer' rest := by
  induction h generalizing top outer with
  | nil => exact ⟨top, outer, hd, fun _ _ => rfl⟩
  | @condition d e token seen c hk hr _ ih =>
    obtain ⟨top', outer', he, hrun⟩ := ih (top.push (.condition c)) outer hd
    refine ⟨top', outer', he, fun strict rest => ?_⟩
    rw [List.cons_append, run_condition _ _ _ _ _ _ hk, hr]
    exact hrun strict rest
  | @delimiter d e token seen l hk _ ih =>
    obtain ⟨top', outer', he, hrun⟩ := ih { top with logical := l } outer hd
    refine ⟨top', outer', he, fun strict rest => ?_⟩
    rw [List.cons_append, run_delimiter _ _ _ _ _ _ l hk]
    exact hrun strict rest
  | @opening d e token seen hk hroom _ ih =>
    obtain ⟨top', outer', he, hrun⟩ := ih {} (top :: outer) (by rw [List.length_cons, hd])
    refine ⟨top', outer', he, fun strict rest => ?_⟩
    have hfits : ¬ maxDepth ≤ base + (outer.length : Int) := by
      rw [hd]
      omega
    rw [List.cons_append, run_opening _ _ _ _ _ _ hk, if_neg hfits]
    exact hrun strict rest
  | @closing d e token seen hk _ ih =>
    obtain ⟨parent, outer, rfl⟩ := List.exists_cons_of_length_eq_add_one hd
    obtain ⟨top', outer', he, hrun⟩ := ih (parent.push top.group.toNode) outer
      (by simpa using hd)
    refine ⟨top', outer', he, fun strict rest => ?_⟩
    rw [List.cons_append, run_closing_nested _ _ _ _ _ _ hbase parent hk]
    exact hrun strict rest

/-! ## The course of reading -/

/-- How far reading comes in tokens, from `d` open groups on. -/
inductive Course (room : Int) (d : Nat) : List Token → Prop
  /-- It comes through. -/
  | through {ts : List Token} {e : Nat} : Passes room d ts e → Course room d ts
  /-- It stops where a group would be nested too deep. -/
  | tooDeep {seen rest : List Token} {token : Token} {e : Nat} : Passes room d seen e →
      token.kind = .mark .opening → room ≤ e → Course room d (seen ++ token :: rest)
  /-- It stops at a condition that is refused. -/
  | refused {seen rest : List Token} {token : Token} {e : Nat} {fault : Fault} :
      Passes room d seen e → token.kind = .condition → Condition.read token.text = .error fault →
      Course room d (seen ++ token :: rest)
  /-- It stops at a closing parenthesis when no group is open. -/
  | closed {seen rest : List Token} {token : Token} : Passes room d seen 0 →
      token.kind = .mark .closing → Course room d (seen ++ token :: rest)

theorem Course.cons {room : Int} {d k : Nat} {ts : List Token} (token : Token)
    (h : ∀ seen e, Passes room k seen e → Passes room d (token :: seen) e) (hc : Course room k ts) :
    Course room d (token :: ts) := by
  cases hc with
  | through hp => exact .through (h _ _ hp)
  | tooDeep hp hk hroom => exact .tooDeep (h _ _ hp) hk hroom
  | refused hp hk hr => exact .refused (h _ _ hp) hk hr
  | closed hp hk => exact .closed (h _ _ hp) hk

theorem course (room : Int) (d : Nat) (ts : List Token) : Course room d ts := by
  induction ts generalizing d with
  | nil => exact .through .nil
  | cons token ts ih =>
    -- a token that stops the reading has passed nothing before it
    rw [← List.nil_append (token :: ts)]
    cases hk : token.kind with
    | condition =>
      cases hr : Condition.read token.text with
      | error fault => exact .refused .nil hk hr
      | ok c => exact (ih d).cons token fun seen e hp => .condition hk hr hp
    | mark mark =>
      cases mark with
      | delimiter l => exact (ih d).cons token fun seen e hp => .delimiter hk hp
      | opening =>
        by_cases hroom : room ≤ d
        · exact .tooDeep .nil hk hroom
        · exact (ih (d + 1)).cons token fun seen e hp => .opening hk (Int.not_le.mp hroom) hp
      | closing =>
        cases d with
        | zero => exact .closed .nil hk
        | succ d => exact (ih d).cons token fun seen e hp => .closing hk hp

/-! ## From the start -/

theorem read_of_tokenize_error (mode : Mode) (source : String) (error : ParseError)
    (h : tokenize source = .error error) : read mode source = .error (.parse error) := by
  unfold read readAll
  rw [h]
  rfl

theorem read_of_tokenize (mode : Mode) (source : String) (ts : List Token)
    (h : tokenize source = .ok ts) : read mode source = (readGroup mode 0 ts).1 := by
  unfold read readAll
  rw [h]
  cases hg : (readGroup mode 0 ts).1 <;> simp [Except.map, hg]

section
variable (maxDepth : Int) {seen : List Token} {e : Nat} (h : Passes maxDepth 0 seen e)
include h

theorem readGroup_append_of_passes :
    ∃ top outer, outer.length = e ∧ ∀ strict rest,
      readGroup ⟨strict, maxDepth⟩ 0 (seen ++ rest) = run ⟨strict, maxDepth⟩ 0 top outer rest :=
  run_append_of_passes maxDepth 0 (Int.le_refl 0) (by rwa [Int.sub_zero]) {} [] rfl

/-- The first group that is too deep stops reading in either mode. -/
theorem readGroup_tooDeep (token : Token) (hk : token.kind = .mark .opening) (hroom : maxDepth ≤ e)
    (strict : Bool) (rest : List Token) :
    readGroup ⟨strict, maxDepth⟩ 0 (seen ++ token :: rest) =
      (.error (.parse (.tooDeep maxDepth)), rest) := by
  obtain ⟨top, outer, he, hrun⟩ := readGroup_append_of_passes maxDepth h
  rw [hrun, run_opening _ _ _ _ _ _ hk, if_pos (by rw [he]; simpa using hroom)]

/-- The first condition that is refused stops reading in either mode. -/
theorem readGroup_refused (token : Token) (hk : token.kind = .condition) (fault : Fault)
    (hr : Condition.read token.text = .error fault) (strict : Bool) (rest : List Token) :
    readGroup ⟨strict, maxDepth⟩ 0 (seen ++ token :: rest) = (.error fault, rest) := by
  obtain ⟨top, outer, -, hrun⟩ := readGroup_append_of_passes maxDepth h
  rw [hrun, run_condition _ _ _ _ _ _ hk, hr]

end

end Filter

end ResourceUrl
