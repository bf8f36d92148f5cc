import ResourceUrl.Filter.Machine

/-!
# Steps and invariants of reading groups

One lemma says what each token does to the stack of frames (`run_delimiter`, `run_condition`,
`run_opening`, `run_closing`).  Where reading succeeds, each token makes a `Step` or is the parenthesis
that ends the outermost group (`run_cons_eq_ok`), and `run_invariant` carries what every step keeps to the
group that is read.  Two invariants follow from it: no group is nested deeper than the limit
(`height_le_of_run`), and every leaf is a condition that one of the tokens spells (`leaves_of_run`).
-/

namespace ResourceUrl

mutual

/-- How many groups are nested in one another, from a node downwards. -/
def Node.height : Node → Nat
  | .condition _ => 0
  | .group _ children => Node.heightOf children + 1

def Node.heightOf : List Node → Nat
  | [] => 0
  | node :: rest => max node.height (Node.heightOf rest)

end

def Group.height (g : Group) : Nat := Node.heightOf g.children

theorem Node.heightOf_append (a b : List Node) :
    Node.heightOf (a ++ b) = max (Node.heightOf a) (Node.heightOf b) := by
  induction a with
  | nil => simp [Node.heightOf]
  | cons node rest ih => simp only [List.cons_append, Node.heightOf, ih]; omega

theorem Node.heightOf_reverse (nodes : List Node) : Node.heightOf nodes.reverse = Node.heightOf nodes := by
  induction nodes with
  | nil => rfl
  | cons node rest ih =>
    rw [List.reverse_cons, Node.heightOf_append, ih]
    simp only [Node.heightOf]
    omega

theorem Node.mem_leavesOf_append (a b : List Node) (c : Condition) :
    c ∈ Node.leavesOf (a ++ b) ↔ c ∈ Node.leavesOf a ∨ c ∈ Node.leavesOf b := by
  induction a with
  | nil => simp [Node.leavesOf]
  | cons node rest ih => simp only [List.cons_append, Node.leavesOf, List.mem_append, ih, or_assoc]

theorem Node.mem_leavesOf_reverse (nodes : List Node) (c : Condition) :
    c ∈ Node.leavesOf nodes.reverse ↔ c ∈ Node.leavesOf nodes := by
  induction nodes with
  | nil => rfl
  | cons node rest ih =>
    rw [List.reverse_cons, Node.mem_leavesOf_append, ih]
    simp only [Node.leavesOf, List.append_nil, List.mem_append]
    exact or_comm

namespace Filter

/-! ## One token -/

section
variable (mode : Mode) (base : Int) (top : Frame) (outer : List Frame) (token : Token)
  (rest : List Token)

theorem run_delimiter (l : Logical) (h : token.kind = .mark (.delimiter l)) :
    run mode base top outer (token :: rest) = run mode base { top with logical := l } outer rest := by
  conv => lhs; unfold run
  simp only [h]

theorem run_condition (h : token.kind = .condition) :
    run mode base top outer (token :: rest) =
      match Condition.read token.text with
      | .error fault => (.error fault, rest)
      | .ok c => run mode base (top.push (.condition c)) outer rest := by
  obtain ⟨kind, text, position⟩ := token
  cases h
  rfl

theorem run_opening (h : token.kind = .mark .opening) :
    run mode base top outer (token :: rest) =
      if mode.maxDepth ≤ base + outer.length then (.error (.parse (.tooDeep mode.maxDepth)), rest)
      else run mode base {} (top :: outer) rest := by
  conv => lhs; unfold run
  simp only [h]

theorem run_closing (h : token.kind = .mark .closing) :
    run mode base top outer (token :: rest) =
      if mode.strict ∧ base + outer.length = 0 then
        (.error (.parse (.unbalanced (.unexpectedClose token.position))), rest)
      else
        match outer with
        | [] => (.ok top.group, rest)
        | parent :: outer => run mode base (parent.push top.group.toNode) outer rest := by
  obtain ⟨kind, text, position⟩ := token
  cases h
  rfl

theorem run_closing_nested (hbase : 0 ≤ base) (parent : Frame) (h : token.kind = .mark .closing) :
    run mode base top (parent :: outer) (token :: rest) =
      run mode base (parent.push top.group.toNode) outer rest := by
  have hopen : ¬ (mode.strict = true ∧ base + ((parent :: outer).length : Int) = 0) := by
    rw [List.length_cons]
    omega
  rw [run_closing _ _ _ _ _ _ h, if_neg hopen]

end

/-- What a token makes of the frames when reading goes on after it. -/
inductive Step (mode : Mode) (base : Int) (token : Token) :
    Frame → List Frame → Frame → List Frame → Prop
  | condition {top : Frame} {outer : List Frame} (c : Condition) : token.kind = .condition →
      Condition.read token.text = .ok c → Step mode base token top outer (top.push (.condition c)) outer
  | delimiter {top : Frame} {outer : List Frame} (l : Logical) : token.kind = .mark (.delimiter l) →
      Step mode base token top outer { top with logical := l } outer
  | opening {top : Frame} {outer : List Frame} : token.kind = .mark .opening →
      base + outer.length < mode.maxDepth → Step mode base token top outer {} (top :: outer)
  | closing {top parent : Frame} {outer : List Frame} : token.kind = .mark .closing →
      Step mode base token top (parent :: outer) (parent.push top.group.toNode) outer

/-- Where reading succeeds, its first token makes a step, or ends the outermost group. -/
theorem run_cons_eq_ok (mode : Mode) (base : Int) (top : Frame) (outer : List Frame) (token : Token)
    (ts : List Token) (g : Group) (rest : List Token)
    (h : run mode base top outer (token :: ts) = (.ok g, rest)) :
    (∃ top' outer', Step mode base token top outer top' outer' ∧
      run mode base top' outer' ts = (.ok g, rest)) ∨
    (token.kind = .mark .closing ∧ outer = [] ∧ ¬ (mode.strict = true ∧ base = 0) ∧
      top.group = g ∧ ts = rest) := by
  cases hk : token.kind with
  | condition =>
    rw [run_condition _ _ _ _ _ _ hk] at h
    split at h
    · cases h
    · next c hr => exact Or.inl ⟨_, _, .condition c hk hr, h⟩
  | mark mark =>
    cases mark with
    | delimiter l =>
      rw [run_delimiter _ _ _ _ _ _ l hk] at h
      exact Or.inl ⟨_, _, .delimiter l hk, h⟩
    | opening =>
      rw [run_opening _ _ _ _ _ _ hk] at h
      split at h
      · cases h
      · next hroom => exact Or.inl ⟨_, _, .opening hk (Int.not_le.mp hroom), h⟩
    | closing =>
      rw [run_closing _ _ _ _ _ _ hk] at h
      split at h
      · cases h
      · next hstray =>
        cases outer with
        | nil =>
          simp only [Prod.mk.injEq, Except.ok.injEq] at h
          exact Or.inr ⟨rfl, rfl, by simpa using hstray, h⟩
        | cons parent outer => exact Or.inl ⟨_, _, .closing hk, h⟩

/-! ## Invariants -/

theorem closeAll_invariant (I : Frame → List Frame → Prop)
    (hclose : ∀ top parent outer, I top (parent :: outer) → I (parent.push top.group.toNode) outer)
    (top : Frame) (outer : List Frame) (hi : I top outer) :
    ∃ frame, I frame [] ∧ top.closeAll outer = frame.group := by
  induction outer generalizing top with
  | nil => exact ⟨top, hi, rfl⟩
  | cons parent outer ih => exact ih _ (hclose top parent outer hi)

/-- What holds of the frames at the start and is kept by every step holds of the frame that is read in
the end.  `P` is what is known of the conditions that the tokens spell. -/
theorem run_invariant (mode : Mode) (base : Int) (P : Condition → Prop)
    (I : Frame → List Frame → Prop)
    (hopen : ∀ top outer, base + outer.length < mode.maxDepth → I top outer → I {} (top :: outer))
    (hclose : ∀ top parent outer, I top (parent :: outer) → I (parent.push top.group.toNode) outer)
    (hlogical : ∀ top outer l, I top outer → I { top with logical := l } outer)
    (hpush : ∀ top outer c, P c → I top outer → I (top.push (.condition c)) outer)
    (ts : List Token)
    (hts : ∀ token ∈ ts, token.kind = .condition → ∀ c, Condition.read token.text = .ok c → P c)
    (top : Frame) (outer : List Frame) (g : Group) (rest : List Token)
    (h : run mode base top outer ts = (.ok g, rest)) (hi : I top outer) :
    ∃ frame, I frame [] ∧ g = frame.group := by
  induction ts generalizing top outer with
  | nil =>
    unfold run at h
    split at h
    · cases h
    · simp only [Prod.mk.injEq, Except.ok.injEq] at h
      obtain ⟨rfl, -⟩ := h
      exact closeAll_invariant I hclose top outer hi
  | cons token ts ih =>
    rcases run_cons_eq_ok _ _ _ _ _ _ _ _ h with ⟨top', outer', hstep, hrun⟩ | ⟨-, rfl, -, hg, -⟩
    · refine ih (fun t ht => hts t (List.mem_cons_of_mem token ht)) top' outer' hrun ?_
      cases hstep with
      | condition c hk hr => exact hpush _ _ c (hts token List.mem_cons_self hk c hr) hi
      | delimiter l _ => exact hlogical _ _ l hi
      | opening _ hroom => exact hopen _ _ hroom hi
      | closing _ => exact hclose _ _ _ hi
    · exact ⟨top, hi, hg.symm⟩

/-! ## Depth -/

/-- The children of every frame keep to the depth that is left below it. -/
def Fits (m : Nat) (top : Frame) : List Frame → Prop
  | [] => Node.heightOf top.reversed ≤ m
  | parent :: outer => outer.length + 1 + Node.heightOf top.reversed ≤ m ∧ Fits m parent outer

theorem fits_push (m : Nat) (top : Frame) (outer : List Frame) (node : Node)
    (h : Fits m top outer) (hn : outer.length + node.height ≤ m) : Fits m (top.push node) outer := by
  cases outer with
  | nil =>
    simp only [Fits, Frame.push, Node.heightOf, List.length_nil] at h hn ⊢
    omega
  | cons parent outer =>
    simp only [Fits, Frame.push, Node.heightOf, List.length_cons] at h hn ⊢
    exact ⟨by omega, h.2⟩

theorem height_toNode (frame : Frame) :
    frame.group.toNode.height = Node.heightOf frame.reversed + 1 := by
  rw [Group.toNode, Node.height, Frame.group, Node.heightOf_reverse]

theorem height_le_of_run (mode : Mode) (ts : List Token) (g : Group) (rest : List Token)
    (h : run mode 0 {} [] ts = (.ok g, rest)) : g.height ≤ mode.maxDepth.toNat := by
  obtain ⟨frame, hfits, rfl⟩ := run_invariant mode 0 (fun _ => True) (Fits mode.maxDepth.toNat)
    (fun top outer hroom hi => by
      refine ⟨?_, hi⟩
      simp only [Node.heightOf]
      omega)
    (fun top parent outer hi => by
      refine fits_push _ parent outer _ hi.2 ?_
      rw [height_toNode]
      have := hi.1
      omega)
    (fun top outer l hi => by cases outer <;> exact hi)
    (fun top outer c _ hi => by
      cases outer with
      | nil => exact fits_push _ top [] _ hi (by simp [Node.height])
      | cons parent outer =>
        have := hi.1
        exact fits_push _ top _ _ hi (by simp only [List.length_cons, Node.height]; omega))
    ts (fun _ _ _ _ _ => trivial) {} [] g rest h (Nat.zero_le _)
  rw [Group.height, Frame.group, Node.heightOf_reverse]
  exact hfits

/-! ## Leaves -/

/-- What is known of every condition that a token spells is known of every leaf. -/
theorem leaves_of_run (mode : Mode) (base : Int) (P : Condition → Prop) (ts : List Token)
    (hts : ∀ token ∈ ts, token.kind = .condition → ∀ c, Condition.read token.text = .ok c → P c)
    (g : Group) (rest : List Token) (h : run mode base {} [] ts = (.ok g, rest)) :
    ∀ c ∈ g.leaves, P c := by
  obtain ⟨frame, hleaves, rfl⟩ := run_invariant mode base P
    (fun top outer => ∀ frame ∈ top :: outer, ∀ c ∈ Node.leavesOf frame.reversed, P c)
    (fun top outer _ hi => by
      intro frame hf
      rcases List.mem_cons.mp hf with rfl | hf
      · intro c hc; cases hc
      · exact hi frame hf)
    (fun top parent outer hi => by
      intro frame hf c hc
      rcases List.mem_cons.mp hf with rfl | hf
      · -- the children of the closed frame become leaves of its parent
        simp only [Frame.push, Group.toNode, Frame.group, Node.leavesOf, Node.leaves,
          List.mem_append, Node.mem_leavesOf_reverse] at hc
        rcases hc with hc | hc
        · exact hi top List.mem_cons_self c hc
        · exact hi parent (by simp) c hc
      · exact hi frame (by simp [hf]) c hc)
    (fun top outer l hi => by
      intro frame hf
      rcases List.mem_cons.mp hf with rfl | hf
      · exact hi top List.mem_cons_self
      · exact hi frame (List.mem_cons_of_mem _ hf))
    (fun top outer c hc hi => by
      intro frame hf d hd
      rcases List.mem_cons.mp hf with rfl | hf
      · simp only [Frame.push, Node.leavesOf, Node.leaves, List.mem_append, List.mem_singleton] at hd
        rcases hd with rfl | hd
        · exact hc
        · exact hi top List.mem_cons_self d hd
      · exact hi frame (List.mem_cons_of_mem _ hf) d hd)
    ts hts {} [] g rest h (by
      intro frame hf c hc
      obtain rfl := List.mem_singleton.mp hf
      cases hc)
  intro c hc
  rw [Group.leaves, Frame.group, Node.mem_leavesOf_reverse] at hc
  exact hleaves frame List.mem_cons_self c hc

end Filter

end ResourceUrl
