import ResourceUrl.Proofs.Progress

/-!
# The depth limit

A stack of half-read groups is the group that would be read if the source ended here:
`Frame.closeAll`.  Its height is at least that of the stack (`length_add_le_height_closeAll`), and no
step of reading lowers it (`height_closeAll_le_of_run`).  So a parenthesis that is opened too deep for
one limit leaves its mark on every tree that is read under a higher one, also when nothing closes it:

    m ≤ M  →  run ⟨strict, m⟩ = run ⟨strict, M⟩, or the first is too deep and the second
              reads only groups that are higher than m                              (run_of_maxDepth_le)

Hence a limit decides which trees are accepted, and nothing else (`read_by_depth`).
-/

namespace ResourceUrl.Filter

/-! ## The height of a stack -/

theorem Frame.height_group (frame : Frame) : frame.group.height = Node.heightOf frame.reversed := by
  rw [Group.height, Frame.group, Node.heightOf_reverse]

theorem Frame.height_closeAll_le (a b : Frame) (outer : List Frame)
    (h : Node.heightOf a.reversed ≤ Node.heightOf b.reversed) :
    (a.closeAll outer).height ≤ (b.closeAll outer).height := by
  induction outer generalizing a b with
  | nil =>
    show a.group.height ≤ b.group.height
    rw [height_group, height_group]
    exact h
  | cons parent outer ih =>
    apply ih
    show max a.group.toNode.height (Node.heightOf parent.reversed) ≤
      max b.group.toNode.height (Node.heightOf parent.reversed)
    rw [height_toNode, height_toNode]
    omega

theorem Frame.length_add_le_height_closeAll (top : Frame) (outer : List Frame) :
    outer.length + Node.heightOf top.reversed ≤ (top.closeAll outer).height := by
  induction outer generalizing top with
  | nil =>
    show 0 + _ ≤ top.group.height
    rw [height_group]
    omega
  | cons parent outer ih =>
    have hpush : Node.heightOf (parent.push top.group.toNode).reversed =
        max (Node.heightOf top.reversed + 1) (Node.heightOf parent.reversed) := by
      rw [← height_toNode]
      rfl
    have := ih (parent.push top.group.toNode)
    show outer.length + 1 + _ ≤ ((parent.push top.group.toNode).closeAll outer).height
    omega

/-- What is read is no lower than the stack that it is read from. -/
theorem height_closeAll_le_of_run (mode : Mode) (base : Int) (top : Frame) (outer : List Frame)
    (ts : List Token) (g : Group) (rest : List Token)
    (h : run mode base top outer ts = (.ok g, rest)) : (top.closeAll outer).height ≤ g.height := by
  have hpush : ∀ (frame : Frame) (node : Node),
      Node.heightOf frame.reversed ≤ Node.heightOf (frame.push node).reversed :=
    fun frame node => Nat.le_max_right _ _
  obtain ⟨frame, hle, rfl⟩ := run_invariant mode base (fun _ => True)
    (fun t o => (top.closeAll outer).height ≤ (t.closeAll o).height)
    (fun t o _ hi => Nat.le_trans hi (Frame.height_closeAll_le t _ o (hpush t _)))
    (fun _ _ _ hi => hi)
    (fun t o _ hi => Nat.le_trans hi (Frame.height_closeAll_le t _ o (Nat.le_refl _)))
    (fun t o _ _ hi => Nat.le_trans hi (Frame.height_closeAll_le t _ o (hpush t _)))
    ts (fun _ _ _ _ _ => trivial) top outer g rest h (Nat.le_refl _)
  exact hle

/-! ## Two limits -/

/-- Under two limits the same is read, unless the lower one is exceeded; then all that the higher one
admits is too high for the lower one. -/
theorem run_of_maxDepth_le (strict : Bool) (m M : Int) (hle : m ≤ M) (top : Frame)
    (outer : List Frame) (ts : List Token) :
    run ⟨strict, m⟩ 0 top outer ts = run ⟨strict, M⟩ 0 top outer ts ∨
      ((run ⟨strict, m⟩ 0 top outer ts).1 = .error (.parse (.tooDeep m)) ∧
        ∀ g rest, run ⟨strict, M⟩ 0 top outer ts = (.ok g, rest) → m < g.height) := by
  induction ts generalizing top outer with
  | nil => exact Or.inl rfl
  | cons token ts ih =>
    cases hk : token.kind with
    | condition =>
      rw [run_condition _ _ _ _ _ _ hk, run_condition _ _ _ _ _ _ hk]
      cases Condition.read token.text with
      | error fault => exact Or.inl rfl
      | ok c => exact ih (top.push (.condition c)) outer
    | mark mark =>
      cases mark with
      | delimiter l =>
        rw [run_delimiter _ _ _ _ _ _ l hk, run_delimiter _ _ _ _ _ _ l hk]
        exact ih { top with logical := l } outer
      | opening =>
        rw [run_opening _ _ _ _ _ _ hk, run_opening _ _ _ _ _ _ hk]
        dsimp only
        by_cases hroom : m ≤ 0 + (outer.length : Int)
        · -- the lower limit stops here, and the group that the higher one opens stays in the tree
          right
          rw [if_pos hroom]
          refine ⟨rfl, fun g rest hg => ?_⟩
          by_cases hfar : M ≤ 0 + (outer.length : Int)
          · rw [if_pos hfar] at hg
            cases hg
          · rw [if_neg hfar] at hg
            have hopened := Frame.length_add_le_height_closeAll {} (top :: outer)
            have hkept := height_closeAll_le_of_run _ _ _ _ _ _ _ hg
            rw [List.length_cons] at hopened
            omega
        · have hfar : ¬ M ≤ 0 + (outer.length : Int) := by omega
          rw [if_neg hroom, if_neg hfar]
          exact ih {} (top :: outer)
      | closing =>
        rw [run_closing _ _ _ _ _ _ hk, run_closing _ _ _ _ _ _ hk]
        dsimp only
        by_cases hstray : strict = true ∧ 0 + (outer.length : Int) = 0
        · rw [if_pos hstray, if_pos hstray]
          exact Or.inl rfl
        · rw [if_neg hstray, if_neg hstray]
          cases outer with
          | nil => exact Or.inl rfl
          | cons parent outer => exact ih (parent.push top.group.toNode) outer

/-! ## From the start -/

/-- A limit admits exactly the trees within it, and refuses a tree that is admitted under a higher
limit for its depth only; the tree itself does not depend on the limit. -/
theorem read_by_depth (strict : Bool) (m M : Int) (hnonneg : 0 ≤ m) (hle : m ≤ M)
    (source : String) :
    (∀ g, read ⟨strict, m⟩ source = .ok g ↔ read ⟨strict, M⟩ source = .ok g ∧ g.height ≤ m) ∧
    (∀ g, read ⟨strict, M⟩ source = .ok g → m < g.height →
      read ⟨strict, m⟩ source = .error (.parse (.tooDeep m))) ∧
    ∀ g h, read ⟨strict, m⟩ source = .ok g → read ⟨strict, M⟩ source = .ok h → g = h := by
  cases hts : tokenize source with
  | error e =>
    simp [read_of_tokenize_error _ source e hts]
  | ok ts =>
    simp only [read_of_tokenize _ source ts hts]
    have hwithin : ∀ g, (readGroup ⟨strict, m⟩ 0 ts).1 = .ok g → (g.height : Int) ≤ m := by
      intro g hg
      have := height_le_of_run ⟨strict, m⟩ ts g (readGroup ⟨strict, m⟩ 0 ts).2 (by rw [← hg]; rfl)
      dsimp only at this
      omega
    rcases run_of_maxDepth_le strict m M hle {} [] ts with heq | ⟨hdeep, hhigh⟩
    · have hsame : readGroup ⟨strict, M⟩ 0 ts = readGroup ⟨strict, m⟩ 0 ts := heq.symm
      rw [hsame]
      refine ⟨fun g => ⟨fun hg => ⟨hg, hwithin g hg⟩, fun hg => hg.1⟩, fun g hg hlt => ?_, ?_⟩
      · have := hwithin g hg
        omega
      · intro g h hg hh
        rw [hg] at hh
        exact Except.ok.inj hh
    · have hrefused : (readGroup ⟨strict, m⟩ 0 ts).1 = .error (.parse (.tooDeep m)) := hdeep
      have habove : ∀ g, (readGroup ⟨strict, M⟩ 0 ts).1 = .ok g → m < g.height := by
        intro g hg
        exact hhigh g (readGroup ⟨strict, M⟩ 0 ts).2 (by rw [← hg]; rfl)
      rw [hrefused]
      refine ⟨fun g => ⟨nofun, fun ⟨hg, hlow⟩ => ?_⟩, fun g hg hlt => rfl, nofun⟩
      have := habove g hg
      omega

/-- Two groups that nothing closes count; two that stand after a stray parenthesis do not. -/
theorem read_by_depth_unclosed :
    let deep : Group := ⟨.and, [.condition ⟨"a", "like", .text "x"⟩, .group .and [.group .and []]]⟩
    let flat : Group := ⟨.and, [.group .and [.condition ⟨"a", "like", .text "x"⟩]]⟩
    read ⟨false, 2⟩ "a[like]x;((" = .ok deep ∧
      read ⟨false, 1⟩ "a[like]x;((" = .error (.parse (.tooDeep 1)) ∧
      read ⟨false, 2⟩ "(a[like]x));((" = .ok flat ∧ read ⟨false, 1⟩ "(a[like]x));((" = .ok flat := by
  intro deep flat
  have hdeep : read ⟨false, 2⟩ "a[like]x;((" = .ok deep := rfl
  have hflat : read ⟨false, 2⟩ "(a[like]x));((" = .ok flat := rfl
  have hhigh : (1 : Int) < deep.height := by decide
  have hlow : (flat.height : Int) ≤ 1 := by decide
  obtain ⟨-, hrefused, -⟩ := read_by_depth false 1 2 (by decide) (by decide) "a[like]x;(("
  obtain ⟨hadmitted, -, -⟩ := read_by_depth false 1 2 (by decide) (by decide) "(a[like]x));(("
  exact ⟨hdeep, hrefused deep hdeep hhigh, hflat, (hadmitted flat).mpr ⟨hflat, hlow⟩⟩

end ResourceUrl.Filter
