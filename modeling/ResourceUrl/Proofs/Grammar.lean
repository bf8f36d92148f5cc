import ResourceUrl.Proofs.Machine

/-!
# The grammar of filter tokens

`Derives` is the grammar of a group's tokens: the children in order, with runs of delimiters before,
between and after them.  The operator of a group is that of the last delimiter on its own level.
Strict reading accepts exactly what the grammar derives within the depth limit, and reads the group
that it is derived from:

    (readGroup ⟨true, m⟩ 0 ts).1 = .ok g  ↔  g.height ≤ m ∧ g.Derives ts
                                                        (readGroup_recognizes_grammar)

A group that is derived but too deep is refused for its depth (`readGroup_of_derives_tooDeep`).

From left to right, `Completes` says what has to follow for a stack of frames to end in a group
(`completes_of_run`); from right to left, reading the tokens of children pushes them on the frame
whatever follows (`run_append_of_derives`).
-/

namespace ResourceUrl

namespace Filter

/-! ## Derivations -/

/-- The tokens are delimiters, of the given operators in order. -/
def AreDelimiters (ts : List Token) (ls : List Logical) : Prop :=
  ts.map Token.kind = ls.map fun l => .mark (.delimiter l)

/-- `Derives [n₁, …, nₖ] ls ts`: the tokens are `S₀ N₁ S₁ … Nₖ Sₖ`, where each `Sᵢ` is a possibly
empty run of delimiters and each `Nᵢ` is the condition `nᵢ` or the group `nᵢ` in parentheses; `ls` are
the operators of all the `Sᵢ` in order. -/
inductive Derives : List Node → List Logical → List Token → Prop
  | last {s : List Token} {ls : List Logical} : AreDelimiters s ls → Derives [] ls s
  | condition {s : List Token} {ls : List Logical} {token : Token} {c : Condition}
      {ns : List Node} {ks : List Logical} {ts : List Token} :
      AreDelimiters s ls → token.kind = .condition → Condition.read token.text = .ok c →
      Derives ns ks ts → Derives (.condition c :: ns) (ls ++ ks) (s ++ token :: ts)
  | group {s : List Token} {ls : List Logical} {opening closing : Token}
      {inner : List Node} {is : List Logical} {body : List Token}
      {ns : List Node} {ks : List Logical} {ts : List Token} :
      AreDelimiters s ls → opening.kind = .mark .opening → Derives inner is body →
      closing.kind = .mark .closing → Derives ns ks ts →
      Derives (.group (is.getLastD .and) inner :: ns) (ls ++ ks)
        (s ++ opening :: (body ++ closing :: ts))

end Filter

/-- The tokens of a group: its children are derived, and its operator is that of the last delimiter
on their level, or `and` when there is none. -/
def Group.Derives (g : Group) (ts : List Token) : Prop :=
  ∃ ls, Filter.Derives g.children ls ts ∧ g.logical = ls.getLastD .and

namespace Filter

theorem areDelimiters_nil : AreDelimiters [] [] := rfl

theorem getLastD_append (ls ks : List Logical) (l : Logical) :
    (ls ++ ks).getLastD l = ks.getLastD (ls.getLastD l) := by
  cases ks with
  | nil => simp
  | cons k ks => simp [List.getLastD_eq_getLast?, List.getLast?_append, List.getLast?_cons]

theorem Derives.delimiter {ns : List Node} {ls : List Logical} {ts : List Token}
    (h : Derives ns ls ts) (token : Token) (l : Logical) (ht : token.kind = .mark (.delimiter l)) :
    Derives ns (l :: ls) (token :: ts) := by
  have hcons : ∀ s ks, AreDelimiters s ks → AreDelimiters (token :: s) (l :: ks) := by
    intro s ks hs
    unfold AreDelimiters at hs ⊢
    rw [List.map_cons, List.map_cons, hs, ht]
  cases h with
  | last hs => exact .last (hcons _ _ hs)
  | condition hs hk hr hd => exact .condition (hcons _ _ hs) hk hr hd
  | group hs ho hi hc hd => exact .group (hcons _ _ hs) ho hi hc hd

/-! ## Derived tokens are read -/

/-- The frame with more children and after more delimiters. -/
def Frame.extend (frame : Frame) (ns : List Node) (ls : List Logical) : Frame :=
  { logical := ls.getLastD frame.logical, reversed := ns.reverse ++ frame.reversed }

theorem Frame.extend_extend (frame : Frame) (ns ms : List Node) (ls ks : List Logical) :
    (frame.extend ns ls).extend ms ks = frame.extend (ns ++ ms) (ls ++ ks) := by
  simp only [Frame.extend, getLastD_append, List.reverse_append, List.append_assoc]

theorem run_append_of_areDelimiters (mode : Mode) (base : Int) (outer : List Frame)
    (s rest : List Token) (ls : List Logical) (h : AreDelimiters s ls) (top : Frame) :
    run mode base top outer (s ++ rest) = run mode base (top.extend [] ls) outer rest := by
  induction ls generalizing s top with
  | nil =>
    obtain rfl : s = [] := List.map_eq_nil_iff.mp h
    rfl
  | cons l ls ih =>
    obtain ⟨token, s, rfl, ht, hs⟩ := List.map_eq_cons_iff.mp h
    rw [List.cons_append, run_delimiter mode base top outer token _ l ht, ih s hs]
    show run mode base ((top.extend [] [l]).extend [] ls) outer rest = _
    rw [Frame.extend_extend]
    rfl

/-- Reading the tokens of children pushes them on the frame, whatever follows. -/
theorem run_append_of_derives (mode : Mode) (ns : List Node) (ls : List Logical) (ts : List Token)
    (h : Derives ns ls ts) (top : Frame) (outer : List Frame) (rest : List Token)
    (hfit : outer.length + Node.heightOf ns ≤ mode.maxDepth.toNat) :
    run mode 0 top outer (ts ++ rest) = run mode 0 (top.extend ns ls) outer rest := by
  induction h generalizing top outer rest with
  | last hs => exact run_append_of_areDelimiters mode 0 outer _ rest _ hs top
  | @condition s ls token c ns ks ts hs hk hr _ ih =>
    simp only [Node.heightOf, Node.height] at hfit
    rw [List.append_assoc, run_append_of_areDelimiters mode 0 outer s _ ls hs, List.cons_append,
      run_condition mode 0 _ outer token _ hk]
    simp only [hr]
    rw [ih _ _ _ (by omega)]
    show run mode 0 (((top.extend [] ls).extend [.condition c] []).extend ns ks) outer rest = _
    rw [Frame.extend_extend, Frame.extend_extend]
    rfl
  | @group s ls opening closing inner is body ns ks ts hs ho _ hc _ ihInner ih =>
    simp only [Node.heightOf, Node.height] at hfit
    have hroom : ¬ mode.maxDepth ≤ 0 + (outer.length : Int) := by omega
    rw [List.append_assoc, run_append_of_areDelimiters mode 0 outer s _ ls hs, List.cons_append,
      run_opening mode 0 _ outer opening _ ho, if_neg hroom, List.append_assoc,
      ihInner _ _ _ (by simp only [List.length_cons]; omega), List.cons_append,
      run_closing_nested mode 0 _ _ closing _ (Int.le_refl 0) _ hc, ih _ _ _ (by omega)]
    have hinner : (Frame.extend {} inner is).group.toNode = .group (is.getLastD .and) inner := by
      simp [Frame.extend, Frame.group, Group.toNode]
    rw [hinner]
    show run mode 0 (((top.extend [] ls).extend [.group (is.getLastD .and) inner] []).extend ns ks)
      outer rest = _
    rw [Frame.extend_extend, Frame.extend_extend]
    rfl

theorem readGroup_of_derives (mode : Mode) (g : Group) (ts : List Token)
    (hfit : g.height ≤ mode.maxDepth.toNat) (h : g.Derives ts) :
    readGroup mode 0 ts = (.ok g, []) := by
  obtain ⟨logical, children⟩ := g
  obtain ⟨ls, hd, rfl⟩ := h
  have hrun := run_append_of_derives mode children ls ts hd {} [] []
    (by simpa [Group.height] using hfit)
  rw [List.append_nil] at hrun
  rw [readGroup, hrun]
  simp [run, Frame.closeAll, Frame.extend, Frame.group]

/-! ## Derived tokens that are too deep -/

/-- Reading the tokens of children stops at a group that is too deep, if there is one among them. -/
theorem run_append_of_derives_tooDeep (mode : Mode) (ns : List Node) (ls : List Logical)
    (ts : List Token) (h : Derives ns ls ts) (top : Frame) (outer : List Frame) (rest : List Token)
    (hgroup : 0 < Node.heightOf ns) (hdeep : mode.maxDepth.toNat < outer.length + Node.heightOf ns) :
    (run mode 0 top outer (ts ++ rest)).1 = .error (.parse (.tooDeep mode.maxDepth)) := by
  induction h generalizing top outer rest with
  | last => cases hgroup
  | @condition s ls token c ns ks ts hs hk hr _ ih =>
    simp only [Node.heightOf, Node.height] at hgroup hdeep
    rw [List.append_assoc, run_append_of_areDelimiters mode 0 outer s _ ls hs, List.cons_append,
      run_condition mode 0 _ outer token _ hk]
    simp only [hr]
    exact ih _ _ _ (by omega) (by omega)
  | @group s ls opening closing inner is body ns ks ts hs ho hinner hc _ ihInner ih =>
    simp only [Node.heightOf, Node.height] at hgroup hdeep
    rw [List.append_assoc, run_append_of_areDelimiters mode 0 outer s _ ls hs, List.cons_append,
      run_opening mode 0 _ outer opening _ ho]
    by_cases hroom : mode.maxDepth ≤ 0 + (outer.length : Int)
    · rw [if_pos hroom]
    · rw [if_neg hroom, List.append_assoc]
      by_cases hfit : (outer.length + 1) + Node.heightOf inner ≤ mode.maxDepth.toNat
      · -- the group itself is read, so it is one of the other children
        rw [run_append_of_derives mode inner is body hinner _ (top.extend [] ls :: outer) _ hfit,
          List.cons_append, run_closing_nested mode 0 _ _ closing _ (Int.le_refl 0) _ hc]
        exact ih _ _ _ (by omega) (by omega)
      · exact ihInner _ _ _ (by omega) (by rw [List.length_cons]; omega)

theorem readGroup_of_derives_tooDeep (mode : Mode) (g : Group) (ts : List Token)
    (hdeep : mode.maxDepth.toNat < g.height) (h : g.Derives ts) :
    (readGroup mode 0 ts).1 = .error (.parse (.tooDeep mode.maxDepth)) := by
  obtain ⟨ls, hd, -⟩ := h
  have hrun := run_append_of_derives_tooDeep mode g.children ls ts hd {} [] [] (by
    have : 0 < g.height := Nat.zero_lt_of_lt hdeep
    exact this) (by
    rw [List.length_nil, Nat.zero_add]
    exact hdeep)
  rwa [List.append_nil] at hrun

/-! ## What is read is derived -/

/-- The tokens that have to follow for the frame `top` within `outer` to end in `g`: more children for
the frame, and after each frame but the outermost a closing parenthesis. -/
def Completes (g : Group) : Frame → List Frame → List Token → Prop
  | top, [], ts => ∃ ns ls, Derives ns ls ts ∧ g = (top.extend ns ls).group
  | top, parent :: outer, ts =>
    ∃ ns ls body closing rest, ts = body ++ closing :: rest ∧ Derives ns ls body ∧
      closing.kind = .mark .closing ∧
      Completes g (parent.push (top.extend ns ls).group.toNode) outer rest

theorem Completes.before (g : Group) (outer : List Frame) (ms : List Node) (ks : List Logical)
    (before : List Token)
    (h : ∀ ns ls ts, Derives ns ls ts → Derives (ms ++ ns) (ks ++ ls) (before ++ ts))
    (top : Frame) (ts : List Token) (hc : Completes g (top.extend ms ks) outer ts) :
    Completes g top outer (before ++ ts) := by
  cases outer with
  | nil =>
    obtain ⟨ns, ls, hd, hg⟩ := hc
    exact ⟨ms ++ ns, ks ++ ls, h ns ls ts hd, by rw [hg, Frame.extend_extend]⟩
  | cons parent outer =>
    obtain ⟨ns, ls, body, closing, rest, rfl, hd, hk, hrest⟩ := hc
    rw [Frame.extend_extend] at hrest
    exact ⟨ms ++ ns, ks ++ ls, before ++ body, closing, rest, by rw [List.append_assoc],
      h ns ls body hd, hk, hrest⟩

/-- Strict reading succeeds on tokens that complete its frames only. -/
theorem completes_of_run (maxDepth : Int) (g : Group) (rest : List Token) (ts : List Token)
    (top : Frame) (outer : List Frame)
    (h : run ⟨true, maxDepth⟩ 0 top outer ts = (.ok g, rest)) : Completes g top outer ts := by
  induction ts generalizing top outer with
  | nil =>
    unfold run at h
    split at h
    · cases h
    · next hdepth =>
      cases outer with
      | nil =>
        simp only [Frame.closeAll, Prod.mk.injEq, Except.ok.injEq] at h
        exact ⟨[], [], .last areDelimiters_nil, h.1.symm⟩
      | cons parent outer =>
        exfalso
        apply hdepth
        refine ⟨rfl, ?_⟩
        simp only [List.length_cons]
        omega
  | cons token ts ih =>
    rcases run_cons_eq_ok _ _ _ _ _ _ _ _ h with ⟨top', outer', hstep, hrun⟩ | ⟨-, -, hstrict, -, -⟩
    · have hcompletes := ih top' outer' hrun
      cases hstep with
      | condition c hk hr =>
        exact Completes.before g outer [.condition c] [] [token]
          (fun ns ls ts hd => .condition areDelimiters_nil hk hr hd) top ts hcompletes
      | delimiter l hk =>
        exact Completes.before g outer [] [l] [token] (fun ns ls ts hd => hd.delimiter token l hk)
          top ts hcompletes
      | opening hk _ =>
        obtain ⟨ns, ls, body, closing, rest, rfl, hd, hc, hrest⟩ := hcompletes
        have hnode : (Frame.extend {} ns ls).group.toNode = .group (ls.getLastD .and) ns := by
          simp [Frame.extend, Frame.group, Group.toNode]
        rw [hnode] at hrest
        have := Completes.before g outer [.group (ls.getLastD .and) ns] []
          (token :: (body ++ [closing])) (fun ms ks ts hm => by
            have := Derives.group areDelimiters_nil hk hd hc hm
            simpa using this) top rest hrest
        simpa using this
      | closing hk => exact ⟨[], [], [], token, ts, rfl, .last areDelimiters_nil, hk, hcompletes⟩
    · exact absurd ⟨rfl, rfl⟩ hstrict

/-- Strict reading accepts what the grammar derives within the depth limit, and nothing else. -/
theorem readGroup_strict_eq_ok_iff (maxDepth : Int) (ts : List Token) (g : Group) :
    (readGroup ⟨true, maxDepth⟩ 0 ts).1 = .ok g ↔ g.height ≤ maxDepth.toNat ∧ g.Derives ts := by
  constructor
  · intro h
    have hrun : run ⟨true, maxDepth⟩ 0 {} [] ts =
        (.ok g, (readGroup ⟨true, maxDepth⟩ 0 ts).2) := by
      rw [← h]
      rfl
    refine ⟨height_le_of_run _ _ _ _ hrun, ?_⟩
    obtain ⟨ns, ls, hd, rfl⟩ := completes_of_run maxDepth g _ ts {} [] hrun
    refine ⟨ls, ?_, rfl⟩
    simpa [Frame.extend, Frame.group] using hd
  · rintro ⟨hfit, hd⟩
    rw [readGroup_of_derives ⟨true, maxDepth⟩ g ts hfit hd]

/-! ## The grammar decides -/

/-- Strict reading recognizes the grammar of tokens exactly, and the grammar is unambiguous: no tokens
are derived from two groups. -/
theorem readGroup_recognizes_grammar (ts : List Token) (m : Nat) (g : Group) :
    ((readGroup { strict := true, maxDepth := m } 0 ts).1 = .ok g ↔ g.height ≤ m ∧ g.Derives ts) ∧
      ∀ h : Group, g.height ≤ m → g.Derives ts → h.height ≤ m → h.Derives ts → g = h := by
  have hiff := readGroup_strict_eq_ok_iff m ts
  refine ⟨hiff g, fun h hg hgd hh hhd => ?_⟩
  have h1 := (hiff g).mpr ⟨hg, hgd⟩
  have h2 := (hiff h).mpr ⟨hh, hhd⟩
  rw [h1] at h2
  exact Except.ok.inj h2

end Filter

end ResourceUrl
