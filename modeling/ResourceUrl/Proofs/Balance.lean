import Mathlib.Data.List.Infix
import ResourceUrl.Proofs.Progress

/-!
# Balanced and unbalanced filters

Whether the parentheses of a source pair up is a matter of counting characters: `IsBalanced` compares
the counts of all its prefixes, and `firstStray?` finds the first closing parenthesis at which more
are closed than opened.  Reading follows the same count with its stack of frames
(`nest?_of_firstStray?_eq_some`, `nest?_of_firstStray?_eq_none`), so the two modes can only part where
the count does:

    IsBalanced source → read strict source = read permissive source        (read_strict_by_balance)
    read permissive source = read strict (repair source)                   (read_permissive_eq_repaired)

where `repair` cuts a source before its first stray parenthesis, or else closes what is left open.
-/

namespace ResourceUrl.Filter

/-! ## Counting parentheses -/

/-- At `p` stands a closing parenthesis, and up to it more are closed than opened. -/
def IsStray (text : List Char) (p : Nat) : Prop :=
  text[p]? = some ')' ∧ (text.take (p + 1)).count '(' < (text.take (p + 1)).count ')'

instance (text : List Char) : DecidablePred (IsStray text) := fun p =>
  inferInstanceAs (Decidable (text[p]? = some ')' ∧
    (text.take (p + 1)).count '(' < (text.take (p + 1)).count ')'))

/-- The position of the first closing parenthesis that nothing opened. -/
def firstStray? (source : String) : Option Nat :=
  (List.range source.toList.length).find? fun p => IsStray source.toList p

/-- Every prefix opens at least as many parentheses as it closes, and the whole as many. -/
def IsBalanced (source : String) : Prop :=
  (∀ before ∈ source.toList.inits, before.count ')' ≤ before.count '(') ∧
    source.toList.count ')' = source.toList.count '('

/-- The source without what begins at its first stray parenthesis; if there is none, with a closing
parenthesis for each one that is left open. -/
def repair (source : String) : String :=
  match firstStray? source with
  | some p => .ofList (source.toList.take p)
  | none =>
    .ofList (source.toList ++
      List.replicate (source.toList.count '(' - source.toList.count ')') ')')

theorem IsStray.lt {text : List Char} {p : Nat} (h : IsStray text p) : p < text.length :=
  (List.getElem?_eq_some_iff.mp h.1).1

theorem isStray_append (text rest : List Char) (p : Nat) (h : p < text.length) :
    IsStray (text ++ rest) p ↔ IsStray text p := by
  unfold IsStray
  rw [List.getElem?_append_left h, List.take_append_of_le_length h]

theorem nest?_of_ne (k : Nat) (c : Char) (hopen : c ≠ '(') (hclose : c ≠ ')') :
    Mark.nest? k ([c].filterMap Mark.ofChar?) = some k := by
  cases hc : Mark.ofChar? c with
  | none => rw [List.filterMap_cons_none hc]; rfl
  | some mark =>
    have hchar := Mark.eq_toChar_of_ofChar? c mark hc
    rw [List.filterMap_cons_some hc]
    cases mark with
    | opening => exact absurd hchar hopen
    | closing => exact absurd hchar hclose
    | delimiter l => rfl

/-- Without a stray parenthesis the groups that are open are the surplus of opening ones. -/
theorem nest?_of_not_isStray (text : List Char) (h : ∀ p, ¬ IsStray text p) :
    ∃ k, Mark.nest? 0 (text.filterMap Mark.ofChar?) = some k ∧
      k + text.count ')' = text.count '(' := by
  induction text using List.reverseRecOn with
  | nil => exact ⟨0, rfl, rfl⟩
  | append_singleton text c ih =>
    have hbefore : ∀ p, ¬ IsStray text p := by
      intro p hp
      exact h p ((isStray_append text [c] p hp.lt).mpr hp)
    obtain ⟨k, hk, hcount⟩ := ih hbefore
    rw [List.filterMap_append, Mark.nest?_append, hk, List.count_append, List.count_append]
    by_cases hopen : c = '('
    · subst hopen
      have hcounts : ['('].count ')' = 0 ∧ ['('].count '(' = 1 := by decide
      exact ⟨k + 1, rfl, by omega⟩
    by_cases hclose : c = ')'
    · subst hclose
      have hcounts : [')'].count ')' = 1 ∧ [')'].count '(' = 0 := by decide
      -- with no group open the parenthesis would be stray itself
      have hpos : k ≠ 0 := by
        rintro rfl
        refine h text.length ⟨by simp, ?_⟩
        rw [List.take_of_length_le (by simp), List.count_append, List.count_append]
        omega
      refine ⟨k - 1, ?_, by omega⟩
      show Mark.nest? k [.closing] = some (k - 1)
      rw [Mark.nest?_cons, Mark.step?, if_neg hpos]
      rfl
    · have hcounts : [c].count ')' = 0 ∧ [c].count '(' = 0 := by simp [hopen, hclose]
      exact ⟨k, nest?_of_ne k c hopen hclose, by omega⟩

theorem firstStray?_eq_none_iff (source : String) :
    firstStray? source = none ↔ ∀ p, ¬ IsStray source.toList p := by
  rw [firstStray?, List.find?_range_eq_none]
  constructor
  · intro h p hp
    have := h p hp.lt
    simp [hp] at this
  · intro h p _
    simp [h p]

/-- Up to the first stray parenthesis every group that is opened is closed. -/
theorem nest?_of_firstStray?_eq_some (source : String) (p : Nat) (h : firstStray? source = some p) :
    source.toList = source.toList.take p ++ ')' :: source.toList.drop (p + 1) ∧
      Mark.nest? 0 ((source.toList.take p).filterMap Mark.ofChar?) = some 0 := by
  unfold firstStray? at h
  generalize source.toList = text at h ⊢
  obtain ⟨hstray, -, hfirst⟩ := List.find?_range_eq_some.mp h
  obtain ⟨hchar, hcount⟩ := of_decide_eq_true hstray
  obtain ⟨hlt, hget⟩ := List.getElem?_eq_some_iff.mp hchar
  have hdrop : text.drop p = ')' :: text.drop (p + 1) := by
    rw [List.drop_eq_getElem_cons hlt, hget]
  refine ⟨by rw [← hdrop, List.take_append_drop], ?_⟩
  have hbefore : ∀ q, ¬ IsStray (text.take p) q := by
    intro q hq
    have hqp : q < p := by
      have := hq.lt
      rw [List.length_take] at this
      omega
    have hwhole := (isStray_append (text.take p) (text.drop p) q hq.lt).mpr hq
    rw [List.take_append_drop] at hwhole
    have := hfirst q hqp
    simp [hwhole] at this
  obtain ⟨k, hk, hsurplus⟩ := nest?_of_not_isStray (text.take p) hbefore
  -- the parenthesis at `p` is one too many, so nothing was open before it
  have htake : text.take (p + 1) = text.take p ++ [')'] := by
    rw [List.take_add_one, hchar]
    rfl
  have hcounts : [')'].count ')' = 1 ∧ [')'].count '(' = 0 := by decide
  rw [htake, List.count_append, List.count_append] at hcount
  obtain rfl : k = 0 := by omega
  exact hk

theorem nest?_of_firstStray?_eq_none (source : String) (h : firstStray? source = none) :
    Mark.nest? 0 (source.toList.filterMap Mark.ofChar?) =
      some (source.toList.count '(' - source.toList.count ')') := by
  obtain ⟨k, hk, hsurplus⟩ :=
    nest?_of_not_isStray source.toList ((firstStray?_eq_none_iff source).mp h)
  rw [hk]
  congr 1
  omega

theorem isBalanced_iff (source : String) :
    IsBalanced source ↔ firstStray? source = none ∧
      source.toList.count '(' ≤ source.toList.count ')' := by
  rw [firstStray?_eq_none_iff]
  constructor
  · rintro ⟨hupto, htotal⟩
    refine ⟨fun p hp => ?_, by omega⟩
    have hle := hupto (source.toList.take (p + 1))
      ((List.mem_inits _ _).mpr (List.take_prefix _ _))
    have := hp.2
    omega
  · rintro ⟨hnone, hopen⟩
    have hupto : ∀ before after, before ++ after = source.toList →
        before.count ')' ≤ before.count '(' := by
      intro before after hsource
      obtain ⟨k, -, hsurplus⟩ := nest?_of_not_isStray before fun p hp =>
        hnone p (hsource ▸ (isStray_append before after p hp.lt).mpr hp)
      omega
    have htotal := hupto source.toList [] (List.append_nil _)
    refine ⟨fun before hbefore => ?_, by omega⟩
    obtain ⟨after, hsource⟩ := (List.mem_inits _ _).mp hbefore
    exact hupto before after hsource

/-! ## Tokens up to the first stray parenthesis -/

/-- The tokens of a source divide at its first stray parenthesis. -/
theorem tokens_of_firstStray? (source : String) (ts : List Token) (p : Nat)
    (hts : tokenize source = .ok ts) (hp : firstStray? source = some p) :
    ∃ seen rest, ts = seen ++ Mark.closing.token p :: rest ∧
      tokensFrom 0 (source.toList.take p) = .ok seen ∧
      Mark.nest? 0 (seen.filterMap Token.mark?) = some 0 := by
  obtain ⟨hsource, hnest⟩ := nest?_of_firstStray?_eq_some source p hp
  have hlength : (source.toList.take p).length = p := by
    have := congrArg List.length hsource
    rw [List.length_append, List.length_cons, List.length_drop, List.length_take] at this
    rw [List.length_take]
    omega
  rw [tokenize_eq_tokensFrom, hsource] at hts
  change tokensFrom 0 (source.toList.take p ++ Mark.closing.toChar :: source.toList.drop (p + 1)) =
    .ok ts at hts
  rw [tokensFrom_append_mark .closing (by simp), hlength, Nat.zero_add] at hts
  cases hseen : tokensFrom 0 (source.toList.take p) with
  | error e => rw [hseen] at hts; cases hts
  | ok seen =>
    rw [hseen] at hts
    obtain ⟨rest, -, rfl⟩ := exists_of_map_eq_ok _ _ _ hts
    refine ⟨seen, rest, rfl, rfl, ?_⟩
    rw [marks_of_tokensFrom _ 0 seen hseen]
    exact hnest

theorem tokensFrom_append_closings (position : Nat) (source : List Char) (ts : List Token)
    (h : tokensFrom position source = .ok ts) (k : Nat) :
    ∃ closings, closings.length = k ∧ (∀ token ∈ closings, token.kind = .mark .closing) ∧
      tokensFrom position (source ++ List.replicate k ')') = .ok (ts ++ closings) := by
  induction k with
  | zero => exact ⟨[], rfl, by simp, by simpa using h⟩
  | succ k ih =>
    obtain ⟨closings, hlength, hkind, htokens⟩ := ih
    have hend := tokensFrom_append_mark .closing (by simp) (source ++ List.replicate k ')') [] position
    rw [htokens] at hend
    generalize position + (source ++ List.replicate k ')').length = stop at hend
    refine ⟨closings ++ [Mark.closing.token stop], ?_, ?_, ?_⟩
    · rw [List.length_append, hlength]
      rfl
    · intro token ht
      rcases List.mem_append.mp ht with ht | ht
      · exact hkind token ht
      · rw [List.mem_singleton.mp ht]
        rfl
    · rw [List.replicate_succ', ← List.append_assoc, ← List.append_assoc]
      exact hend

/-! ## Both modes -/

/-- Tokens that close no more than they open are read alike in both modes, whatever follows: they are
refused, and not for their parentheses, or they lead to the same frames. -/
theorem readGroup_of_nest? (maxDepth : Int) (ts : List Token) (k : Nat)
    (h : Mark.nest? 0 (ts.filterMap Token.mark?) = some k) :
    (∃ fault, (∀ cause, fault ≠ .parse (.unbalanced cause)) ∧ ∀ strict rest,
      (readGroup ⟨strict, maxDepth⟩ 0 (ts ++ rest)).1 = .error fault) ∨
    ∃ top outer, outer.length = k ∧ ∀ strict rest,
      readGroup ⟨strict, maxDepth⟩ 0 (ts ++ rest) = run ⟨strict, maxDepth⟩ 0 top outer rest := by
  cases course maxDepth 0 ts with
  | through hp =>
    obtain rfl := Option.some.inj (hp.nest?_eq.symm.trans h)
    exact Or.inr (readGroup_append_of_passes maxDepth hp)
  | tooDeep hp hk hroom =>
    refine Or.inl ⟨.parse (.tooDeep maxDepth), fun cause => by simp, fun strict rest => ?_⟩
    rw [List.append_assoc, List.cons_append, readGroup_tooDeep maxDepth hp _ hk hroom]
  | @refused seen after token e fault hp hk hr =>
    refine Or.inl ⟨fault, fun cause => ?_, fun strict rest => ?_⟩
    · rcases (Condition.read_eq_error_iff _ _).mp hr with ⟨-, rfl⟩ | ⟨count, -, rfl⟩ <;> simp
    · rw [List.append_assoc, List.cons_append, readGroup_refused maxDepth hp _ hk fault hr]
  | closed hp hk =>
    -- the marks would close a group that is not open
    rw [List.filterMap_append, List.filterMap_cons_some (by rw [Token.mark?, hk]),
      Mark.nest?_append, hp.nest?_eq] at h
    cases h

/-- What strict reading comes to: a fault that permissive reading finds too, the group that it finds in
a balanced source, or a report of the first parenthesis that is stray or of those left open. -/
theorem read_strict_cases (source : String) (maxDepth : Int) :
    (∃ fault, (∀ cause, fault ≠ .parse (.unbalanced cause)) ∧
      ∀ strict, read ⟨strict, maxDepth⟩ source = .error fault) ∨
    (IsBalanced source ∧ ∃ g, ∀ strict, read ⟨strict, maxDepth⟩ source = .ok g) ∨
    (∃ p, firstStray? source = some p ∧
      read ⟨true, maxDepth⟩ source = .error (.parse (.unbalanced (.unexpectedClose p)))) ∨
    (firstStray? source = none ∧ source.toList.count ')' < source.toList.count '(' ∧
      read ⟨true, maxDepth⟩ source = .error (.parse (.unbalanced .missingClose))) := by
  cases hts : tokenize source with
  | error e =>
    obtain ⟨position, rfl⟩ := error_of_tokenize source e hts
    refine Or.inl ⟨.parse (.missingDelimiter position), fun cause => by simp, fun strict => ?_⟩
    exact read_of_tokenize_error _ source _ hts
  | ok ts =>
    simp only [read_of_tokenize _ source ts hts]
    cases hs : firstStray? source with
    | some p =>
      obtain ⟨seen, rest, rfl, -, hnest⟩ := tokens_of_firstStray? source ts p hts hs
      rcases readGroup_of_nest? maxDepth seen 0 hnest with ⟨fault, hne, hrun⟩ | ⟨top, outer, ho, hrun⟩
      · exact Or.inl ⟨fault, hne, fun strict => hrun strict _⟩
      · refine Or.inr (Or.inr (Or.inl ⟨p, rfl, ?_⟩))
        obtain rfl := List.length_eq_zero_iff.mp ho
        rw [hrun, run_closing _ _ _ _ _ _ rfl, if_pos ⟨rfl, rfl⟩]
        rfl
    | none =>
      have hnest := nest?_of_firstStray?_eq_none source hs
      rw [← marks_of_tokensFrom _ 0 ts hts] at hnest
      rcases readGroup_of_nest? maxDepth ts _ hnest with ⟨fault, hne, hrun⟩ | ⟨top, outer, ho, hrun⟩
      · refine Or.inl ⟨fault, hne, fun strict => ?_⟩
        have := hrun strict []
        rwa [List.append_nil] at this
      · have hend : ∀ strict, readGroup ⟨strict, maxDepth⟩ 0 ts =
            run ⟨strict, maxDepth⟩ 0 top outer [] := by
          intro strict
          rw [← hrun, List.append_nil]
        by_cases hopen : source.toList.count '(' ≤ source.toList.count ')'
        · refine Or.inr (Or.inl ⟨(isBalanced_iff source).mpr ⟨hs, hopen⟩, top.closeAll outer,
            fun strict => ?_⟩)
          obtain rfl := List.length_eq_zero_iff.mp (ho.trans (Nat.sub_eq_zero_of_le hopen))
          rw [hend]
          simp [run]
        · refine Or.inr (Or.inr (Or.inr ⟨rfl, Nat.lt_of_not_le hopen, ?_⟩))
          rw [hend, run, if_pos ⟨rfl, by rw [ho]; omega⟩]

/-- Strict and permissive reading part exactly on unbalanced sources, which strict reading never
accepts; a report of unbalanced parentheses gives the first stray one, or says that only closing ones
are missing. -/
theorem read_strict_by_balance (source : String) (maxDepth : Int) :
    (IsBalanced source → read ⟨true, maxDepth⟩ source = read ⟨false, maxDepth⟩ source) ∧
    (¬ IsBalanced source → ∀ g, read ⟨true, maxDepth⟩ source ≠ .ok g) ∧
    ∀ cause, read ⟨true, maxDepth⟩ source = .error (.parse (.unbalanced cause)) →
      (∃ p, firstStray? source = some p ∧ cause = .unexpectedClose p ∧
        cause.message = "Invalid syntax: unexpected \")\" at position " ++ toString p) ∨
      (firstStray? source = none ∧ source.toList.count ')' < source.toList.count '(' ∧
        cause = .missingClose ∧ cause.message = "Invalid syntax: missing closing \")\"") := by
  rcases read_strict_cases source maxDepth with
    ⟨fault, hne, hread⟩ | ⟨hbalanced, g, hread⟩ | ⟨p, hs, hread⟩ | ⟨hs, hopen, hread⟩
  · refine ⟨fun _ => by rw [hread, hread], fun _ g hg => ?_, fun cause hc => ?_⟩
    · rw [hread] at hg
      cases hg
    · rw [hread] at hc
      exact absurd (Except.error.inj hc) (hne cause)
  · refine ⟨fun _ => by rw [hread, hread], fun hnot => absurd hbalanced hnot, fun cause hc => ?_⟩
    rw [hread] at hc
    cases hc
  · refine ⟨fun hbalanced => ?_, fun _ g hg => ?_, fun cause hc => ?_⟩
    · have := ((isBalanced_iff source).mp hbalanced).1
      rw [hs] at this
      cases this
    · rw [hread] at hg
      cases hg
    · rw [hread] at hc
      cases hc
      exact Or.inl ⟨p, hs, rfl, rfl⟩
  · refine ⟨fun hbalanced => ?_, fun _ g hg => ?_, fun cause hc => ?_⟩
    · have := ((isBalanced_iff source).mp hbalanced).2
      omega
    · rw [hread] at hg
      cases hg
    · rw [hread] at hc
      cases hc
      exact Or.inr ⟨hs, hopen, rfl, rfl⟩

/-! ## Repair -/

theorem run_closings (maxDepth : Int) (closings : List Token)
    (h : ∀ token ∈ closings, token.kind = .mark .closing) (top : Frame) (outer : List Frame)
    (hlength : outer.length = closings.length) :
    run ⟨true, maxDepth⟩ 0 top outer closings = (.ok (top.closeAll outer), []) := by
  induction closings generalizing top outer with
  | nil =>
    obtain rfl := List.length_eq_zero_iff.mp hlength
    rfl
  | cons token closings ih =>
    obtain ⟨parent, outer, rfl⟩ := List.exists_cons_of_length_eq_add_one hlength
    rw [run_closing_nested _ _ _ _ _ _ (Int.le_refl 0) parent (h token List.mem_cons_self)]
    exact ih (fun t ht => h t (List.mem_cons_of_mem _ ht)) _ outer (by simpa using hlength)

/-- Permissive reading is strict reading of the repaired source, which has tokens if the source
has. -/
theorem read_permissive_eq_repaired (source : String) (ts : List Token)
    (hts : tokenize source = .ok ts) (maxDepth : Int) :
    (∃ us, tokenize (repair source) = .ok us) ∧
      read ⟨false, maxDepth⟩ source = read ⟨true, maxDepth⟩ (repair source) := by
  rw [read_of_tokenize _ source ts hts]
  unfold repair
  cases hs : firstStray? source with
  | some p =>
    obtain ⟨seen, rest, rfl, hseen, hnest⟩ := tokens_of_firstStray? source ts p hts hs
    have hus : tokenize (.ofList (source.toList.take p)) = .ok seen := by
      rw [tokenize_eq_tokensFrom, String.toList_ofList]
      exact hseen
    refine ⟨⟨seen, hus⟩, ?_⟩
    rw [read_of_tokenize _ _ seen hus]
    rcases readGroup_of_nest? maxDepth seen 0 hnest with ⟨fault, -, hrun⟩ | ⟨top, outer, ho, hrun⟩
    · have hstrict := hrun true []
      rw [List.append_nil] at hstrict
      rw [hrun, hstrict]
    · have hstrict := hrun true []
      rw [List.append_nil] at hstrict
      obtain rfl := List.length_eq_zero_iff.mp ho
      rw [hrun, hstrict]
      rfl
  | none =>
    have hnest := nest?_of_firstStray?_eq_none source hs
    rw [← marks_of_tokensFrom _ 0 ts hts] at hnest
    obtain ⟨closings, hlength, hkind, hclosed⟩ := tokensFrom_append_closings 0 source.toList ts hts
      (source.toList.count '(' - source.toList.count ')')
    have hus : tokenize (.ofList (source.toList ++ List.replicate
        (source.toList.count '(' - source.toList.count ')') ')')) = .ok (ts ++ closings) := by
      rw [tokenize_eq_tokensFrom, String.toList_ofList]
      exact hclosed
    refine ⟨⟨_, hus⟩, ?_⟩
    rw [read_of_tokenize _ _ _ hus]
    rcases readGroup_of_nest? maxDepth ts _ hnest with ⟨fault, -, hrun⟩ | ⟨top, outer, ho, hrun⟩
    · have hpermissive := hrun false []
      rw [List.append_nil] at hpermissive
      rw [hrun, hpermissive]
    · have hpermissive := hrun false []
      rw [List.append_nil] at hpermissive
      rw [hrun, hpermissive, run_closings maxDepth closings hkind top outer (ho.trans hlength.symm)]
      simp [run]

/-- Two groups that the end leaves open, and a source that goes on after a stray parenthesis. -/
theorem read_permissive_eq_repaired_twice :
    (read ⟨false, 2⟩ "a[eq]1;(b[gt]2|(c[lt]3" = read ⟨true, 2⟩ "a[eq]1;(b[gt]2|(c[lt]3))") ∧
      read ⟨false, 2⟩ "(a[eq]1|));((oops" = read ⟨true, 2⟩ "(a[eq]1|)" :=
  ⟨(read_permissive_eq_repaired "a[eq]1;(b[gt]2|(c[lt]3" _ rfl 2).2,
    (read_permissive_eq_repaired "(a[eq]1|));((oops" _ rfl 2).2⟩

end ResourceUrl.Filter
