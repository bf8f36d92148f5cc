import ResourceUrl.Proofs.Filters
import ResourceUrl.Proofs.Progress

/-!
# Filters that are put together

Sources that strict reading accepts can be put together as text.  Their tokens are those of the parts,
further on (`tokensFrom_shift`), and the grammar of tokens allows children after one another
(`Derives.append`) and a group in parentheses (`Derives.parenthesized`).  So what is read of the whole
is put together from what is read of the parts, whatever their text (`read_strict_compose`):

    read "(u)"  =  and [U],     or too deep when U has no room for a group around it
    read "u;t"  =  the children of U, then those of T
    read "(u);t"  =  U as one child, then the children of T

The operator of the whole is that of `t` if a delimiter of `t` stands outside all parentheses
(`outerDelimiters`), and that of the mark between the parts if not.
-/

namespace ResourceUrl

/-! ## Tokens further on -/

/-- The same token, further on. -/
def Token.shift (k : Nat) (token : Token) : Token :=
  { token with position := token.position + k }

theorem Run.tokens_shift (position k : Nat) (text : List Char) (mark : Option Mark) (ts : List Token)
    (h : (Run.mk position text mark).tokens = .ok ts) :
    (Run.mk (position + k) text mark).tokens = .ok (ts.map (Token.shift k)) := by
  have hcondition : (Run.mk (position + k) text mark).condition? =
      (Run.mk position text mark).condition?.map (Token.shift k) := by
    unfold condition?
    dsimp only
    split <;> rfl
  have hmark : (Run.mk (position + k) text mark).markToken? =
      (Run.mk position text mark).markToken?.map (Token.shift k) := by
    unfold markToken?
    cases mark with
    | none => rfl
    | some mark => simp [Token.shift, Run.stop]; omega
  obtain ⟨hdivided, rfl⟩ := (tokens_eq_ok_iff _ ts).mp h
  rw [tokens_eq_ok_iff, hcondition, hmark, List.map_append, Option.toList_map, Option.toList_map]
  exact ⟨by simpa using hdivided, rfl⟩

theorem tokensFrom_shift (source : List Char) (position k : Nat) (ts : List Token)
    (h : tokensFrom position source = .ok ts) :
    tokensFrom (position + k) source = .ok (ts.map (Token.shift k)) := by
  induction source using source_induction generalizing position ts with
  | last text htext =>
    rw [tokensFrom_text _ text htext] at h ⊢
    exact Run.tokens_shift position k text none ts h
  | mark text mark rest htext ih =>
    obtain ⟨us, vs, hus, hvs, rfl⟩ := (tokensFrom_run_eq_ok_iff position text htext mark rest ts).mp h
    have hrest := ih _ vs hvs
    rw [show position + text.length + 1 + k = position + k + text.length + 1 by omega] at hrest
    rw [List.map_append]
    exact (tokensFrom_run_eq_ok_iff _ text htext mark rest _).mpr
      ⟨_, _, Run.tokens_shift position k text (some mark) us hus, hrest, rfl⟩

namespace Filter

/-! ## Derivations put together -/

theorem Derives.map_shift {ns : List Node} {ls : List Logical} {ts : List Token}
    (h : Derives ns ls ts) (k : Nat) : Derives ns ls (ts.map (Token.shift k)) := by
  have hdelimiters : ∀ s ls, AreDelimiters s ls → AreDelimiters (s.map (Token.shift k)) ls := by
    intro s ls hs
    unfold AreDelimiters at hs ⊢
    rw [List.map_map, ← hs]
    rfl
  induction h with
  | last hs => exact .last (hdelimiters _ _ hs)
  | condition hs hk hr _ ih =>
    rw [List.map_append, List.map_cons]
    exact .condition (hdelimiters _ _ hs) hk hr ih
  | group hs ho _ hc _ ihInner ih =>
    rw [List.map_append, List.map_cons, List.map_append, List.map_cons]
    exact .group (hdelimiters _ _ hs) ho ihInner hc ih

theorem Derives.delimiters {ns : List Node} {ks : List Logical} {ts : List Token}
    (h : Derives ns ks ts) (s : List Token) (ls : List Logical) (hs : AreDelimiters s ls) :
    Derives ns (ls ++ ks) (s ++ ts) := by
  induction ls generalizing s with
  | nil =>
    obtain rfl : s = [] := List.map_eq_nil_iff.mp hs
    exact h
  | cons l ls ih =>
    obtain ⟨token, s, rfl, ht, hs⟩ := List.map_eq_cons_iff.mp hs
    exact (ih s hs).delimiter token l ht

theorem Derives.append {ns ms : List Node} {ls ks : List Logical} {ts us : List Token}
    (h : Derives ns ls ts) (h' : Derives ms ks us) : Derives (ns ++ ms) (ls ++ ks) (ts ++ us) := by
  induction h with
  | last hs => exact h'.delimiters _ _ hs
  | condition hs hk hr _ ih =>
    rw [List.append_assoc, List.append_assoc]
    exact .condition hs hk hr ih
  | group hs ho hi hc _ _ ih =>
    simp only [List.append_assoc, List.cons_append]
    exact .group hs ho hi hc ih

theorem Derives.parenthesized {g : Group} {ts : List Token} (h : g.Derives ts) (opening closing : Token)
    (ho : opening.kind = .mark .opening) (hc : closing.kind = .mark .closing) :
    Derives [g.toNode] [] (opening :: (ts ++ [closing])) := by
  obtain ⟨ls, hd, hl⟩ := h
  rw [Group.toNode, hl]
  exact .group areDelimiters_nil ho hd hc (.last areDelimiters_nil)

/-! ## Delimiters outside parentheses -/

/-- The operators of the delimiters that stand outside all parentheses, after so many parentheses that
are open. -/
def outerFrom : Nat → List Token → List Logical
  | _, [] => []
  | depth, token :: rest =>
    match token.kind with
    | .condition => outerFrom depth rest
    | .mark .opening => outerFrom (depth + 1) rest
    | .mark .closing => outerFrom (depth - 1) rest
    | .mark (.delimiter l) => if depth = 0 then l :: outerFrom depth rest else outerFrom depth rest

def outerDelimiters (source : String) : List Logical :=
  match tokenize source with
  | .error _ => []
  | .ok ts => outerFrom 0 ts

theorem outerFrom_append_of_areDelimiters (depth : Nat) (s rest : List Token) (ls : List Logical)
    (h : AreDelimiters s ls) :
    outerFrom depth (s ++ rest) = (if depth = 0 then ls else []) ++ outerFrom depth rest := by
  induction ls generalizing s with
  | nil =>
    obtain rfl : s = [] := List.map_eq_nil_iff.mp h
    simp
  | cons l ls ih =>
    obtain ⟨token, s, rfl, ht, hs⟩ := List.map_eq_cons_iff.mp h
    rw [List.cons_append, outerFrom]
    simp only [ht]
    rw [ih s hs]
    by_cases hd : depth = 0 <;> simp [hd]

/-- The delimiters of children are outside the parentheses of groups among them. -/
theorem outerFrom_append_of_derives {ns : List Node} {ls : List Logical} {ts : List Token}
    (h : Derives ns ls ts) (depth : Nat) (rest : List Token) :
    outerFrom depth (ts ++ rest) = (if depth = 0 then ls else []) ++ outerFrom depth rest := by
  induction h generalizing depth rest with
  | last hs => exact outerFrom_append_of_areDelimiters depth _ rest _ hs
  | condition hs hk _ _ ih =>
    rw [List.append_assoc, outerFrom_append_of_areDelimiters depth _ _ _ hs, List.cons_append, outerFrom]
    simp only [hk]
    rw [ih, ← List.append_assoc]
    by_cases hd : depth = 0 <;> simp [hd]
  | group hs ho _ hc _ ihInner ih =>
    rw [List.append_assoc, outerFrom_append_of_areDelimiters depth _ _ _ hs, List.cons_append, outerFrom]
    simp only [ho]
    rw [List.append_assoc, ihInner, if_neg (Nat.succ_ne_zero depth), List.nil_append, List.cons_append,
      outerFrom]
    simp only [hc]
    rw [Nat.add_sub_cancel, ih, ← List.append_assoc]
    by_cases hd : depth = 0 <;> simp [hd]

theorem outerDelimiters_of_derives (source : String) (ts : List Token) (hts : tokenize source = .ok ts)
    (ns : List Node) (ls : List Logical) (h : Derives ns ls ts) : outerDelimiters source = ls := by
  have houter := outerFrom_append_of_derives h 0 []
  rw [List.append_nil, if_pos rfl] at houter
  rw [outerDelimiters, hts]
  dsimp only
  rw [houter]
  exact List.append_nil ls

/-! ## Sources put together -/

theorem tokenize_parenthesized (source : String) (ts : List Token) (h : tokenize source = .ok ts) :
    tokenize ("(" ++ source ++ ")") = .ok (Mark.opening.token 0 ::
      (ts.map (Token.shift 1) ++ [Mark.closing.token (1 + source.toList.length)])) := by
  have hinner := tokensFrom_shift source.toList 0 1 ts h
  rw [Nat.zero_add] at hinner
  have hclosing := tokensFrom_append_mark .closing (by simp) source.toList [] 1
  rw [hinner] at hclosing
  have hopening := tokensFrom_mark 0 .opening (source.toList ++ [Mark.closing.toChar])
  rw [hclosing] at hopening
  rw [tokenize_eq_tokensFrom, String.toList_append, String.toList_append]
  exact hopening

theorem tokenize_delimited (source other : String) (l : Logical) (ts us : List Token)
    (hts : tokenize source = .ok ts) (hus : tokenize other = .ok us) :
    tokenize (source ++ String.singleton l.mark ++ other) =
      .ok (ts ++ (Mark.delimiter l).token source.toList.length ::
        us.map (Token.shift (source.toList.length + 1))) := by
  have hother := tokensFrom_shift other.toList 0 (source.toList.length + 1) us hus
  rw [Nat.zero_add] at hother
  have hwhole := tokensFrom_append_mark (.delimiter l) (by simp) source.toList other.toList 0
  rw [Nat.zero_add, hother, ← tokenize_eq_tokensFrom, hts] at hwhole
  rw [tokenize_eq_tokensFrom, String.toList_append, String.toList_append, String.toList_singleton,
    List.append_assoc]
  exact hwhole

/-! ## What is read of the whole -/

theorem read_strict_eq_ok_iff (maxDepth : Int) (source : String) (g : Group) :
    read ⟨true, maxDepth⟩ source = .ok g ↔
      ∃ ts, tokenize source = .ok ts ∧ g.height ≤ maxDepth.toNat ∧ g.Derives ts := by
  rw [read_eq_ok_iff]
  simp only [readGroup_strict_eq_ok_iff]

/-- In parentheses a filter is the one child of a group, if there is room for that group. -/
theorem read_strict_parenthesized (maxDepth : Int) (source : String) (g : Group)
    (h : read ⟨true, maxDepth⟩ source = .ok g) :
    read ⟨true, maxDepth⟩ ("(" ++ source ++ ")") =
      if (g.height : Int) < maxDepth then .ok ⟨.and, [g.toNode]⟩
      else .error (.parse (.tooDeep maxDepth)) := by
  obtain ⟨ts, hts, -, ls, hd, hl⟩ := (read_strict_eq_ok_iff maxDepth source g).mp h
  have htokens := tokenize_parenthesized source ts hts
  have hderives : Group.Derives ⟨.and, [g.toNode]⟩ _ :=
    ⟨[], Derives.parenthesized ⟨ls, hd.map_shift 1, hl⟩ (Mark.opening.token 0)
      (Mark.closing.token (1 + source.toList.length)) rfl rfl, rfl⟩
  have hheight : Group.height ⟨.and, [g.toNode]⟩ = g.height + 1 := by
    simp [Group.height, Group.toNode, Node.heightOf, Node.height]
  split
  · next hroom =>
    refine (read_strict_eq_ok_iff maxDepth _ _).mpr ⟨_, htokens, ?_, hderives⟩
    omega
  · next hroom =>
    rw [read_of_tokenize _ _ _ htokens]
    apply readGroup_of_derives_tooDeep ⟨true, maxDepth⟩ ⟨.and, [g.toNode]⟩ _ _ hderives
    show maxDepth.toNat < _
    omega

/-- Two filters with a delimiter between them are one group with the children of both. -/
theorem read_strict_delimited (maxDepth : Int) (source other : String) (g k : Group)
    (hg : read ⟨true, maxDepth⟩ source = .ok g) (hk : read ⟨true, maxDepth⟩ other = .ok k) (l : Logical) :
    read ⟨true, maxDepth⟩ (source ++ String.singleton l.mark ++ other) =
      .ok ⟨if outerDelimiters other = [] then l else k.logical, g.children ++ k.children⟩ := by
  obtain ⟨ts, hts, hgfit, ls, hd, -⟩ := (read_strict_eq_ok_iff maxDepth source g).mp hg
  obtain ⟨us, hus, hkfit, ks, hd', hl⟩ := (read_strict_eq_ok_iff maxDepth other k).mp hk
  have houter := outerDelimiters_of_derives other us hus _ _ hd'
  refine (read_strict_eq_ok_iff maxDepth _ _).mpr
    ⟨_, tokenize_delimited source other l ts us hts hus, ?_, ls ++ l :: ks, ?_, ?_⟩
  · rw [Group.height, Node.heightOf_append]
    exact Nat.max_le.mpr ⟨hgfit, hkfit⟩
  · exact hd.append ((hd'.map_shift _).delimiter _ l rfl)
  · -- the last delimiter is one of the other source, or else the mark between the two
    rw [houter, hl, getLastD_append]
    cases ks with
    | nil => rfl
    | cons k ks => rfl

/-- Filters that strict reading accepts are put together as text: in parentheses one becomes a child, if
there is room for it; a delimiter between two joins their children; and a filter in parentheses, a
semicolon and another filter keep the first one as it is, whatever its text. -/
theorem read_strict_compose (maxDepth : Int) (u t : String) (U T : Group)
    (hu : read ⟨true, maxDepth⟩ u = .ok U) (ht : read ⟨true, maxDepth⟩ t = .ok T) :
    (read ⟨true, maxDepth⟩ ("(" ++ u ++ ")") =
      if (U.height : Int) < maxDepth then .ok ⟨.and, [U.toNode]⟩
      else .error (.parse (.tooDeep maxDepth))) ∧
    (∀ l : Logical, read ⟨true, maxDepth⟩ (u ++ String.singleton l.mark ++ t) =
      .ok ⟨if outerDelimiters t = [] then l else T.logical, U.children ++ T.children⟩) ∧
    ((U.height : Int) < maxDepth → read ⟨true, maxDepth⟩ ("(" ++ u ++ ");" ++ t) =
      .ok ⟨if outerDelimiters t = [] then .and else T.logical, U.toNode :: T.children⟩) := by
  have hwrapped := read_strict_parenthesized maxDepth u U hu
  refine ⟨hwrapped, fun l => read_strict_delimited maxDepth u t U T hu ht l, fun hroom => ?_⟩
  rw [if_pos hroom] at hwrapped
  have hmark : ");" = ")" ++ String.singleton Logical.and.mark := rfl
  rw [hmark, ← String.append_assoc]
  exact read_strict_delimited maxDepth _ t _ T hwrapped ht .and

/-- A filter that ends in a delimiter, and one that begins with a group and ends in its own operator. -/
theorem read_strict_compose_trailing :
    let U : Group := ⟨.or, [.condition ⟨"a", "eq", .text "x"⟩,
      .group .or [.condition ⟨"b", "gt", .text "y"⟩, .condition ⟨"c", "lt", .text "z"⟩]]⟩
    let T : Group := ⟨.or, [.group .and [.condition ⟨"d", "eq", .text "x"⟩],
      .condition ⟨"e", "eq", .text "y"⟩]⟩
    read ⟨true, 2⟩ "a[eq]x;(b[gt]y|c[lt]z)|" = .ok U ∧ read ⟨true, 2⟩ "(d[eq]x;);e[eq]y|" = .ok T ∧
      read ⟨true, 2⟩ "(a[eq]x;(b[gt]y|c[lt]z)|)" = .ok ⟨.and, [U.toNode]⟩ ∧
      read ⟨true, 2⟩ "a[eq]x;(b[gt]y|c[lt]z)|;(d[eq]x;);e[eq]y|" =
        .ok ⟨.or, U.children ++ T.children⟩ ∧
      read ⟨true, 2⟩ "(a[eq]x;(b[gt]y|c[lt]z)|);(d[eq]x;);e[eq]y|" =
        .ok ⟨.or, U.toNode :: T.children⟩ := by
  intro U T
  have hu : read ⟨true, 2⟩ "a[eq]x;(b[gt]y|c[lt]z)|" = .ok U := rfl
  have ht : read ⟨true, 2⟩ "(d[eq]x;);e[eq]y|" = .ok T := rfl
  obtain ⟨hwrapped, hjoined, hguarded⟩ := read_strict_compose 2 _ _ U T hu ht
  have houter : outerDelimiters "(d[eq]x;);e[eq]y|" ≠ [] := by decide
  have hroom : (U.height : Int) < 2 := by decide
  rw [if_pos hroom] at hwrapped
  have hand := hjoined .and
  have hkept := hguarded hroom
  rw [if_neg houter] at hand hkept
  exact ⟨hu, ht, hwrapped, hand, hkept⟩

end Filter

end ResourceUrl
