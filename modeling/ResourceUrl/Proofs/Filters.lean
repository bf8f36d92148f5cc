import Mathlib.Data.List.TFAE
import Mathlib.Tactic.TFAE
import ResourceUrl.Filter.Printer
import ResourceUrl.Proofs.Grammar
import ResourceUrl.Proofs.Tokens

/-!
# Filters that are read and written

The text of a filter gives tokens that the grammar derives from it (`Group.tokenize_render`), so a filter
whose leaves are filterable is read back from its text, in either mode.  Conversely every filter
that is read at all has filterable leaves and keeps to the depth limit.  Hence the filters that can
be read, those that are well formed and those that are fixed by writing and strict reading are the
same (`Filter.read_image_tfae`).
-/

namespace ResourceUrl

open ResourceUrl.Filter

/-! ## The tokens of a text -/

/-- What may follow a condition: nothing, or any mark but an opening parenthesis. -/
def EndsRun (rest : List Char) : Prop :=
  rest = [] ∨ ∃ (mark : Mark) (after : List Char), mark ≠ .opening ∧ rest = mark.toChar :: after

theorem endsRun_mark (mark : Mark) (after : List Char) (h : mark ≠ .opening) :
    EndsRun (mark.toChar :: after) := Or.inr ⟨mark, after, h, rfl⟩

/-- The text of a node, with whatever may follow it, gives tokens that derive the node. -/
def Node.IsSpelled (node : Node) : Prop :=
  ∀ position rest tail, EndsRun rest → tokensFrom (position + node.render.length) rest = .ok tail →
    ∃ ts, tokensFrom position (node.render ++ rest) = .ok (ts ++ tail) ∧
      ∀ ns ls body, Derives ns ls body → Derives (node :: ns) ls (ts ++ body)

theorem Node.isSpelled_condition (c : Condition) (h : c.IsFilterable) :
    (Node.condition c).IsSpelled := by
  intro position rest tail hends htail
  have hfree := Condition.not_mem_render c h
  have htrim := Condition.trim_render c h
  have hne : Text.trim c.render ≠ [] := by rw [htrim]; simp [Condition.render]
  refine ⟨[⟨.condition, .ofList c.render, position⟩], ?_, fun ns ls body hd => ?_⟩
  · rw [Node.render] at htail ⊢
    rcases hends with rfl | ⟨mark, after, hm, rfl⟩
    · obtain rfl : [] = tail := Except.ok.inj htail
      rw [List.append_nil, tokensFrom_last position c.render hfree hne, htrim]
      rfl
    · rw [tokensFrom_condition position c.render hfree hne mark hm, htail, htrim]
      rfl
  · exact .condition areDelimiters_nil rfl (Condition.read_render c h) hd

theorem Node.tokens_intercalate (l : Logical) (children : List Node)
    (h : ∀ n ∈ children, n.IsSpelled) (position : Nat) (rest : List Char) (tail : List Token)
    (hends : EndsRun rest)
    (htail : tokensFrom (position + ([l.mark].intercalate (Node.renderAll children)).length) rest =
      .ok tail) :
    ∃ ts, tokensFrom position ([l.mark].intercalate (Node.renderAll children) ++ rest) =
        .ok (ts ++ tail) ∧
      ∀ ks body, Derives [] ks body →
        Derives children (List.replicate (children.length - 1) l ++ ks) (ts ++ body) := by
  induction children generalizing position with
  | nil => exact ⟨[], htail, fun ks body hb => hb⟩
  | cons node others ih =>
    have hspelled := h node List.mem_cons_self
    cases others with
    | nil =>
      simp only [Node.renderAll, List.intercalate_singleton] at htail ⊢
      obtain ⟨ts, hts, hd⟩ := hspelled position rest tail hends htail
      exact ⟨ts, hts, fun ks body hb => hd [] ks body hb⟩
    | cons next others =>
      have htext : [l.mark].intercalate (Node.renderAll (node :: next :: others)) =
          node.render ++ (Mark.delimiter l).toChar ::
            [l.mark].intercalate (Node.renderAll (next :: others)) := by
        simp only [Node.renderAll, List.intercalate_cons_cons, List.append_assoc]
        rfl
      rw [htext, List.length_append, List.length_cons, Nat.add_comm _ 1, ← Nat.add_assoc,
        ← Nat.add_assoc] at htail
      rw [htext, List.append_assoc]
      obtain ⟨ts, hts, hd⟩ := ih (fun n hn => h n (List.mem_cons_of_mem _ hn))
        (position + node.render.length + 1) htail
      have hmark := tokensFrom_mark (position + node.render.length) (.delimiter l)
        ([l.mark].intercalate (Node.renderAll (next :: others)) ++ rest)
      rw [hts] at hmark
      obtain ⟨us, hus, hnode⟩ := hspelled position _ _ (endsRun_mark (.delimiter l) _ (by simp)) hmark
      refine ⟨us ++ (Mark.delimiter l).token (position + node.render.length) :: ts, ?_,
        fun ks body hb => ?_⟩
      · rw [List.append_assoc]
        exact hus
      · rw [List.append_assoc]
        exact hnode _ _ _ ((hd ks body hb).delimiter _ l rfl)

theorem Node.length_renderAll (nodes : List Node) : (Node.renderAll nodes).length = nodes.length := by
  induction nodes with
  | nil => rfl
  | cons node nodes ih => rw [Node.renderAll, List.length_cons, List.length_cons, ih]

/-- The text of a group without its parentheses gives tokens that derive the group: a trailing mark
keeps the operator of a group that joins fewer than two children by `or`. -/
theorem Node.tokens_join (l : Logical) (children : List Node) (h : ∀ n ∈ children, n.IsSpelled)
    (position : Nat) (rest : List Char) (tail : List Token) (hends : EndsRun rest)
    (htail : tokensFrom (position + (l.join (Node.renderAll children)).length) rest = .ok tail) :
    ∃ ts, tokensFrom position (l.join (Node.renderAll children) ++ rest) = .ok (ts ++ tail) ∧
      Group.Derives ⟨l, children⟩ ts := by
  unfold Logical.join at htail ⊢
  rw [Node.length_renderAll] at htail ⊢
  by_cases hmark : l = .or ∧ children.length < 2
  · -- the mark at the end is a token of its own, and the last delimiter of the group
    rw [if_pos hmark, List.length_append, ← Nat.add_assoc] at htail
    rw [if_pos hmark, List.append_assoc]
    have hlast := tokensFrom_mark
      (position + ([l.mark].intercalate (Node.renderAll children)).length) (.delimiter l) rest
    rw [List.length_singleton] at htail
    rw [htail] at hlast
    obtain ⟨ts, hts, hd⟩ := Node.tokens_intercalate l children h position _ _
      (endsRun_mark (.delimiter l) rest (by simp)) hlast
    have hall := hd [l] [(Mark.delimiter l).token
      (position + ([l.mark].intercalate (Node.renderAll children)).length)] (.last rfl)
    refine ⟨ts ++ [_], ?_, _, hall, ?_⟩
    · rw [List.append_assoc]
      exact hts
    · rw [getLastD_append]
      rfl
  · rw [if_neg hmark, List.append_nil] at htail ⊢
    obtain ⟨ts, hts, hd⟩ := Node.tokens_intercalate l children h position rest tail hends htail
    have hall := hd [] [] (.last areDelimiters_nil)
    rw [List.append_nil, List.append_nil] at hall
    refine ⟨ts, hts, _, hall, ?_⟩
    cases l with
    | and =>
      rw [List.getLastD_eq_getLast?, List.getLast?_replicate]
      split <;> rfl
    | or =>
      have hmany : children.length - 1 ≠ 0 := by
        have : ¬ children.length < 2 := fun hfew => hmark ⟨rfl, hfew⟩
        omega
      simp [List.getLastD_eq_getLast?, List.getLast?_replicate, hmany]

/-! ## The whole tree -/

theorem Node.isSpelled_group (l : Logical) (children : List Node)
    (h : ∀ n ∈ children, n.IsSpelled) : (Node.group l children).IsSpelled := by
  intro position rest tail hends htail
  have htext : (Node.group l children).render =
      Mark.opening.toChar :: (l.join (Node.renderAll children) ++ [Mark.closing.toChar]) := by
    rw [Node.render]
    rfl
  have hclosing := tokensFrom_mark (position + 1 + (l.join (Node.renderAll children)).length)
    .closing rest
  have hstop : position + (Node.group l children).render.length =
      position + 1 + (l.join (Node.renderAll children)).length + 1 := by
    rw [htext, List.length_cons, List.length_append, List.length_singleton]
    omega
  rw [hstop] at htail
  rw [htail] at hclosing
  obtain ⟨ts, hts, ls, hd, hl⟩ := Node.tokens_join l children h (position + 1) _ _
    (endsRun_mark .closing rest (by simp)) hclosing
  have hopening := tokensFrom_mark position .opening
    (l.join (Node.renderAll children) ++ Mark.closing.toChar :: rest)
  rw [hts] at hopening
  refine ⟨Mark.opening.token position ::
    (ts ++ [Mark.closing.token (position + 1 + (l.join (Node.renderAll children)).length)]), ?_,
    fun ns ks body hb => ?_⟩
  · rw [htext]
    simpa only [List.cons_append, List.append_assoc, List.nil_append, Except.map] using hopening
  · have hgroup : Derives (.group (ls.getLastD .and) children :: ns) ([] ++ ks)
        ([] ++ Mark.opening.token position :: (ts ++ Mark.closing.token
          (position + 1 + (l.join (Node.renderAll children)).length) :: body)) :=
      .group areDelimiters_nil rfl hd rfl hb
    rw [List.cons_append, List.append_assoc]
    rw [← hl] at hgroup
    exact hgroup

mutual

theorem Node.isSpelled (node : Node) (h : ∀ c ∈ node.leaves, c.IsFilterable) : node.IsSpelled := by
  match node with
  | .condition c =>
    exact Node.isSpelled_condition c (h c (by rw [Node.leaves]; exact List.mem_singleton_self c))
  | .group l children =>
    rw [Node.leaves] at h
    exact Node.isSpelled_group l children (Node.isSpelled_of_mem children h)

theorem Node.isSpelled_of_mem (nodes : List Node) (h : ∀ c ∈ Node.leavesOf nodes, c.IsFilterable) :
    ∀ n ∈ nodes, n.IsSpelled := by
  match nodes with
  | [] => exact fun n hn => absurd hn List.not_mem_nil
  | node :: rest =>
    rw [Node.leavesOf] at h
    intro n hn
    rcases List.mem_cons.mp hn with heq | hn
    · rw [heq]
      exact Node.isSpelled node fun c hc => h c (List.mem_append_left _ hc)
    · exact Node.isSpelled_of_mem rest (fun c hc => h c (List.mem_append_right _ hc)) n hn

end

theorem Group.tokenize_render (g : Group) (h : ∀ c ∈ g.leaves, c.IsFilterable) :
    ∃ ts, tokenize g.render = .ok ts ∧ g.Derives ts := by
  obtain ⟨ts, hts, hd⟩ := Node.tokens_join g.logical g.children (Node.isSpelled_of_mem g.children h)
    0 [] [] (Or.inl rfl) rfl
  rw [List.append_nil, List.append_nil] at hts
  refine ⟨ts, ?_, hd⟩
  rw [tokenize_eq_tokensFrom, Group.render, String.toList_ofList]
  exact hts

theorem Group.isWritable_of_isFilterable (g : Group) (h : ∀ c ∈ g.leaves, c.IsFilterable) :
    g.isWritable = true := by
  refine List.all_eq_true.mpr fun c hc => ?_
  have hread := ((Value.isFilterable_iff c.value).mp (h c hc).value).1
  exact Value.isWritable_of_isReadable c.value hread

namespace Filter

theorem read_eq_ok_iff (mode : Mode) (source : String) (g : Group) :
    read mode source = .ok g ↔
      ∃ ts, tokenize source = .ok ts ∧ (readGroup mode 0 ts).1 = .ok g := by
  unfold read readAll
  cases tokenize source with
  | error e => simp [Except.map]
  | ok ts => cases hg : (readGroup mode 0 ts).1 <;> simp [Except.map, hg]

/-- A group whose leaves can stand in a filter is read back from its text in either mode. -/
theorem read_render (mode : Mode) (g : Group) (hfit : g.height ≤ mode.maxDepth.toNat)
    (h : ∀ c ∈ g.leaves, c.IsFilterable) : read mode g.render = .ok g := by
  obtain ⟨ts, hts, hd⟩ := Group.tokenize_render g h
  refine (read_eq_ok_iff mode g.render g).mpr ⟨ts, hts, ?_⟩
  rw [readGroup_of_derives mode g ts hfit hd]

/-- Whatever is read keeps to the depth limit, and its leaves can stand in a filter. -/
theorem isFilterable_of_read (mode : Mode) (source : String) (g : Group)
    (h : read mode source = .ok g) :
    g.height ≤ mode.maxDepth.toNat ∧ ∀ c ∈ g.leaves, c.IsFilterable := by
  obtain ⟨ts, hts, hg⟩ := (read_eq_ok_iff mode source g).mp h
  have hrun : run mode 0 {} [] ts = (.ok g, (readGroup mode 0 ts).2) := by
    rw [← hg]
    rfl
  refine ⟨height_le_of_run mode ts g _ hrun, leaves_of_run mode 0 _ ts ?_ g _ hrun⟩
  intro token htoken hk c hc
  obtain ⟨hmark, hblank⟩ := condition_of_mem_tokenize source ts hts token htoken hk
  exact Condition.isFilterable_of_read token.text c hc hmark hblank

/-! ## What can be read -/

/-- The groups that some source is read as, those that are well formed within the limit, and those
that strict reading finds in their own text are the same. -/
theorem read_image_tfae (g : Group) (m : Nat) :
    [∃ source, read { strict := false, maxDepth := m } source = .ok g,
      g.height ≤ m ∧ ∀ c ∈ g.leaves, c.IsFilterable,
      ∃ text, g.write = .ok text ∧ read { strict := true, maxDepth := m } text = .ok g].TFAE := by
  tfae_have 1 → 2 := by
    rintro ⟨source, h⟩
    exact isFilterable_of_read _ source g h
  tfae_have 2 → 3 := by
    rintro ⟨hfit, h⟩
    refine ⟨g.render, ?_, read_render { strict := true, maxDepth := m } g hfit h⟩
    rw [Group.write, if_pos (Group.isWritable_of_isFilterable g h)]
  tfae_have 3 → 1 := by
    rintro ⟨text, -, h⟩
    obtain ⟨hfit, hleaves⟩ := isFilterable_of_read _ text g h
    exact ⟨g.render, read_render { strict := false, maxDepth := m } g hfit hleaves⟩
  tfae_finish

end Filter

end ResourceUrl
