import ResourceUrl.Percent
import ResourceUrl.Proofs.Text
import ResourceUrl.Reference.Resolve

/-!
# The target of a relative reference

A reference that is written as segments between slashes, possibly with a query after them, is
resolved against `http://localhost` and split again.  The query stays as it is, and the segments of
the target are those that walking through the written ones leaves:

    resolve base text = .ok target  ∧  split [] target = .ok r  ∧  r.query = query  ∧
      the segments of r.path that are not empty are (segments.foldl walk []).reverse
                                                                  (exists_target)

Without dot segments these are all of them (`foldl_walk_eq_reverse`), and with one they are fewer
(`length_foldl_walk_lt`).
-/

namespace ResourceUrl.Reference

/-! ## Walking -/

/-- A segment that is not kept as it is. -/
def IsDots (segment : List Char) : Prop := segment = ['.'] ∨ segment = ['.', '.']

theorem walk_of_not_isDots (path : List (List Char)) (segment : List Char) (h : ¬ IsDots segment) :
    walk path segment = segment :: path := by
  unfold walk
  rw [if_neg fun hs => h (Or.inr hs), if_neg fun hs => h (Or.inl hs)]

theorem foldl_walk_eq_reverse (segments path : List (List Char))
    (h : ∀ segment ∈ segments, ¬ IsDots segment) :
    segments.foldl walk path = segments.reverse ++ path := by
  induction segments generalizing path with
  | nil => rfl
  | cons segment rest ih =>
    rw [List.foldl_cons, walk_of_not_isDots path segment (h segment List.mem_cons_self),
      ih _ fun s hs => h s (List.mem_cons_of_mem _ hs), List.reverse_cons, List.append_assoc]
    rfl

theorem length_walk_le (path : List (List Char)) (segment : List Char) :
    (walk path segment).length ≤ path.length + 1 := by
  unfold walk
  split
  · rw [List.length_drop]
    omega
  · split
    · omega
    · exact Nat.le_refl _

theorem length_foldl_walk_le (segments path : List (List Char)) :
    (segments.foldl walk path).length ≤ path.length + segments.length := by
  induction segments generalizing path with
  | nil => exact Nat.le_refl _
  | cons segment rest ih =>
    have hrest := ih (walk path segment)
    have hwalk := length_walk_le path segment
    rw [List.foldl_cons, List.length_cons]
    omega

theorem length_foldl_walk_lt (segments path : List (List Char))
    (h : ∃ segment ∈ segments, IsDots segment) :
    (segments.foldl walk path).length < path.length + segments.length := by
  induction segments generalizing path with
  | nil =>
    obtain ⟨segment, hmem, -⟩ := h
    cases hmem
  | cons segment rest ih =>
    rw [List.foldl_cons, List.length_cons]
    by_cases hdots : IsDots segment
    · have hwalk : (walk path segment).length ≤ path.length := by
        unfold walk
        rcases hdots with rfl | rfl
        · simp
        · simp
      have hrest := length_foldl_walk_le rest (walk path segment)
      omega
    · obtain ⟨s, hmem, hs⟩ := h
      have hrest := ih (walk path segment) ⟨s, by
        rcases List.mem_cons.mp hmem with rfl | hmem
        · exact absurd hs hdots
        · exact hmem, hs⟩
      have hwalk := length_walk_le path segment
      omega

theorem mem_foldl_walk (segments path : List (List Char)) (segment : List Char)
    (h : segment ∈ segments.foldl walk path) : segment ∈ segments ∨ segment ∈ path := by
  induction segments generalizing path with
  | nil => exact Or.inr h
  | cons s rest ih =>
    rcases ih _ h with h | h
    · exact Or.inl (List.mem_cons_of_mem _ h)
    · unfold walk at h
      split at h
      · exact Or.inr (List.mem_of_mem_drop h)
      · split at h
        · exact Or.inr h
        · rcases List.mem_cons.mp h with rfl | h
          · exact Or.inl List.mem_cons_self
          · exact Or.inr h

theorem mem_of_mem_walked (segments : List (List Char)) (segment : List Char)
    (h : segment ∈ (segments.foldl walk []).reverse) : segment ∈ segments := by
  rcases mem_foldl_walk segments [] segment (List.mem_reverse.mp h) with h | h
  · exact h
  · cases h

/-! ## Segments that are not empty -/

def filled (segments : List (List Char)) : List (List Char) :=
  segments.filter (· ≠ [])

/-- The root, which stands before the first segment, is lost with the first step up from it. -/
theorem walk_append_root (path root : List (List Char)) (segment : List Char)
    (hroot : root = [] ∨ root = [[]]) :
    ∃ root', (root' = [] ∨ root' = [[]]) ∧ walk (path ++ root) segment = walk path segment ++ root' := by
  unfold walk
  split
  · cases path with
    | nil => exact ⟨[], Or.inl rfl, by rcases hroot with rfl | rfl <;> rfl⟩
    | cons last others => exact ⟨root, hroot, rfl⟩
  · split
    · exact ⟨root, hroot, rfl⟩
    · exact ⟨root, hroot, rfl⟩

/-- Walking from the root or from nothing leads to the same segments. -/
theorem filled_foldl_walk (segments path root : List (List Char))
    (hroot : root = [] ∨ root = [[]]) (hpath : ∀ s ∈ path, s ≠ []) (h : ∀ s ∈ segments, s ≠ []) :
    filled (segments.foldl walk (path ++ root)) = segments.foldl walk path := by
  induction segments generalizing path root with
  | nil =>
    unfold filled
    rw [List.foldl_nil, List.filter_append, List.filter_eq_self.mpr (by simpa using hpath)]
    rcases hroot with rfl | rfl <;> simp
  | cons segment rest ih =>
    obtain ⟨root', hroot', hwalk⟩ := walk_append_root path root segment hroot
    rw [List.foldl_cons, hwalk, List.foldl_cons]
    refine ih _ root' hroot' (fun s hs => ?_) fun s hs => h s (List.mem_cons_of_mem _ hs)
    rcases mem_foldl_walk [segment] path s hs with hs | hs
    · exact h s (by rw [List.mem_singleton.mp hs]; exact List.mem_cons_self)
    · exact hpath s hs

theorem mem_intercalate (mark : Char) (pieces : List (List Char)) (c : Char)
    (h : c ∈ [mark].intercalate pieces) : c = mark ∨ ∃ piece ∈ pieces, c ∈ piece := by
  induction pieces with
  | nil => cases h
  | cons piece rest ih =>
    cases rest with
    | nil =>
      rw [List.intercalate_singleton] at h
      exact Or.inr ⟨piece, List.mem_cons_self, h⟩
    | cons next rest =>
      rw [List.intercalate_cons_cons, List.append_assoc] at h
      rcases List.mem_append.mp h with h | h
      · exact Or.inr ⟨piece, List.mem_cons_self, h⟩
      · rcases List.mem_cons.mp h with rfl | h
        · exact Or.inl rfl
        · rcases ih h with hc | ⟨other, hmem, hc⟩
          · exact Or.inl hc
          · exact Or.inr ⟨other, List.mem_cons_of_mem _ hmem, hc⟩

/-! ## Paths -/

/-- A segment as it is written: not empty, and without a mark. -/
def IsSegment (segment : List Char) : Prop :=
  segment ≠ [] ∧ ∀ c ∈ segment, Percent.isUnreserved c = true ∨ c = '%'

theorem not_mem_of_isSegment (segment : List Char) (h : IsSegment segment) (c : Char)
    (hc : Percent.isUnreserved c = false) (hp : c ≠ '%') : c ∉ segment := by
  intro hm
  rcases h.2 c hm with hu | hu
  · rw [hc] at hu
    cases hu
  · exact hp hu

/-- The path is made up of the given segments, and of empty ones. -/
def HasSegments (path : List Char) (segments : List (List Char)) : Prop :=
  ∃ pieces, path = ['/'].intercalate pieces ∧ filled pieces = segments

theorem eq_nil_or_mem_filled (pieces : List (List Char)) (piece : List Char) (h : piece ∈ pieces) :
    piece = [] ∨ piece ∈ filled pieces := by
  by_cases hne : piece = []
  · exact Or.inl hne
  · exact Or.inr (List.mem_filter.mpr ⟨h, by simpa using hne⟩)

theorem HasSegments.filled_splitOn (path : List Char) (segments : List (List Char))
    (h : HasSegments path segments) (hslash : ∀ s ∈ segments, '/' ∉ s) :
    filled (path.splitOn '/') = segments := by
  obtain ⟨pieces, rfl, rfl⟩ := h
  by_cases hne : pieces = []
  · rw [hne]
    rfl
  · rw [List.splitOn_intercalate '/' (fun piece hp => ?_) hne]
    rcases eq_nil_or_mem_filled pieces piece hp with rfl | hp
    · exact List.not_mem_nil
    · exact hslash piece hp

theorem HasSegments.mem_path (path : List Char) (segments : List (List Char))
    (h : HasSegments path segments) (c : Char) (hc : c ∈ path) :
    c = '/' ∨ ∃ s ∈ segments, c ∈ s := by
  obtain ⟨pieces, rfl, rfl⟩ := h
  rcases mem_intercalate '/' pieces c hc with hc | ⟨piece, hp, hc⟩
  · exact Or.inl hc
  · rcases eq_nil_or_mem_filled pieces piece hp with rfl | hp
    · cases hc
    · exact Or.inr ⟨piece, hp, hc⟩

theorem HasSegments.slash (path : List Char) (segments : List (List Char))
    (h : HasSegments path segments) : HasSegments ('/' :: path) segments := by
  obtain ⟨pieces, rfl, rfl⟩ := h
  cases pieces with
  | nil => exact ⟨[[], []], rfl, rfl⟩
  | cons piece rest =>
    refine ⟨[] :: piece :: rest, ?_, rfl⟩
    rw [List.intercalate_cons_cons]
    rfl

theorem hasSegments_intercalate (segments : List (List Char)) (h : ∀ s ∈ segments, IsSegment s) :
    HasSegments (['/'].intercalate segments) segments :=
  ⟨segments, rfl, List.filter_eq_self.mpr fun s hs => by simpa using (h s hs).1⟩

theorem HasSegments.not_mem_path (path : List Char) (segments : List (List Char))
    (h : HasSegments path segments) (hsegments : ∀ s ∈ segments, IsSegment s) (c : Char)
    (hc : Percent.isUnreserved c = false) (hsign : c ≠ '%') (hslash : c ≠ '/') : c ∉ path := by
  intro hm
  rcases h.mem_path path segments c hm with rfl | ⟨s, hs, hm⟩
  · exact hslash rfl
  · exact not_mem_of_isSegment s (hsegments s hs) c hc hsign hm

theorem filled_removeDots (segments : List (List Char)) (h : ∀ s ∈ segments, s ≠ []) :
    filled (removeDots ([] :: segments)) = (segments.foldl walk []).reverse := by
  have hwalk := filled_foldl_walk segments [] [[]] (Or.inr rfl) (by simp) h
  have hroot : walk [] [] = [[]] := by decide
  rw [List.nil_append] at hwalk
  unfold removeDots
  simp only
  rw [List.foldl_cons, hroot]
  split
  · rw [← hwalk, filled, List.filter_append, List.filter_reverse]
    exact List.append_nil _
  · rw [← hwalk, filled, List.filter_reverse]
    rfl

theorem head?_intercalate_ne (segments : List (List Char)) (h : ∀ s ∈ segments, IsSegment s) :
    (['/'].intercalate segments).head? ≠ some '/' := by
  intro hhead
  obtain ⟨text, htext⟩ := List.head?_eq_some_iff.mp hhead
  have hslash : ∀ s ∈ segments, '/' ∉ s := fun s hs =>
    not_mem_of_isSegment s (h s hs) '/' rfl (by decide)
  by_cases hne : segments = []
  · rw [hne] at htext
    cases htext
  · have hsplit := List.splitOn_intercalate '/' hslash hne
    rw [htext, ← List.nil_append ('/' :: text),
      List.splitOn_append_cons_self_of_not_mem List.not_mem_nil] at hsplit
    exact (h [] (by rw [← hsplit]; exact List.mem_cons_self)).1 rfl

/-- A path that is resolved against the root has the segments that walking leaves. -/
theorem hasSegments_resolvePath (segments : List (List Char)) (hne : segments ≠ [])
    (h : ∀ s ∈ segments, IsSegment s) :
    HasSegments (resolvePath [] (['/'].intercalate segments)) (segments.foldl walk []).reverse := by
  have hslash : ∀ s ∈ segments, '/' ∉ s := fun s hs =>
    not_mem_of_isSegment s (h s hs) '/' rfl (by decide)
  have hsplit : (['/'].intercalate segments).splitOn '/' = segments :=
    List.splitOn_intercalate '/' hslash hne
  have hhead := head?_intercalate_ne segments h
  have hjoined : dropInnerEmpty (directory [] ++ segments) = [] :: segments := by
    have hdirectory : directory [] = [[]] := rfl
    have hfilter : segments.dropLast.filter (· ≠ []) = segments.dropLast :=
      List.filter_eq_self.mpr fun s hs => by simpa using (h s (List.dropLast_subset _ hs)).1
    rw [hdirectory, List.singleton_append, dropInnerEmpty, hfilter, List.dropLast_eq_take,
      List.take_append_drop]
  have hfilled := filled_removeDots segments fun s hs => (h s hs).1
  unfold resolvePath
  simp only [hsplit, if_neg hhead, hjoined]
  split
  · next hempty =>
    refine ⟨[[], []], rfl, ?_⟩
    exact HasSegments.filled_splitOn [] _ ⟨_, hempty.symm, hfilled⟩ fun s hs =>
      hslash s (mem_of_mem_walked segments s hs)
  · exact ⟨_, rfl, hfilled⟩

/-! ## Splitting -/

/-- No character of the text is dropped, and none begins a fragment. -/
def IsKept (text : List Char) : Prop := ∀ c ∈ text, 0x20 < c.toNat ∧ c ≠ '#'

theorem clean_eq_self (text : List Char) (h : IsKept text) : clean text = text := by
  have hdrop : text.dropWhile (·.toNat ≤ 0x20) = text := by
    cases text with
    | nil => rfl
    | cons c rest =>
      have hc := (h c List.mem_cons_self).1
      rw [List.dropWhile_cons_of_neg]
      simpa using hc
  unfold clean
  rw [hdrop, List.filter_eq_self]
  intro c hc
  have hlow : ∀ d : Char, d.toNat ≤ 0x20 → (c != d) = true := by
    rintro d hd
    rw [bne_iff_ne]
    rintro rfl
    exact absurd (h c hc).1 (by omega)
  rw [hlow '\t' (by decide), hlow '\r' (by decide), hlow '\n' (by decide)]
  rfl

theorem isKept_of_unreserved (c : Char) (h : Percent.isUnreserved c = true ∨ c = '%') :
    0x20 < c.toNat ∧ c ≠ '#' := by
  rcases h with h | rfl
  · refine ⟨?_, fun hc => by rw [hc] at h; cases h⟩
    simp only [Percent.isUnreserved, Bool.or_eq_true, beq_iff_eq] at h
    rcases h with (((h | rfl) | rfl) | rfl) | rfl
    · have := Text.toNat_of_isAlphanum c h
      omega
    all_goals decide
  · decide

theorem isKept_of_hasSegments (path : List Char) (segments : List (List Char))
    (h : HasSegments path segments) (hsegments : ∀ s ∈ segments, IsSegment s) : IsKept path := by
  intro c hc
  rcases h.mem_path path segments c hc with rfl | ⟨s, hs, hm⟩
  · decide
  · exact isKept_of_unreserved c ((hsegments s hs).2 c hm)

theorem isKept_written (path query : List Char) (hpath : IsKept path) (hquery : IsKept query) :
    IsKept (path ++ marked '?' query) := by
  intro c hc
  rcases List.mem_append.mp hc with hc | hc
  · exact hpath c hc
  · unfold marked at hc
    split at hc
    · cases hc
    · rcases List.mem_cons.mp hc with rfl | hc
      · decide
      · exact hquery c hc

theorem cut_fragment (text : List Char) (h : IsKept text) : Text.cut '#' text = (text, []) :=
  Text.cut_eq_of_not_mem fun hm => (h '#' hm).2 rfl

theorem cut_marked (path query : List Char) (h : '?' ∉ path) :
    Text.cut '?' (path ++ marked '?' query) = (path, query) := by
  unfold marked
  split
  · next hq => rw [List.append_nil, Text.cut_eq_of_not_mem h, hq]
  · exact Text.cut_append h query

/-- A colon in the query makes no scheme of what stands before it. -/
theorem takeScheme_written (fallback path query : List Char) (h : ':' ∉ path) :
    takeScheme fallback (path ++ marked '?' query) = (fallback, path ++ marked '?' query) := by
  unfold takeScheme
  by_cases hq : query = []
  · have habsent : (path ++ marked '?' query).contains ':' = false := by
      rw [marked, if_pos hq, List.append_nil]
      simpa using h
    simp only [habsent, Bool.false_and]
    rfl
  · have hmark : '?' ∈ (Text.cut ':' (path ++ marked '?' query)).1 := by
      have hpath : ∀ c ∈ path, (c != ':') = true := by
        intro c hc
        rw [bne_iff_ne]
        rintro rfl
        exact h hc
      rw [marked, if_neg hq, Text.cut, List.takeWhile_append_of_pos hpath]
      exact List.mem_append_right _ List.mem_cons_self
    have hall : (Text.cut ':' (path ++ marked '?' query)).1.all isSchemeChar = false :=
      List.all_eq_false.mpr ⟨'?', hmark, by decide⟩
    simp only [hall, Bool.and_false, Bool.false_and]
    rfl

theorem takeAuthority_of_head? (text : List Char) (h : text.head? ≠ some '/') :
    takeAuthority text = ([], text) := by
  unfold takeAuthority
  split
  · exact absurd rfl h
  · rfl

theorem head?_written (path query : List Char) (h : path.head? ≠ some '/') :
    (path ++ marked '?' query).head? ≠ some '/' := by
  unfold marked
  cases path with
  | nil => split <;> simp
  | cons c rest => simpa using h

theorem split_written (fallback path query : List Char) (hkept : IsKept (path ++ marked '?' query))
    (hcolon : ':' ∉ path) (hquery : '?' ∉ path) (hhead : path.head? ≠ some '/') :
    split fallback (path ++ marked '?' query) = .ok ⟨fallback, [], path, [], query, []⟩ := by
  unfold split
  rw [clean_eq_self _ hkept, takeScheme_written fallback path query hcolon]
  dsimp only
  rw [takeAuthority_of_head? _ (head?_written path query hhead)]
  dsimp only
  rw [cut_fragment _ hkept]
  dsimp only
  rw [cut_marked path query hquery]
  rfl

theorem divideParams_eq_self (r : Reference) (hparams : r.params = []) (h : ';' ∉ r.path) :
    r.divideParams = r := by
  have hpath : (Text.cutLast '/' r.path).1 ++ (Text.cutLast '/' r.path).2 = r.path := by
    unfold Text.cutLast
    rw [← List.reverse_append, List.takeWhile_append_dropWhile, List.reverse_reverse]
  have hlast : ';' ∉ (Text.cutLast '/' r.path).2 := by
    intro hm
    exact h (by rw [← hpath]; exact List.mem_append_right _ hm)
  unfold divideParams
  split
  · simp only [Text.cut_eq_of_not_mem hlast, hpath]
    rw [← hparams]
  · rfl

theorem parse_written (fallback path query : List Char) (hkept : IsKept (path ++ marked '?' query))
    (hcolon : ':' ∉ path) (hquery : '?' ∉ path) (hparams : ';' ∉ path)
    (hhead : path.head? ≠ some '/') :
    parse fallback (path ++ marked '?' query) = .ok ⟨fallback, [], path, [], query, []⟩ := by
  rw [parse, split_written fallback path query hkept hcolon hquery hhead, Except.map,
    divideParams_eq_self _ rfl hparams]

theorem isKept_base : IsKept "http://localhost".toList := by
  have hall : "http://localhost".toList.all (fun c => 0x20 < c.toNat && c != '#') = true := by decide
  intro c hc
  simpa using List.all_eq_true.mp hall c hc

/-- An authority ends where a path or a query begins. -/
theorem authority_stops (path query : List Char) (h : path = [] ∨ path.head? = some '/') :
    (path ++ marked '?' query).takeWhile isAuthorityChar = [] ∧
      (path ++ marked '?' query).dropWhile isAuthorityChar = path ++ marked '?' query := by
  have hslash : isAuthorityChar '/' = false := rfl
  have hmark : isAuthorityChar '?' = false := rfl
  rcases h with rfl | h
  · unfold marked
    split <;> simp [hmark]
  · obtain ⟨rest, rfl⟩ := List.head?_eq_some_iff.mp h
    simp [hslash]

theorem split_target (path query : List Char) (hkept : IsKept (path ++ marked '?' query))
    (hquery : '?' ∉ path) (hhead : path = [] ∨ path.head? = some '/') :
    split [] ("http://localhost".toList ++ (path ++ marked '?' query)) =
      .ok ⟨"http".toList, "localhost".toList, path, [], query, []⟩ := by
  have hclean : clean ("http://localhost".toList ++ (path ++ marked '?' query)) =
      "http".toList ++ ':' :: ("//localhost".toList ++ (path ++ marked '?' query)) := by
    apply clean_eq_self
    intro c hc
    rcases List.mem_append.mp hc with hc | hc
    · exact isKept_base c hc
    · exact hkept c hc
  have hscheme : takeScheme [] ("http".toList ++ ':' :: ("//localhost".toList ++
      (path ++ marked '?' query))) =
      ("http".toList, "//localhost".toList ++ (path ++ marked '?' query)) := by
    unfold takeScheme
    rw [Text.cut_append (by decide)]
    rfl
  have hauthority : takeAuthority ("//localhost".toList ++ (path ++ marked '?' query)) =
      ("localhost".toList, path ++ marked '?' query) := by
    obtain ⟨htake, hdrop⟩ := authority_stops path query hhead
    have hname : ∀ c ∈ "localhost".toList, isAuthorityChar c = true := List.all_eq_true.mp (by decide)
    show (List.takeWhile isAuthorityChar ("localhost".toList ++ (path ++ marked '?' query)),
      List.dropWhile isAuthorityChar ("localhost".toList ++ (path ++ marked '?' query))) = _
    rw [List.takeWhile_append_of_pos hname, List.dropWhile_append_of_pos hname, htake, hdrop,
      List.append_nil]
  unfold split
  rw [hclean, hscheme]
  dsimp only
  rw [hauthority]
  dsimp only
  rw [cut_fragment _ hkept]
  dsimp only
  rw [cut_marked path query hquery]
  rfl

/-! ## Resolving -/

theorem parse_base :
    parse [] "http://localhost".toList =
      .ok ⟨"http".toList, "localhost".toList, [], [], [], []⟩ := by
  rfl

/-- The path after an authority begins with a slash. -/
def slashed (path : List Char) : List Char :=
  if path = [] ∨ path.head? = some '/' then path else '/' :: path

theorem slashed_head? (path : List Char) : slashed path = [] ∨ (slashed path).head? = some '/' := by
  unfold slashed
  split
  · assumption
  · exact Or.inr rfl

theorem hasSegments_slashed (path : List Char) (segments : List (List Char))
    (h : HasSegments path segments) : HasSegments (slashed path) segments := by
  unfold slashed
  split
  · exact h
  · exact HasSegments.slash path segments h

/-- A reference without an authority, relative to a base that has no path. -/
theorem relativeTo_root (scheme authority path query : List Char)
    (h : isSchemeOf authoritySchemes scheme = true) :
    relativeTo ⟨scheme, authority, [], [], [], []⟩ ⟨scheme, [], path, [], query, []⟩ =
      ⟨scheme, authority, if path = [] then [] else resolvePath [] path, [], query, []⟩ := by
  unfold relativeTo
  simp only [h]
  by_cases hpath : path = []
  · by_cases hquery : query = [] <;> simp [hpath, hquery]
  · simp [hpath]

theorem unsplit_target (scheme authority path query : List Char) (hs : scheme ≠ [])
    (ha : authority ≠ []) :
    unsplit ⟨scheme, authority, path, [], query, []⟩ =
      scheme ++ ':' :: '/' :: '/' :: (authority ++ (slashed path ++ marked '?' query)) := by
  have hparams : path ++ marked ';' [] = path := List.append_nil path
  have hfragment : marked '#' [] = [] := rfl
  unfold unsplit unsplitPath
  simp only [hparams, hfragment]
  rw [if_neg hs, if_pos (Or.inl ha), List.append_nil]
  simp [slashed]

/-- A path that is written without marks is resolved against the root, and the query is kept. -/
theorem resolve_written (path query : List Char) (hkept : IsKept (path ++ marked '?' query))
    (hcolon : ':' ∉ path) (hquery : '?' ∉ path) (hparams : ';' ∉ path)
    (hhead : path.head? ≠ some '/') :
    resolve "http://localhost".toList (path ++ marked '?' query) =
      .ok ("http://localhost".toList ++
        (slashed (if path = [] then [] else resolvePath [] path) ++ marked '?' query)) := by
  unfold resolve
  rw [if_neg (by decide)]
  split
  · next hempty =>
    obtain ⟨rfl, hq⟩ := List.append_eq_nil_iff.mp hempty
    rw [hq]
    rfl
  · rw [parse_base]
    simp only [bind, Except.bind]
    rw [parse_written _ path query hkept hcolon hquery hparams hhead]
    simp only
    rw [if_pos (by decide), relativeTo_root _ _ path query (by decide),
      unsplit_target _ _ _ query (by decide) (by decide)]
    rfl

/-- What is written as segments and a query has a target, with that query and with the segments that
walking leaves. -/
theorem exists_target (segments : List (List Char)) (h : ∀ s ∈ segments, IsSegment s)
    (query : List Char) (hquery : IsKept query) :
    ∃ target r, resolve "http://localhost".toList (['/'].intercalate segments ++ marked '?' query) =
        .ok target ∧ split [] target = .ok r ∧ r.query = query ∧
      HasSegments r.path (segments.foldl walk []).reverse := by
  have hpath := hasSegments_intercalate segments h
  have habsent := hpath.not_mem_path _ _ h
  have hwritten := resolve_written (['/'].intercalate segments) query
    (isKept_written _ query (isKept_of_hasSegments _ _ hpath h) hquery)
    (habsent ':' rfl (by decide) (by decide)) (habsent '?' rfl (by decide) (by decide))
    (habsent ';' rfl (by decide) (by decide)) (head?_intercalate_ne segments h)
  have hwalked : ∀ s ∈ (segments.foldl walk []).reverse, IsSegment s := fun s hs =>
    h s (mem_of_mem_walked segments s hs)
  have htarget : HasSegments (slashed (if ['/'].intercalate segments = [] then []
      else resolvePath [] (['/'].intercalate segments))) (segments.foldl walk []).reverse := by
    apply hasSegments_slashed
    by_cases hne : segments = []
    · rw [hne]
      exact ⟨[], rfl, rfl⟩
    · have htext : ['/'].intercalate segments ≠ [] := by
        intro hempty
        rw [hempty] at hpath
        exact hne (hpath.filled_splitOn _ _ fun s hs =>
          not_mem_of_isSegment s (h s hs) '/' rfl (by decide)).symm
      rw [if_neg htext]
      exact hasSegments_resolvePath segments hne h
  refine ⟨_, _, hwritten, split_target _ query
    (isKept_written _ query (isKept_of_hasSegments _ _ htarget hwalked) hquery)
    (htarget.not_mem_path _ _ hwalked '?' rfl (by decide) (by decide)) (slashed_head? _), rfl, htarget⟩

end ResourceUrl.Reference
