import ResourceUrl.Proofs.Dispatch
import ResourceUrl.Proofs.Targets

/-!
# URLs that are read and written

The URL of a query is its names, escaped, between slashes, and its query string.  It is divided again
into what it was written from, whatever characters these have (`Options.components_url`):

    q.write keys = .ok w  →  no name of q is "" or "." or ".."  →
      components w.url = .ok (path, q.params keys),   segments path = q.names

A query that was read gives a URL from which everything but its names is read again.  The names are
walked through like any path:

    readUrl url = .ok q  →
      readUrl (the URL of q) = .ok r  ∧  (r = q  ↔  no name of q is "." or "..")     (readUrl_url)

A name can be of dots, since a path is resolved before its escapes are read, but the dots are not
escaped when the name is written.
-/

namespace ResourceUrl

open Reference

/-! ## Escaped names -/

theorem Utf8.start_gives (octet : Nat) : (start octet).1 ≠ [] ∨ (start octet).2.isSome = true := by
  unfold start
  repeat' split
  all_goals simp

theorem Utf8.step_gives (pending : Option Pending) (octet : Nat) :
    (step pending octet).1 ≠ [] ∨ (step pending octet).2.isSome = true := by
  unfold step
  split
  · exact start_gives octet
  · dsimp only
    repeat' split
    all_goals simp

theorem Utf8.decodeFrom_ne_nil (octets : List Nat) (pending : Option Pending)
    (h : pending.isSome = true ∨ octets ≠ []) : decodeFrom pending octets ≠ [] := by
  induction octets generalizing pending with
  | nil =>
    have hp : pending.isSome = true := h.resolve_right fun hne => hne rfl
    rw [decodeFrom, if_pos hp]
    simp
  | cons octet rest ih =>
    rw [decodeFrom]
    rcases step_gives pending octet with hs | hs
    · simp [hs]
    · simp [ih _ (Or.inl hs)]

namespace Percent

theorem octets_ne_nil (text : List Char) (h : text ≠ []) : octets text ≠ [] := by
  have hchar : ∀ c, Utf8.encodeChar c ≠ [] := by
    intro c
    unfold Utf8.encodeChar
    dsimp only
    repeat' split
    all_goals simp
  unfold octets
  split
  · exact absurd rfl h
  · split
    · simp
    · simp [hchar]
  · simp [hchar]

theorem decode_ne_nil (text : List Char) (h : text ≠ []) : decode text ≠ [] :=
  Utf8.decodeFrom_ne_nil _ none (Or.inr (octets_ne_nil text h))

theorem mem_encode (safe text : List Char) (c : Char) (h : c ∈ encode safe text) :
    isUnreserved c = true ∨ c = '%' ∨ c ∈ safe := by
  cases hu : isUnreserved c with
  | true => exact Or.inl rfl
  | false =>
    by_cases hsign : c = '%'
    · exact Or.inr (Or.inl hsign)
    · by_cases hsafe : c ∈ safe
      · exact Or.inr (Or.inr hsafe)
      · exact absurd h (not_mem_encode hu hsafe hsign)

theorem encode_injective (text other : List Char) (h : encode [] text = encode [] other) :
    text = other := by
  rw [← decode_encode List.not_mem_nil text, h, decode_encode List.not_mem_nil]

end Percent

theorem isSegment_encode (name : String) (h : name ≠ "") :
    IsSegment (Percent.encode [] name.toList) := by
  constructor
  · intro hnil
    exact Text.toList_ne_nil name h (Percent.encode_injective _ [] hnil)
  · intro c hc
    rcases Percent.mem_encode [] _ c hc with hu | hsign | hsafe
    · exact Or.inl hu
    · exact Or.inr hsign
    · cases hsafe

/-- Dots are not escaped, so that the names of dots are written as dot segments. -/
theorem isDots_encode_iff (name : String) :
    IsDots (Percent.encode [] name.toList) ↔ name = "." ∨ name = ".." := by
  have hone : Percent.encode [] ".".toList = ['.'] := by decide
  have htwo : Percent.encode [] "..".toList = ['.', '.'] := by decide
  constructor
  · rintro (h | h)
    · rw [← hone] at h
      exact Or.inl (String.toList_injective (Percent.encode_injective _ _ h))
    · rw [← htwo] at h
      exact Or.inr (String.toList_injective (Percent.encode_injective _ _ h))
  · rintro (rfl | rfl)
    · exact Or.inl hone
    · exact Or.inr htwo

/-! ## Names -/

namespace Query

def names (q : Query) : List String :=
  q.resourceType.toList ++ q.identifier.toList

/-- The segments that the names are written as. -/
def writtenSegments (q : Query) : List (List Char) :=
  q.names.map fun name => Percent.encode [] name.toList

theorem names_ofPath (path : String) : (ofPath path).names = (segments path).take 2 := by
  unfold names ofPath
  match segments path with
  | [] => rfl
  | [_] => rfl
  | _ :: _ :: _ => rfl

/-- The first two segments of a path are all that a query takes from it. -/
theorem ofPath_eq_of_take (path other : String)
    (h : (segments path).take 2 = (segments other).take 2) : ofPath path = ofPath other := by
  have hhead : ∀ l : List String, l.head? = (l.take 2).head? := by
    intro l
    rw [List.head?_take, if_neg (by decide)]
  have hnext : ∀ l : List String, (l.drop 1).head? = ((l.take 2).drop 1).head? := by
    intro l
    rw [List.drop_take, List.head?_take, if_neg (by decide)]
  unfold ofPath
  rw [hhead, hnext, h, ← hhead, ← hnext]

theorem segment_ne_empty (path : String) (name : String) (h : name ∈ segments path) : name ≠ "" := by
  unfold segments at h
  obtain ⟨segment, hs, rfl⟩ := List.mem_map.mp h
  have hne : segment ≠ [] := by simpa using (List.mem_filter.mp hs).2
  intro hempty
  have := congrArg String.toList hempty
  rw [String.toList_ofList] at this
  exact Percent.decode_ne_nil segment hne this

theorem isSegment_of_mem_written (q : Query) (h : ∀ name ∈ q.names, name ≠ "") :
    ∀ s ∈ q.writtenSegments, IsSegment s := by
  intro s hs
  obtain ⟨name, hname, rfl⟩ := List.mem_map.mp hs
  exact isSegment_encode name (h name hname)

/-- Walking through names without dots leaves all of them. -/
theorem map_decode_walked (q : Query) (h : ∀ name ∈ q.names, name ≠ "." ∧ name ≠ "..") :
    (q.writtenSegments.foldl walk []).reverse.map (fun s => String.ofList (Percent.decode s)) =
      q.names := by
  have hkept : q.writtenSegments.foldl walk [] = q.writtenSegments.reverse ++ [] := by
    apply foldl_walk_eq_reverse
    intro s hs
    obtain ⟨name, hname, rfl⟩ := List.mem_map.mp hs
    rw [isDots_encode_iff, not_or]
    exact h name hname
  rw [hkept, List.append_nil, List.reverse_reverse, writtenSegments, List.map_map]
  refine (List.map_congr_left fun name _ => ?_).trans (List.map_id _)
  show String.ofList (Percent.decode (Percent.encode [] name.toList)) = name
  rw [Percent.decode_encode List.not_mem_nil, String.ofList_toList]

theorem length_walked_lt (q : Query) (name : String) (hname : name ∈ q.names)
    (hdots : name = "." ∨ name = "..") :
    (q.writtenSegments.foldl walk []).length < q.names.length := by
  have hlost := length_foldl_walk_lt q.writtenSegments []
    ⟨_, List.mem_map_of_mem hname, (isDots_encode_iff name).mpr hdots⟩
  have hlength : q.writtenSegments.length = q.names.length := List.length_map _
  rw [List.length_nil, hlength] at hlost
  omega

theorem isKept_queryString (q : Query) (keys : Keys) : IsKept (q.queryString keys) := by
  have hencode : ∀ text, IsKept (Percent.encode safeChars text) := by
    intro text c hc
    rcases Percent.mem_encode safeChars text c hc with hu | hu | hsafe
    · exact isKept_of_unreserved c (Or.inl hu)
    · exact isKept_of_unreserved c (Or.inr hu)
    · have hall : safeChars.all (fun d => 0x20 < d.toNat && d != '#') = true := by decide
      simpa using List.all_eq_true.mp hall c hsafe
  intro c hc
  rcases mem_intercalate '&' _ c hc with rfl | ⟨text, ht, hc⟩
  · decide
  · obtain ⟨param, -, rfl⟩ := List.mem_map.mp ht
    rcases List.mem_append.mp hc with hc | hc
    · exact hencode _ c hc
    · rcases List.mem_cons.mp hc with rfl | hc
      · decide
      · exact hencode _ c hc

end Query

/-! ## Path and parameters -/

section
variable (options : Options) (hbase : options.baseUrl = "http://localhost") (q : Query) (keys : Keys)
include hbase

/-- The URL of a query is divided into its names, walked through, and its parameters. -/
theorem Options.components_walked (hnames : ∀ name ∈ q.names, name ≠ "") :
    ∃ path, options.components (.ofList (q.url keys)) = .ok (path, q.params keys) ∧
      Query.segments path =
        (q.writtenSegments.foldl walk []).reverse.map fun s => .ofList (Percent.decode s) := by
  have hsegments := q.isSegment_of_mem_written hnames
  obtain ⟨target, r, htarget, hsplit, hquery, hpath⟩ :=
    exists_target _ hsegments (q.queryString keys) (q.isKept_queryString keys)
  have htext : (String.ofList (q.url keys)).toList =
      ['/'].intercalate q.writtenSegments ++ marked '?' (q.queryString keys) := String.toList_ofList
  have hresolve : resolve options.baseUrl.toList (String.ofList (q.url keys)).toList =
      .ok target := by
    rw [hbase, htext]
    exact htarget
  refine ⟨.ofList r.path, ?_, ?_⟩
  · rw [Options.components, hresolve]
    simp only [bind, Except.bind]
    rw [hsplit, ← q.read_queryString keys, ← hquery]
    rfl
  · have hfilled := hpath.filled_splitOn _ _ fun s hs =>
      not_mem_of_isSegment s (hsegments s (mem_of_mem_walked _ s hs)) '/' rfl (by decide)
    rw [Query.segments, String.toList_ofList, ← hfilled]
    rfl

/-- The URL of a query is transparent: what is read from it are the names and the parameters that it
was written from, whatever characters they have.  Only names that are empty or of dots are lost. -/
theorem Options.components_url (w : Query.Written) (hw : q.write keys = .ok w)
    (hnames : ∀ name ∈ q.resourceType.toList ++ q.identifier.toList,
      name ≠ "" ∧ name ≠ "." ∧ name ≠ "..") :
    ∃ path, options.components w.url = .ok (path, q.params keys) ∧
      options.readUrl w.url = options.readComponents path (q.params keys) ∧
      Query.segments path = q.resourceType.toList ++ q.identifier.toList := by
  obtain rfl : w = { queryString := .ofList (q.queryString keys), url := .ofList (q.url keys) } := by
    unfold Query.write at hw
    split at hw
    · exact (Except.ok.inj hw).symm
    · cases hw
  obtain ⟨path, hcomponents, hsegments⟩ :=
    options.components_walked hbase q keys fun name hname => (hnames name hname).1
  refine ⟨path, hcomponents, ?_, ?_⟩
  · rw [Options.readUrl, hcomponents]
  · rw [hsegments, q.map_decode_walked fun name hname => (hnames name hname).2]
    rfl

end

/-- Names and a key of characters that have a meaning in URLs. -/
theorem Options.components_url_reserved :
    let q : Query :=
      { resourceType := some "a/b:c;d", identifier := some "..?é#",
        filter := { logical := .or, children := [.condition ⟨"x", "eq", .text "1&2=3#%+ 4"⟩] },
        sort := [⟨"n", .desc⟩] }
    let keys : Keys := { filter := "f&=#", sort := "" }
    ∃ w path, q.write keys = .ok w ∧
      ({} : Options).components w.url = .ok (path, q.params keys) ∧
      ({} : Options).readUrl w.url = ({} : Options).readComponents path (q.params keys) ∧
      Query.segments path = ["a/b:c;d", "..?é#"] := by
  intro q keys
  have hwrite : q.write keys = .ok ⟨.ofList (q.queryString keys), .ofList (q.url keys)⟩ := if_pos rfl
  obtain ⟨path, hpath⟩ := Options.components_url {} rfl q keys _ hwrite (by decide)
  exact ⟨_, path, hwrite, hpath⟩

/-! ## The round trip -/

/-- The URL of a readable query is read as the query, its names walked through. -/
theorem Options.readUrl_of_isReadable (q : Query) (hq : q.IsReadable Filter.defaultMaxDepth)
    (hnames : ∀ name ∈ q.names, name ≠ "") :
    ∃ path, ({} : Options).readUrl (.ofList (q.url {})) =
        .ok { q with resourceType := (Query.ofPath path).resourceType,
                     identifier := (Query.ofPath path).identifier } ∧
      Query.segments path =
        (q.writtenSegments.foldl walk []).reverse.map fun s => .ofList (Percent.decode s) := by
  have hkeys : ({} : Keys).Match {} :=
    ⟨rfl, rfl, rfl, rfl, by decide, by decide, by decide, by decide, by decide, by decide⟩
  obtain ⟨path, hcomponents, hsegments⟩ := Options.components_walked {} rfl q {} hnames
  refine ⟨path, ?_, hsegments⟩
  rw [Options.readUrl, hcomponents]
  exact Options.readComponents_of_isReadable {} {} hkeys q hq path

/-- The URL of a query that was read is read again, with the same filter, order, selections and
page.  It is the same query exactly when none of its names is of dots. -/
theorem Options.readUrl_url (url : String) (q : Query) (h : ({} : Options).readUrl url = .ok q) :
    ∃ w r, q.write {} = .ok w ∧ ({} : Options).readUrl w.url = .ok r ∧
      r.filter = q.filter ∧ r.sort = q.sort ∧ r.fields = q.fields ∧ r.page = q.page ∧
      (r = q ↔ ∀ name ∈ q.resourceType.toList ++ q.identifier.toList, name ≠ "." ∧ name ≠ "..") := by
  obtain ⟨source, params, hread⟩ :
      ∃ source params, ({} : Options).readComponents source params = .ok q := by
    unfold Options.readUrl at h
    split at h
    · cases h
    · exact ⟨_, _, h⟩
  have hq := Options.isReadable_of_readComponents {} source params q hread
  obtain ⟨hresource, hidentifier⟩ := Query.names_of_readComponents {} source params q hread
  have hsource : q.names = (Query.segments source).take 2 := by
    rw [← Query.names_ofPath, Query.names, hresource, hidentifier]
    rfl
  have hnames : ∀ name ∈ q.names, name ≠ "" := by
    intro name hname
    rw [hsource] at hname
    exact Query.segment_ne_empty source name (List.mem_of_mem_take hname)
  obtain ⟨path, hurl, hsegments⟩ := Options.readUrl_of_isReadable q hq hnames
  refine ⟨_, _, Query.write_of_isReadable _ q hq {}, hurl, rfl, rfl, rfl, rfl, ?_, ?_⟩
  · intro hsame name hname
    have hlength : q.names.length ≤ (Query.segments path).length := by
      rw [← congrArg Query.names hsame]
      show (Query.ofPath path).names.length ≤ _
      rw [Query.names_ofPath, List.length_take]
      omega
    rw [hsegments, List.length_map, List.length_reverse] at hlength
    rw [← not_or]
    intro hdots
    have hlost := q.length_walked_lt name hname hdots
    omega
  · intro hdots
    rw [q.map_decode_walked hdots] at hsegments
    have hofPath : Query.ofPath path = Query.ofPath source := by
      apply Query.ofPath_eq_of_take
      rw [hsegments, hsource, List.take_take]
      rfl
    rw [hofPath, ← hresource, ← hidentifier]

/-- A resource of two dots is read, but its URL leads one segment up. -/
theorem Options.readUrl_url_dots :
    ∃ q w r, ({} : Options).readUrl "%2E%2E/x" = .ok q ∧ q.write {} = .ok w ∧
      ({} : Options).readUrl w.url = .ok r ∧ r ≠ q := by
  have hok : (({} : Options).readUrl "%2E%2E/x").toOption.map Query.names = some ["..", "x"] := by
    decide
  cases hq : ({} : Options).readUrl "%2E%2E/x" with
  | error fault => rw [hq] at hok; cases hok
  | ok q =>
    rw [hq] at hok
    have hnames : q.names = ["..", "x"] := Option.some.inj hok
    obtain ⟨w, r, hw, hr, -, -, -, -, hsame⟩ := Options.readUrl_url "%2E%2E/x" q hq
    refine ⟨q, w, r, rfl, hw, hr, fun heq => ?_⟩
    have hdots := hsame.mp heq ".." (by
      show ".." ∈ q.names
      rw [hnames]
      exact List.mem_cons_self)
    exact hdots.2 rfl

end ResourceUrl
