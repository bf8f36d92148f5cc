import Mathlib.Data.List.Forall2
import ResourceUrl.Proofs.Filters
import ResourceUrl.Proofs.Parameters
import ResourceUrl.Query.Options
import ResourceUrl.Query.Printer

/-!
# Query strings that are read and written

`Query.IsReadable` holds of every query that is read (`Options.isReadable_of_readComponents`): each
parameter brings something that its own reader can give (`Options.isReadable_of_read`), and every
change keeps the invariant (`Query.isReadable_apply`).  Conversely the parameters of a readable query
are read as the changes that make it up (`Options.mapM_read_params`, `Query.foldl_changes`), if the
names of the parameters can be told apart (`Keys.Match`):

    options.readComponents path params = .ok q  →  keys.Match options  →
      reading the query string of q gives its filter, order, selections and page
                                                        (Options.readComponents_queryString)
-/

namespace ResourceUrl

open ResourceUrl.Filter

/-! ## What is read -/

/-- The changes that reading a parameter can give. -/
def Change.IsReadable (maxDepth : Int) : Change → Prop
  | .filter g => g.height ≤ maxDepth.toNat ∧ ∀ c ∈ g.leaves, c.IsFilterable
  | .sort keys => ∀ key ∈ keys, key.IsReadable
  | .fields s => Selection.read s.render = .ok s
  | .limit n => n < 2 ^ 1024 - 2 ^ 970
  | .offset n => n < 2 ^ 1024 - 2 ^ 970
  | .ignored => True

/-- The queries that reading can give, as far as their parameters go. -/
structure Query.IsReadable (maxDepth : Int) (q : Query) : Prop where
  height : q.filter.height ≤ maxDepth.toNat
  leaves : ∀ c ∈ q.filter.leaves, c.IsFilterable
  sort : ∀ key ∈ q.sort, key.IsReadable
  fields : ∀ s ∈ q.fields.entries, Selection.read s.render = .ok s
  limit : ∀ n ∈ q.page.limit, n < 2 ^ 1024 - 2 ^ 970
  offset : ∀ n ∈ q.page.offset, n < 2 ^ 1024 - 2 ^ 970

theorem Options.isReadable_of_read (options : Options) (param : Param) (change : Change)
    (h : options.read param = .ok change) : change.IsReadable options.maxFilterDepth := by
  unfold Options.read at h
  cases hr : options.role param.key with
  | filter =>
    simp only [hr] at h
    obtain ⟨g, hg, rfl⟩ := exists_of_map_eq_ok _ _ _ h
    exact Filter.isFilterable_of_read options.mode param.value g hg
  | sort =>
    simp only [hr] at h
    obtain ⟨keys, hk, rfl⟩ := exists_of_map_eq_ok _ _ _ h
    exact SortKey.isReadable_of_readAll param.value keys (eq_ok_of_mapError_eq_ok _ _ _ hk)
  | fields =>
    simp only [hr] at h
    obtain ⟨s, hs, rfl⟩ := exists_of_map_eq_ok _ _ _ h
    have hread := eq_ok_of_mapError_eq_ok _ _ _ hs
    show Selection.read s.render = .ok s
    rw [Selection.render_of_read param.value s hread, hread]
  | limit =>
    simp only [hr] at h
    obtain ⟨n, hn, rfl⟩ := exists_of_map_eq_ok _ _ _ h
    exact Page.lt_of_readBound param.key param.value n hn
  | offset =>
    simp only [hr] at h
    obtain ⟨n, hn, rfl⟩ := exists_of_map_eq_ok _ _ _ h
    exact Page.lt_of_readBound param.key param.value n hn
  | ignored =>
    simp only [hr] at h
    obtain rfl := Except.ok.inj h
    trivial

theorem Query.isReadable_ofPath (maxDepth : Int) (path : String) :
    (Query.ofPath path).IsReadable maxDepth where
  height := Nat.zero_le _
  leaves c hc := absurd hc List.not_mem_nil
  sort key hkey := absurd hkey List.not_mem_nil
  fields s hs := absurd hs List.not_mem_nil
  limit n hn := by cases hn
  offset n hn := by cases hn

theorem Query.isReadable_apply (maxDepth : Int) (q : Query) (change : Change)
    (hq : q.IsReadable maxDepth) (hc : change.IsReadable maxDepth) :
    (q.apply change).IsReadable maxDepth := by
  cases change with
  | filter g => exact { hq with height := hc.1, leaves := hc.2 }
  | sort keys =>
    refine { hq with sort := fun key hkey => ?_ }
    rcases List.mem_append.mp hkey with hkey | hkey
    · exact hq.sort key hkey
    · exact hc key hkey
  | fields s =>
    refine { hq with fields := fun t ht => ?_ }
    rcases Selection.mem_insertInto ht with rfl | ht
    · exact hc
    · exact hq.fields t ht
  | limit n =>
    refine { hq with limit := fun m hm => ?_ }
    obtain rfl := Option.some.inj hm
    exact hc
  | offset n =>
    refine { hq with offset := fun m hm => ?_ }
    obtain rfl := Option.some.inj hm
    exact hc
  | ignored => exact hq

theorem Options.isReadable_of_readComponents (options : Options) (path : String) (params : List Param)
    (q : Query) (h : options.readComponents path params = .ok q) :
    q.IsReadable options.maxFilterDepth := by
  obtain ⟨changes, hchanges, rfl⟩ := exists_of_map_eq_ok _ _ _ h
  have hall : ∀ change ∈ changes, change.IsReadable options.maxFilterDepth := by
    intro change hchange
    obtain ⟨param, -, hread⟩ := exists_of_mem_mapM _ _ _ hchanges change hchange
    exact options.isReadable_of_read param change hread
  have hstart := Query.isReadable_ofPath options.maxFilterDepth path
  clear hchanges h
  generalize Query.ofPath path = q at hstart
  induction changes generalizing q with
  | nil => exact hstart
  | cons change changes ih =>
    exact ih (fun d hd => hall d (List.mem_cons_of_mem _ hd)) _
      (Query.isReadable_apply _ q change hstart (hall change List.mem_cons_self))

/-! ## What is written -/

/-- The names that are written are those that are read, and no name stands for two roles. -/
structure Keys.Match (keys : Keys) (options : Options) : Prop where
  filter : keys.filter = options.filterKey
  sort : keys.sort = options.sortKey
  limit : keys.limit = options.limitKey
  offset : keys.offset = options.offsetKey
  distinct : [options.filterKey, options.sortKey, options.limitKey, options.offsetKey].Nodup
  limit_stem : ¬ options.fieldsStem.toList <+: options.limitKey.toList
  offset_stem : ¬ options.fieldsStem.toList <+: options.offsetKey.toList
  fields_stem : options.fieldsStem.toList <+: keys.fields.toList
  fields_ne_filter : keys.fields ≠ options.filterKey
  fields_ne_sort : keys.fields ≠ options.sortKey

namespace Query

/-- The changes that make up a query, in the order of its parameters. -/
def changes (q : Query) : List Change :=
  (if q.filter.isEmpty ∧ q.filter.logical = .and then [] else [.filter q.filter]) ++
  (if q.sort = [] then [] else [.sort q.sort]) ++
  q.fields.entries.map .fields ++ q.page.limit.toList.map .limit ++ q.page.offset.toList.map .offset

theorem foldl_apply_fields (q : Query) (selections : List Selection) :
    (selections.map Change.fields).foldl apply q =
      { q with fields := selections.foldl Fields.insert q.fields } := by
  induction selections generalizing q with
  | nil => rfl
  | cons s rest ih =>
    rw [List.map_cons, List.foldl_cons, ih]
    rfl

theorem foldl_changes (q : Query) (path : String) :
    q.changes.foldl apply (ofPath path) =
      { q with resourceType := (ofPath path).resourceType,
               identifier := (ofPath path).identifier } := by
  obtain ⟨resourceType, identifier, ⟨logical, children⟩, sort, fields, ⟨limit, offset⟩⟩ := q
  have hfields : fields.entries.foldl Fields.insert .empty = fields := Fields.ofList_entries fields
  have hfilter : (if (Group.mk logical children).isEmpty ∧ logical = .and then []
      else [Change.filter ⟨logical, children⟩]).foldl apply (ofPath path) =
        { ofPath path with filter := ⟨logical, children⟩ } := by
    split
    · next h =>
      obtain ⟨hempty, rfl⟩ := h
      obtain rfl : children = [] := List.isEmpty_iff.mp hempty
      rfl
    · rfl
  have hsort : ∀ r : Query, r.sort = [] →
      (if sort = [] then [] else [Change.sort sort]).foldl apply r = { r with sort } := by
    intro r hr
    split
    · next h => rw [h, ← hr]; rfl
    · rw [List.foldl_cons, List.foldl_nil, apply, hr, List.nil_append]
  unfold changes
  simp only [List.foldl_append]
  rw [hfilter, hsort _ rfl, foldl_apply_fields]
  cases limit <;> cases offset <;> simp [apply, ofPath, hfields]

end Query

theorem Keys.Match.roles (keys : Keys) (options : Options) (h : keys.Match options) :
    options.role keys.filter = .filter ∧ options.role keys.sort = .sort ∧
      options.role keys.fields = .fields ∧ options.role keys.limit = .limit ∧
        options.role keys.offset = .offset := by
  obtain ⟨hfilter, hsort, hlimit, hoffset, hdistinct, hlstem, hostem, hfstem, hff, hfs⟩ := h
  simp only [List.nodup_cons, List.mem_cons, List.not_mem_nil, or_false, not_or,
    List.nodup_nil, and_true, not_false_eq_true] at hdistinct
  obtain ⟨⟨h1, h2, h3⟩, ⟨h4, h5⟩, h6⟩ := hdistinct
  rw [← List.isPrefixOf_iff_prefix] at hlstem hostem hfstem
  refine ⟨?_, ?_, ?_, ?_, ?_⟩
  · rw [hfilter, Options.role, if_pos rfl]
  · rw [hsort, Options.role, if_neg (Ne.symm h1), if_pos rfl]
  · rw [Options.role, if_neg hff, if_neg hfs, if_pos hfstem]
  · rw [hlimit, Options.role, if_neg (Ne.symm h2), if_neg (Ne.symm h4), if_neg hlstem, if_pos rfl]
  · rw [hoffset, Options.role, if_neg (Ne.symm h3), if_neg (Ne.symm h5), if_neg hostem,
      if_neg (Ne.symm h6), if_pos rfl]

theorem Options.forall₂_boundParam (options : Options) (key : String) (bound : Option Nat)
    (change : Nat → Change)
    (h : ∀ n ∈ bound, options.read { key, value := .ofList (Nat.toDigits 10 n) } = .ok (change n)) :
    List.Forall₂ (fun param change => options.read param = .ok change) (Query.boundParam key bound)
      (bound.toList.map change) := by
  unfold Query.boundParam
  rw [List.forall₂_map_left_iff, List.forall₂_map_right_iff, List.forall₂_same]
  intro n hn
  exact h n (Option.mem_toList.mp hn)

/-- Each parameter of a readable query is read as the change that it is written for. -/
theorem Options.mapM_read_params (options : Options) (keys : Keys) (hkeys : keys.Match options)
    (q : Query) (hq : q.IsReadable options.maxFilterDepth) :
    (q.params keys).mapM options.read = .ok q.changes := by
  obtain ⟨hfilter, hsort, hfields, hlimit, hoffset⟩ := hkeys.roles
  rw [mapM_eq_ok_iff]
  unfold Query.params Query.changes
  refine List.rel_append (List.rel_append (List.rel_append (List.rel_append ?_ ?_) ?_) ?_) ?_
  · split
    · exact .nil
    · refine .cons ?_ .nil
      rw [Options.read]
      simp only [hfilter]
      rw [Filter.read_render options.mode q.filter hq.height hq.leaves]
      rfl
  · split
    · exact .nil
    · next hne =>
      refine .cons ?_ .nil
      rw [Options.read]
      simp only [hsort]
      rw [SortKey.readAll_renderAll q.sort hne hq.sort]
      rfl
  · rw [List.forall₂_map_left_iff, List.forall₂_map_right_iff, List.forall₂_same]
    intro s hs
    rw [Options.read]
    simp only [hfields]
    rw [hq.fields s hs]
    rfl
  · refine options.forall₂_boundParam keys.limit q.page.limit .limit fun n hn => ?_
    rw [Options.read]
    simp only [hlimit]
    rw [Page.readBound_toDigits _ n (hq.limit n hn)]
    rfl
  · refine options.forall₂_boundParam keys.offset q.page.offset .offset fun n hn => ?_
    rw [Options.read]
    simp only [hoffset]
    rw [Page.readBound_toDigits _ n (hq.offset n hn)]
    rfl

theorem Query.write_of_isReadable (maxDepth : Int) (q : Query) (h : q.IsReadable maxDepth)
    (keys : Keys) :
    q.write keys = .ok { queryString := .ofList (q.queryString keys), url := .ofList (q.url keys) } := by
  have hbound : ∀ bound : Option Nat, (∀ n ∈ bound, n < 2 ^ 1024 - 2 ^ 970) →
      isWritableBound bound = true := by
    intro bound hb
    cases bound with
    | none => rfl
    | some n =>
      have hlt := Value.lt_digitLimit n (hb n rfl)
      rw [isWritableBound, Option.all_some]
      generalize Fault.digitLimit = limit at hlt ⊢
      exact decide_eq_true hlt
  have hwritable : q.isWritable = true := by
    rw [isWritable, Group.isWritable_of_isFilterable _ h.leaves, hbound _ h.limit, hbound _ h.offset]
    rfl
  rw [write, if_pos hwritable]

/-- A query string gives back the parameters that it was written from, whatever their texts. -/
theorem Query.read_queryString (q : Query) (keys : Keys) :
    Form.read (q.queryString keys) = q.params keys := by
  have hsafe : ∀ c ∈ Form.separators, c ∉ Query.safeChars := by
    simp [Form.separators, Query.safeChars]
  rw [Query.queryString, Form.read_write hsafe]

/-- The parameters of a readable query are read as the query, but for the path. -/
theorem Options.readComponents_of_isReadable (options : Options) (keys : Keys)
    (hkeys : keys.Match options) (q : Query) (hq : q.IsReadable options.maxFilterDepth)
    (path : String) :
    options.readComponents path (q.params keys) =
      .ok { q with resourceType := (Query.ofPath path).resourceType,
                   identifier := (Query.ofPath path).identifier } := by
  rw [Options.readComponents, options.mapM_read_params keys hkeys q hq, ← Query.foldl_changes]
  rfl

/-! ## The round trip -/

/-- A query that was read is found again in its query string under whatever path, also by strict
reading: the filter, the order, the selections in their order and the page. -/
theorem Options.readComponents_queryString (options : Options) (keys : Keys)
    (hkeys : keys.Match options) (path : String) (params : List Param) (q : Query)
    (h : options.readComponents path params = .ok q) :
    ∃ w, q.write keys = .ok w ∧
      ∀ (p : String), ∀ reader ∈ [options, { options with strictGroups := true }],
        ∃ r, reader.readComponents p (Form.read w.queryString.toList) = .ok r ∧
          r.filter = q.filter ∧ r.sort = q.sort ∧ r.fields = q.fields ∧ r.page = q.page := by
  have hq := options.isReadable_of_readComponents path params q h
  refine ⟨_, Query.write_of_isReadable _ q hq keys, fun p reader hreader => ?_⟩
  rw [String.toList_ofList, q.read_queryString keys]
  rcases List.mem_cons.mp hreader with rfl | hreader
  · exact ⟨_, Options.readComponents_of_isReadable _ keys hkeys q hq p, rfl, rfl, rfl, rfl⟩
  · obtain rfl := List.mem_singleton.mp hreader
    have hstrict : keys.Match { options with strictGroups := true } := { hkeys with }
    exact ⟨_, Options.readComponents_of_isReadable _ keys hstrict q hq p, rfl, rfl, rfl, rfl⟩

/-- Names of which two begin with the stem of the selections. -/
theorem Options.readComponents_queryString_shared_stem :
    let options : Options :=
      { filterKey := "where", sortKey := "order", fieldsStem := "w", limitKey := "page",
        offsetKey := "from", strictGroups := false, maxFilterDepth := 3 }
    let keys : Keys :=
      { filter := "where", sort := "order", fields := "with", limit := "page", offset := "from" }
    ∃ q w, options.readComponents "/users"
        [⟨"where", "(name[eq]bob|)|"⟩, ⟨"wide", "users:id,name"⟩, ⟨"order", "name:desc"⟩] = .ok q ∧
      q.write keys = .ok w ∧
      ∀ (p : String), ∀ reader ∈ [options, { options with strictGroups := true }],
        ∃ r, reader.readComponents p (Form.read w.queryString.toList) = .ok r ∧
          r.filter = q.filter ∧ r.sort = q.sort ∧ r.fields = q.fields ∧ r.page = q.page := by
  intro options keys
  have hkeys : keys.Match options :=
    ⟨rfl, rfl, rfl, rfl, by decide, by decide, by decide, by decide, by decide, by decide⟩
  have hok : (options.readComponents "/users" [⟨"where", "(name[eq]bob|)|"⟩,
      ⟨"wide", "users:id,name"⟩, ⟨"order", "name:desc"⟩]).toBool = true := by decide
  cases hq : options.readComponents "/users" [⟨"where", "(name[eq]bob|)|"⟩,
      ⟨"wide", "users:id,name"⟩, ⟨"order", "name:desc"⟩] with
  | error fault => rw [hq] at hok; cases hok
  | ok q =>
    obtain ⟨w, hw⟩ := Options.readComponents_queryString options keys hkeys _ _ q hq
    exact ⟨q, w, rfl, hw⟩

end ResourceUrl
