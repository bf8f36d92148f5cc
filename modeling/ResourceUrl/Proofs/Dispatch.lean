import Mathlib.Data.List.Induction
import ResourceUrl.Proofs.QueryStrings

/-!
# Parameters by role

Each parameter is read on its own, in the role of its key (`Options.handle`), and each part of a query
is made by the parameters of one role only (`Query.IsMadeBy`).  So a query can be described role by
role (`Options.Gathers`): the last filter and the last bounds, all sort keys, and for each resource
its last selection, the resources in the order in which they first appear.  How the parameters of
different roles are mixed makes no difference:

    (∀ role ≠ .ignored, options.values role others = options.values role params) →
      options.readComponents path params = .ok q ↔ options.readComponents path others = .ok q

(`Options.readComponents_by_role`).
-/

namespace ResourceUrl

/-! ## Reading in a role -/

namespace Options

def handle (options : Options) (role : Role) (value : String) : Except Fault Change :=
  match role with
  | .filter => (Filter.read options.mode value).map .filter
  | .sort => ((SortKey.readAll value).mapError .parse).map .sort
  | .fields => ((Selection.read value).mapError .parse).map .fields
  | .limit => (Page.readBound options.limitKey value).map .limit
  | .offset => (Page.readBound options.offsetKey value).map .offset
  | .ignored => .ok .ignored

def values (options : Options) (role : Role) (params : List Param) : List String :=
  (params.filter fun param => options.role param.key = role).map Param.value

/-- The keys of the bounds have no other spelling. -/
theorem key_of_role (options : Options) (key : String) :
    (options.role key = .limit → key = options.limitKey) ∧
      (options.role key = .offset → key = options.offsetKey) := by
  unfold role
  split_ifs with _ _ _ hlimit hoffset
  · simp
  · simp
  · simp
  · exact ⟨fun _ => hlimit, by simp⟩
  · exact ⟨by simp, fun _ => hoffset⟩
  · simp

theorem read_eq_handle (options : Options) (param : Param) :
    options.read param = options.handle (options.role param.key) param.value := by
  obtain ⟨hlimit, hoffset⟩ := options.key_of_role param.key
  unfold read handle
  cases hr : options.role param.key with
  | limit => simp only [hlimit hr]
  | offset => simp only [hoffset hr]
  | filter => rfl
  | sort => rfl
  | fields => rfl
  | ignored => rfl

end Options

def Change.role : Change → Options.Role
  | .filter _ => .filter
  | .sort _ => .sort
  | .fields _ => .fields
  | .limit _ => .limit
  | .offset _ => .offset
  | .ignored => .ignored

theorem Options.role_of_handle (options : Options) (role : Role) (value : String) (change : Change)
    (h : options.handle role value = .ok change) : change.role = role := by
  cases role with
  | ignored =>
    obtain rfl := Except.ok.inj h
    rfl
  | _ =>
    obtain ⟨_, -, rfl⟩ := exists_of_map_eq_ok _ _ _ h
    rfl

theorem Options.mapM_handle (options : Options) (params : List Param) (changes : List Change)
    (h : params.mapM options.read = .ok changes) (role : Role) :
    (options.values role params).mapM (options.handle role) =
      .ok (changes.filter fun change => change.role = role) := by
  rw [mapM_eq_ok_iff] at h ⊢
  induction h with
  | nil => exact .nil
  | @cons param change params changes hread _ ih =>
    rw [read_eq_handle] at hread
    have hrole := options.role_of_handle _ _ _ hread
    unfold values at ih ⊢
    by_cases hr : options.role param.key = role
    · rw [List.filter_cons_of_pos (by simpa using hr), List.filter_cons_of_pos (by simp [hrole, hr]),
        List.map_cons]
      rw [hr] at hread
      exact .cons hread ih
    · rw [List.filter_cons_of_neg (by simpa using hr), List.filter_cons_of_neg (by simp [hrole, hr])]
      exact ih

/-! ## Parts of a query -/

namespace Query

/-- A part of a query that the changes of one role make: others leave it as it is, and those of the
role go by what the part was. -/
structure IsMadeBy {γ : Type} (part : Query → γ) (role : Options.Role) : Prop where
  frame : ∀ q change, change.role ≠ role → part (q.apply change) = part q
  own : ∀ q r change, part q = part r → part (q.apply change) = part (r.apply change)

theorem isMadeBy_filter : IsMadeBy Query.filter .filter where
  frame q change h := by
    cases change with
    | filter _ => exact absurd rfl h
    | _ => rfl
  own q r change h := by
    cases change with
    | filter _ => rfl
    | _ => exact h

theorem isMadeBy_sort : IsMadeBy Query.sort .sort where
  frame q change h := by
    cases change with
    | sort _ => exact absurd rfl h
    | _ => rfl
  own q r change h := by
    cases change with
    | sort _ => exact congrArg (· ++ _) h
    | _ => exact h

theorem isMadeBy_fields : IsMadeBy Query.fields .fields where
  frame q change h := by
    cases change with
    | fields _ => exact absurd rfl h
    | _ => rfl
  own q r change h := by
    cases change with
    | fields _ => exact congrArg (Fields.insert · _) h
    | _ => exact h

theorem isMadeBy_limit : IsMadeBy (fun q => q.page.limit) .limit where
  frame q change h := by
    cases change with
    | limit _ => exact absurd rfl h
    | _ => rfl
  own q r change h := by
    cases change with
    | limit _ => rfl
    | _ => exact h

theorem isMadeBy_offset : IsMadeBy (fun q => q.page.offset) .offset where
  frame q change h := by
    cases change with
    | offset _ => exact absurd rfl h
    | _ => rfl
  own q r change h := by
    cases change with
    | offset _ => rfl
    | _ => exact h

section
variable {γ : Type} {part : Query → γ} {role : Options.Role} (h : IsMadeBy part role)
include h

theorem IsMadeBy.foldl_congr (changes : List Change) (q r : Query) (hqr : part q = part r) :
    part (changes.foldl apply q) = part (changes.foldl apply r) := by
  induction changes generalizing q r with
  | nil => exact hqr
  | cons change changes ih => exact ih _ _ (h.own q r change hqr)

/-- A part is made by the changes of its role alone. -/
theorem IsMadeBy.foldl_filter (changes : List Change) (q : Query) :
    part (changes.foldl apply q) =
      part ((changes.filter fun change => change.role = role).foldl apply q) := by
  induction changes generalizing q with
  | nil => rfl
  | cons change changes ih =>
    by_cases hr : change.role = role
    · rw [List.filter_cons_of_pos (by simpa using hr)]
      exact ih (q.apply change)
    · rw [List.filter_cons_of_neg (by simpa using hr), List.foldl_cons, ih]
      exact h.foldl_congr _ _ _ (h.frame q change hr)

end

theorem names_foldl_apply (changes : List Change) (q : Query) :
    (changes.foldl apply q).resourceType = q.resourceType ∧
      (changes.foldl apply q).identifier = q.identifier := by
  induction changes generalizing q with
  | nil => exact ⟨rfl, rfl⟩
  | cons change rest ih =>
    rw [List.foldl_cons, (ih _).1, (ih _).2]
    cases change <;> exact ⟨rfl, rfl⟩

theorem names_of_readComponents (options : Options) (path : String) (params : List Param) (q : Query)
    (h : options.readComponents path params = .ok q) :
    q.resourceType = (ofPath path).resourceType ∧ q.identifier = (ofPath path).identifier := by
  obtain ⟨changes, -, rfl⟩ := exists_of_map_eq_ok _ _ _ h
  exact names_foldl_apply changes (ofPath path)

theorem foldl_apply_congr (changes others : List Change)
    (h : ∀ role ≠ .ignored, (changes.filter fun change => change.role = role) =
      others.filter fun change => change.role = role) (q : Query) :
    changes.foldl apply q = others.foldl apply q := by
  have hpart : ∀ {γ : Type} {part : Query → γ} {role : Options.Role}, IsMadeBy part role →
      role ≠ .ignored → part (changes.foldl apply q) = part (others.foldl apply q) := by
    intro γ part role hmade hrole
    rw [hmade.foldl_filter, hmade.foldl_filter others, h role hrole]
  obtain ⟨htype, hid⟩ := names_foldl_apply changes q
  obtain ⟨htype', hid'⟩ := names_foldl_apply others q
  have hfilter := hpart isMadeBy_filter (by decide)
  have hsort := hpart isMadeBy_sort (by decide)
  have hfields := hpart isMadeBy_fields (by decide)
  have hlimit := hpart isMadeBy_limit (by decide)
  have hoffset := hpart isMadeBy_offset (by decide)
  rw [← htype'] at htype
  rw [← hid'] at hid
  revert htype hid hfilter hsort hfields hlimit hoffset
  generalize changes.foldl apply q = a
  generalize others.foldl apply q = b
  obtain ⟨t, i, f, s, fs, l, o⟩ := a
  obtain ⟨t', i', f', s', fs', l', o'⟩ := b
  rintro rfl rfl rfl rfl rfl rfl rfl
  rfl

/-- A part that every change of a kind overwrites is what the last one makes it. -/
theorem foldl_apply_last {β γ : Type} (part : Query → γ) (make : β → Change) (write : β → γ)
    (h : ∀ (q : Query) b, part (q.apply (make b)) = write b) (bs : List β) (q : Query) :
    part ((bs.map make).foldl apply q) = (bs.map write).getLastD (part q) := by
  induction bs using List.reverseRecOn with
  | nil => rfl
  | append_singleton bs b _ =>
    rw [List.map_append, List.foldl_append, List.map_append]
    exact (h _ b).trans (List.getLastD_concat ..).symm

theorem foldl_apply_sort (lists : List (List SortKey)) (q : Query) :
    ((lists.map Change.sort).foldl apply q).sort = q.sort ++ lists.flatten := by
  induction lists generalizing q with
  | nil => exact (List.append_nil _).symm
  | cons keys lists ih =>
    rw [List.map_cons, List.foldl_cons, ih, List.flatten_cons, ← List.append_assoc]
    rfl

end Query

/-! ## Selections in order -/

theorem Selection.resources_insertInto (s : Selection) (entries : List Selection) :
    (s.insertInto entries).map (·.resource) =
      if s.resource ∈ entries.map (·.resource) then entries.map (·.resource)
      else entries.map (·.resource) ++ [s.resource] := by
  induction entries with
  | nil => rfl
  | cons t rest ih =>
    unfold insertInto
    by_cases h : t.resource = s.resource
    · simp [h]
    · rw [if_neg h, List.map_cons, ih, List.map_cons]
      have hne : ¬ s.resource = t.resource := fun he => h he.symm
      by_cases hm : s.resource ∈ rest.map (·.resource)
      · simp [hm]
      · simp [hm, hne]

theorem Selection.find?_insertInto (s : Selection) (entries : List Selection) (resource : String) :
    (s.insertInto entries).find? (·.resource == resource) =
      if s.resource = resource then some s else entries.find? (·.resource == resource) := by
  induction entries with
  | nil => by_cases hs : s.resource = resource <;> simp [insertInto, hs]
  | cons t rest ih =>
    unfold insertInto
    by_cases h : t.resource = s.resource
    · rw [if_pos h]
      by_cases hs : s.resource = resource <;> simp [h, hs]
    · rw [if_neg h, List.find?_cons, List.find?_cons, ih]
      by_cases ht : t.resource = resource
      · have hs : ¬ s.resource = resource := fun hs => h (ht.trans hs.symm)
        simp [ht, hs]
      · have hb : (t.resource == resource) = false := by simpa using ht
        rw [hb]

namespace Fields

theorem ofList_append_singleton (l : List Selection) (s : Selection) :
    ofList (l ++ [s]) = (ofList l).insert s := List.foldl_concat ..

/-- The resources stand in the order in which they first appear. -/
theorem resources_ofList (l : List Selection) :
    (ofList l).entries.map (·.resource) = (l.map (·.resource)).eraseDups := by
  induction l using List.reverseRecOn with
  | nil => rfl
  | append_singleton l s ih =>
    rw [ofList_append_singleton, insert, Selection.resources_insertInto, ih, List.map_append,
      List.eraseDups_append]
    generalize l.map (·.resource) = names
    by_cases hm : s.resource ∈ names
    · rw [if_pos (List.mem_eraseDups.mpr hm)]
      simp [List.removeAll, hm]
    · rw [if_neg fun he => hm (List.mem_eraseDups.mp he)]
      simp [List.removeAll, hm, List.eraseDups_cons]

theorem get?_ofList (l : List Selection) (resource : String) :
    (ofList l).get? resource =
      (l.filter fun s => s.resource = resource).getLast?.map (·.columns) := by
  induction l using List.reverseRecOn with
  | nil => rfl
  | append_singleton l s ih =>
    rw [ofList_append_singleton, get?, insert, Selection.find?_insertInto, List.filter_append]
    by_cases hs : s.resource = resource
    · simp [hs]
    · rw [if_neg hs, List.filter_cons_of_neg (by simpa using hs), List.filter_nil, List.append_nil]
      exact ih

end Fields

/-! ## Queries by role -/

/-- What a query is made of, role by role. -/
structure Options.Gathers (options : Options) (path : String) (params : List Param) (q : Query) :
    Prop where
  resourceType : q.resourceType = (Query.ofPath path).resourceType
  identifier : q.identifier = (Query.ofPath path).identifier
  /-- The last filter counts, and no filter is the empty one. -/
  filter : ((options.values .filter params).getLast?.mapM (Filter.read options.mode)).map
    (·.getD {}) = .ok q.filter
  /-- All sort keys stand in order. -/
  sort : ((options.values .sort params).mapM SortKey.readAll).map List.flatten = .ok q.sort
  /-- The last selection of a resource counts, and the resources stand in order of appearance. -/
  fields : ∃ selections, (options.values .fields params).mapM Selection.read = .ok selections ∧
    q.fields.entries.map (·.resource) = (selections.map (·.resource)).eraseDups ∧
    ∀ resource, q.fields.get? resource =
      (selections.filter fun s => s.resource = resource).getLast?.map (·.columns)
  /-- The last bounds count. -/
  limit : (options.values .limit params).getLast?.mapM (Page.readBound options.limitKey) =
    .ok q.page.limit
  offset : (options.values .offset params).getLast?.mapM (Page.readBound options.offsetKey) =
    .ok q.page.offset

section
variable (options : Options) (path : String) (params : List Param) {changes : List Change}
  (h : params.mapM options.read = .ok changes)
include h

/-- The values of a role are all read, and what they are read as makes the part of the role. -/
theorem Options.exists_part {β γ ε : Type} {role : Role} {part : Query → γ}
    (hpart : Query.IsMadeBy part role) (reader : String → Except ε β) (make : β → Change)
    (hmake : ∀ value change, options.handle role value = .ok change →
      ∃ b, reader value = .ok b ∧ make b = change) (q : Query) :
    ∃ bs, (options.values role params).mapM reader = .ok bs ∧
      part (changes.foldl Query.apply q) = part ((bs.map make).foldl Query.apply q) := by
  obtain ⟨bs, hread, hmade⟩ :=
    mapM_eq_map_of_ok _ reader make hmake _ _ (options.mapM_handle params changes h role)
  exact ⟨bs, hread, by rw [hpart.foldl_filter, hmade]⟩

theorem Options.mapM_getLast?_bound {role : Role} {bound : Query → Option Nat}
    (hpart : Query.IsMadeBy bound role) (key : String) (make : Nat → Change)
    (hmake : ∀ value, options.handle role value = (Page.readBound key value).map make)
    (hwrite : ∀ (q : Query) n, bound (q.apply (make n)) = some n)
    (hnone : bound (.ofPath path) = none) :
    (options.values role params).getLast?.mapM (Page.readBound key) =
      .ok (bound (changes.foldl Query.apply (.ofPath path))) := by
  obtain ⟨bounds, hread, hbound⟩ := options.exists_part params h hpart (Page.readBound key) make
    (fun value change hc => exists_of_map_eq_ok _ _ _ (hmake value ▸ hc)) (.ofPath path)
  rw [mapM_getLast? _ _ _ hread, hbound, Query.foldl_apply_last bound make some hwrite, hnone,
    List.getLastD_eq_getLast?, List.getLast?_map]
  cases bounds.getLast? <;> rfl

/-- What all parameters are read as makes a query that is described role by role. -/
theorem Options.gathers_foldl_apply :
    options.Gathers path params (changes.foldl Query.apply (.ofPath path)) := by
  obtain ⟨htype, hid⟩ := Query.names_foldl_apply changes (.ofPath path)
  refine ⟨htype, hid, ?_, ?_, ?_, ?_, ?_⟩
  · obtain ⟨groups, hread, hfilter⟩ := options.exists_part params h Query.isMadeBy_filter
      (Filter.read options.mode) .filter (fun _ _ hc => exists_of_map_eq_ok _ _ _ hc) (.ofPath path)
    rw [mapM_getLast? _ _ _ hread, hfilter,
      Query.foldl_apply_last Query.filter .filter id (fun _ _ => rfl), List.map_id,
      List.getLastD_eq_getLast?]
    rfl
  · obtain ⟨lists, hread, hsort⟩ := options.exists_part params h Query.isMadeBy_sort
      SortKey.readAll .sort
      (fun _ _ hc => (exists_of_map_eq_ok _ _ _ hc).imp fun _ hk =>
        ⟨eq_ok_of_mapError_eq_ok _ _ _ hk.1, hk.2⟩) (.ofPath path)
    rw [hread, hsort, Query.foldl_apply_sort]
    rfl
  · obtain ⟨selections, hread, hfields⟩ := options.exists_part params h Query.isMadeBy_fields
      Selection.read .fields
      (fun _ _ hc => (exists_of_map_eq_ok _ _ _ hc).imp fun _ hs =>
        ⟨eq_ok_of_mapError_eq_ok _ _ _ hs.1, hs.2⟩) (.ofPath path)
    rw [Query.foldl_apply_fields] at hfields
    refine ⟨selections, hread, ?_, fun resource => ?_⟩
    · rw [hfields]
      exact Fields.resources_ofList selections
    · rw [hfields]
      exact Fields.get?_ofList selections resource
  · exact options.mapM_getLast?_bound path params h Query.isMadeBy_limit _ .limit (fun _ => rfl)
      (fun _ _ => rfl) rfl
  · exact options.mapM_getLast?_bound path params h Query.isMadeBy_offset _ .offset (fun _ => rfl)
      (fun _ _ => rfl) rfl

end

/-! ## Success, failure and order -/

namespace Options

variable (options : Options) (path : String)

theorem readComponents_eq_error_iff (params : List Param) (fault : Fault) :
    options.readComponents path params = .error fault ↔
      ∃ before p after, params = before ++ p :: after ∧
        (∀ b ∈ before, ∃ change, options.read b = .ok change) ∧ options.read p = .error fault := by
  rw [← mapM_eq_error_iff]
  unfold readComponents
  cases params.mapM options.read <;> simp [Except.map]

theorem exists_readComponents_iff (params : List Param) :
    (∃ q, options.readComponents path params = .ok q) ↔
      ∀ p ∈ params, ∃ change, options.read p = .ok change := by
  rw [← exists_mapM_eq_ok_iff]
  unfold readComponents
  cases params.mapM options.read <;> simp [Except.map]

theorem mem_values_iff (role : Role) (params : List Param) (value : String) :
    value ∈ options.values role params ↔
      ∃ p ∈ params, options.role p.key = role ∧ p.value = value := by
  simp [values, and_assoc]

theorem readComponents_of_values (params others : List Param)
    (h : ∀ role ≠ .ignored, options.values role others = options.values role params) (q : Query)
    (hq : options.readComponents path params = .ok q) :
    options.readComponents path others = .ok q := by
  have hread := (options.exists_readComponents_iff path params).mp ⟨q, hq⟩
  obtain ⟨changes, hchanges, rfl⟩ := exists_of_map_eq_ok _ _ _ hq
  -- a parameter that is not ignored shares role and value with one that is read
  have hothers : ∀ p ∈ others, ∃ change, options.read p = .ok change := by
    intro p hp
    rw [read_eq_handle]
    by_cases hr : options.role p.key = .ignored
    · rw [hr]
      exact ⟨.ignored, rfl⟩
    · have hmem := (options.mem_values_iff _ others p.value).mpr ⟨p, hp, rfl, rfl⟩
      rw [h _ hr] at hmem
      obtain ⟨p', hp', hrole, hvalue⟩ := (options.mem_values_iff _ params p.value).mp hmem
      rw [← hrole, ← hvalue, ← read_eq_handle]
      exact hread p' hp'
  obtain ⟨changes', hchanges'⟩ := (exists_mapM_eq_ok_iff options.read others).mpr hothers
  have hsame : changes'.foldl Query.apply (.ofPath path) = changes.foldl Query.apply (.ofPath path) := by
    refine Query.foldl_apply_congr changes' changes (fun role hr => ?_) _
    have hparams := options.mapM_handle params changes hchanges role
    have hvalues := options.mapM_handle others changes' hchanges' role
    rw [h role hr, hparams] at hvalues
    exact (Except.ok.inj hvalues).symm
  rw [readComponents, hchanges', ← hsame]
  rfl

/-- Parameters are read one by one, each in its own role, and the first that fails decides; what they
are read as is put together role by role, in whatever order the roles are mixed. -/
theorem readComponents_by_role (params : List Param) :
    ((∃ q, options.readComponents path params = .ok q) ↔
      ∀ p ∈ params, ∃ change, options.handle (options.role p.key) p.value = .ok change) ∧
    (∀ fault, options.readComponents path params = .error fault ↔
      ∃ before p after, params = before ++ p :: after ∧
        (∀ b ∈ before, ∃ change, options.handle (options.role b.key) b.value = .ok change) ∧
        options.handle (options.role p.key) p.value = .error fault) ∧
    (∀ q, options.readComponents path params = .ok q → options.Gathers path params q) ∧
    ∀ others, (∀ role ≠ .ignored, options.values role others = options.values role params) →
      ∀ q, options.readComponents path params = .ok q ↔ options.readComponents path others = .ok q := by
  simp only [← read_eq_handle]
  refine ⟨options.exists_readComponents_iff path params,
    options.readComponents_eq_error_iff path params, fun q hq => ?_, fun others h q => ⟨?_, ?_⟩⟩
  · obtain ⟨changes, hchanges, rfl⟩ := exists_of_map_eq_ok _ _ _ hq
    exact options.gathers_foldl_apply path params hchanges
  · exact options.readComponents_of_values path params others h q
  · exact options.readComponents_of_values path others params (fun role hr => (h role hr).symm) q

end Options

end ResourceUrl
