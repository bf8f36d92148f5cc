import ResourceUrl.Proofs.Dispatch

/-!
# Orders put together

A sort parameter is read item by item.  An item offends when it has no field, or a direction that is none
(`SortKey.Offends`), and the first item that offends is reported (`SortKey.readAll_eq_error_iff`).  A comma
between two parameters joins their items, so that reading carries it to the order of the keys:

    readAll (a ++ "," ++ b) = do return (← readAll a) ++ (← readAll b)      (SortKey.readAll_append_comma)

and a client may as well send two parameters one after the other (`Options.readComponents_sort_comma`).
The keys that are read are those that are read again once they are written
(`SortKey.exists_readAll_iff`).
-/

namespace ResourceUrl

theorem Direction.ofName?_eq_none_iff (name : String) :
    ofName? name = none ↔ ∀ d : Direction, name ≠ d.name := by
  constructor
  · rintro h d rfl
    rw [ofName?_name] at h
    cases h
  · intro h
    rw [ofName?, List.find?_eq_none]
    intro d _ hd
    exact h d (beq_iff_eq.mp hd).symm

namespace SortKey

/-! ## Items -/

/-- How an item of a sort parameter offends. -/
inductive Offends : List Char → ParseError → Prop
  /-- Nothing stands before its first colon. -/
  | field {item : List Char} : item = [] ∨ item.head? = some ':' → Offends item .missingSortField
  /-- What stands after its first colon is not the name of a direction. -/
  | direction {field direction : List Char} : field ≠ [] → ':' ∉ field → direction ≠ [] →
      (∀ d : Direction, direction ≠ d.name.toList) →
      Offends (field ++ ':' :: direction) (.invalidDirection (.ofList direction))

theorem read_eq_error_iff_offends (item : List Char) (error : ParseError) :
    read item = .error error ↔ Offends item error := by
  constructor
  · intro h
    unfold read at h
    dsimp only at h
    split at h
    · next hfield =>
      obtain rfl := Except.error.inj h
      exact .field ((Text.cut_fst_eq_nil_iff ':' item).mp hfield)
    · next hfield =>
      split at h
      · cases h
      · next hdirection =>
        split at h
        · next hname =>
          obtain rfl := Except.error.inj h
          have hnone := (Direction.ofName?_eq_none_iff _).mp hname
          have hoffends := Offends.direction hfield (Text.not_mem_cut ':' item) hdirection
            fun d hd => hnone d (by rw [hd, String.ofList_toList])
          rwa [Text.append_cut ':' item hdirection] at hoffends
        · cases h
  · rintro (h | ⟨hfield, hcolon, hdirection, hname⟩)
    · unfold read
      simp only [(Text.cut_fst_eq_nil_iff ':' item).mpr h, if_pos]
    · next field direction =>
      have hnone : Direction.ofName? (.ofList direction) = none := by
        rw [Direction.ofName?_eq_none_iff]
        intro d hd
        apply hname d
        rw [← hd, String.toList_ofList]
      unfold read
      simp only [Text.cut_append hcolon, if_neg hfield, if_neg hdirection, hnone]

theorem exists_read_iff (item : List Char) :
    (∃ key, read item = .ok key) ↔ ∀ error, ¬ Offends item error := by
  simp only [← read_eq_error_iff_offends]
  cases read item <;> simp

/-! ## Parameters -/

/-- The first item that offends is reported. -/
theorem readAll_eq_error_iff (value : String) (error : ParseError) :
    readAll value = .error error ↔ ∃ before item after,
      value.toList.splitOn ',' = before ++ item :: after ∧
        (∀ earlier ∈ before, ∀ cause, ¬ Offends earlier cause) ∧ Offends item error := by
  simp only [readAll, mapM_eq_error_iff, exists_read_iff, read_eq_error_iff_offends]

example : readAll "a:desc,b:up,:asc" = .error (.invalidDirection "up") := by decide +kernel

/-- A comma joins the items of two parameters. -/
theorem readAll_append_comma (a b : String) :
    readAll (a ++ "," ++ b) = do
      let keys ← readAll a
      let others ← readAll b
      return keys ++ others := by
  have hsplit : (a ++ "," ++ b).toList.splitOn ',' = a.toList.splitOn ',' ++ b.toList.splitOn ',' := by
    rw [String.toList_append, String.toList_append, List.append_assoc]
    exact List.splitOn_append_cons_self _ _
  rw [readAll, hsplit, List.mapM_append]
  rfl

/-- Some text is read as these keys when there are any and each is one that can be read. -/
theorem exists_readAll_iff (keys : List SortKey) :
    (∃ value, readAll value = .ok keys) ↔ keys ≠ [] ∧ ∀ key ∈ keys, key.IsReadable := by
  constructor
  · rintro ⟨value, h⟩
    refine ⟨?_, isReadable_of_readAll value keys h⟩
    rintro rfl
    rw [readAll, mapM_eq_ok_iff, List.forall₂_nil_right_iff] at h
    exact List.splitOn_ne_nil _ _ h
  · rintro ⟨hne, h⟩
    exact ⟨renderAll keys, readAll_renderAll keys hne h⟩

end SortKey

/-! ## Queries -/

theorem Query.apply_sort_append (q : Query) (keys others : List SortKey) :
    q.apply (.sort (keys ++ others)) = (q.apply (.sort keys)).apply (.sort others) := by
  simp only [apply, List.append_assoc]

theorem Query.sort_mem_params (q : Query) (names : Keys) (h : q.sort ≠ []) :
    ⟨names.sort, SortKey.renderAll q.sort⟩ ∈ q.params names := by
  simp [params, h]

namespace Options

theorem read_sort (options : Options) (key value : String) (h : options.role key = .sort) :
    options.read ⟨key, value⟩ = ((SortKey.readAll value).mapError .parse).map .sort := by
  rw [read_eq_handle, h]
  rfl

/-- Two sort parameters one after the other are read as one with a comma between their values. -/
theorem readComponents_sort_comma (options : Options) (path : String) (before after : List Param)
    (key a b : String) (h : options.role key = .sort) :
    options.readComponents path (before ++ ⟨key, a ++ "," ++ b⟩ :: after) =
      options.readComponents path (before ++ ⟨key, a⟩ :: ⟨key, b⟩ :: after) := by
  simp only [readComponents, List.mapM_append, List.mapM_cons, options.read_sort _ _ h,
    SortKey.readAll_append_comma]
  cases before.mapM options.read with
  | error fault => rfl
  | ok changes =>
    cases SortKey.readAll a with
    | error error => rfl
    | ok keys =>
      cases SortKey.readAll b with
      | error error => rfl
      | ok others =>
        cases after.mapM options.read with
        | error fault => rfl
        | ok more =>
          show Except.ok ((changes ++ .sort (keys ++ others) :: more).foldl Query.apply _) =
            .ok ((changes ++ .sort keys :: .sort others :: more).foldl Query.apply _)
          simp only [List.foldl_append, List.foldl_cons, Query.apply_sort_append]

end Options

/-- A comma between two sort parameters puts their keys together, and the first item that offends is
reported; it does not matter whether the two are sent as one or one after the other.  Keys that are read
have a field each without comma and colon, there is at least one, and all such keys are read back from the
parameter that they are written as. -/
theorem SortKey.readAll_by_items :
    (∀ a b, readAll (a ++ "," ++ b) = do
      let keys ← readAll a
      let others ← readAll b
      return keys ++ others) ∧
    (∀ value error, readAll value = .error error ↔ ∃ before item after,
      value.toList.splitOn ',' = before ++ item :: after ∧
        (∀ earlier ∈ before, ∀ cause, ¬ Offends earlier cause) ∧ Offends item error) ∧
    (∀ (options : Options) (path : String) (before after : List Param) (key : String),
      options.role key = .sort → ∀ a b,
        options.readComponents path (before ++ ⟨key, a ++ "," ++ b⟩ :: after) =
          options.readComponents path (before ++ ⟨key, a⟩ :: ⟨key, b⟩ :: after)) ∧
    (∀ keys, (∃ value, readAll value = .ok keys) ↔ keys ≠ [] ∧ ∀ key ∈ keys, key.IsReadable) ∧
    ∀ (q : Query) (names : Keys), q.sort ≠ [] → (∀ key ∈ q.sort, key.IsReadable) →
      ⟨names.sort, renderAll q.sort⟩ ∈ q.params names ∧ readAll (renderAll q.sort) = .ok q.sort := by
  refine ⟨readAll_append_comma, readAll_eq_error_iff, ?_, exists_readAll_iff, ?_⟩
  · intro options path before after key h a b
    exact options.readComponents_sort_comma path before after key a b h
  · intro q names hne h
    exact ⟨q.sort_mem_params names hne, readAll_renderAll q.sort hne h⟩

end ResourceUrl
