import Mathlib.Tactic.Ring
import ResourceUrl.Fields
import ResourceUrl.Page
import ResourceUrl.Proofs.Sequence
import ResourceUrl.Proofs.Values
import ResourceUrl.Sort

/-!
# Sort keys, selections and bounds that are read and written

What one reader gives, the same reader finds again in its text:

    SortKey.readAll value = .ok keys  →  SortKey.readAll (SortKey.renderAll keys) = .ok keys
    Selection.read value = .ok s      →  Selection.read s.render = .ok s
    Page.readBound key raw = .ok n    →  Page.readBound key (Nat.toDigits 10 n) = .ok n

Sort keys of several parameters are written as one, so for them the law is stated for any keys that
can be read one by one (`SortKey.IsReadable`).  A bound that is read is below the bound of the
format (`Page.lt_of_readBound`), hence far below the digit limit.
-/

namespace ResourceUrl

/-! ## Sort keys -/

namespace SortKey

/-- The sort keys that reading can give. -/
structure IsReadable (key : SortKey) : Prop where
  field_ne : key.field.toList ≠ []
  no_colon : ':' ∉ key.field.toList
  no_comma : ',' ∉ key.field.toList

theorem isReadable_of_read (item : List Char) (key : SortKey) (hcomma : ',' ∉ item)
    (h : read item = .ok key) : key.IsReadable := by
  have hfield : key.field.toList = (Text.cut ':' item).1 ∧ (Text.cut ':' item).1 ≠ [] := by
    unfold read at h
    dsimp only at h
    split at h
    · cases h
    · next hne =>
      refine ⟨?_, hne⟩
      split at h
      · obtain rfl := Except.ok.inj h
        exact String.toList_ofList
      · split at h
        · cases h
        · obtain rfl := Except.ok.inj h
          exact String.toList_ofList
  refine ⟨?_, ?_, ?_⟩
  · rw [hfield.1]
    exact hfield.2
  · rw [hfield.1]
    exact Text.not_mem_cut ':' item
  · rw [hfield.1]
    intro hm
    exact hcomma ((List.takeWhile_sublist _).mem hm)

theorem isReadable_of_readAll (value : String) (keys : List SortKey) (h : readAll value = .ok keys) :
    ∀ key ∈ keys, key.IsReadable := by
  intro key hkey
  obtain ⟨item, hitem, hread⟩ := exists_of_mem_mapM _ _ _ h key hkey
  exact isReadable_of_read item key (Text.not_mem_of_mem_splitOn ',' _ item hitem) hread

theorem read_render (key : SortKey) (h : key.IsReadable) : read key.render = .ok key := by
  have hname : key.direction.name.toList ≠ [] := by cases key.direction <;> decide
  unfold read render
  rw [Text.cut_append h.no_colon]
  simp only [if_neg h.field_ne, if_neg hname, String.ofList_toList, Direction.ofName?_name]

/-- Keys that can be read are read back from one parameter for all of them. -/
theorem readAll_renderAll (keys : List SortKey) (hne : keys ≠ []) (h : ∀ key ∈ keys, key.IsReadable) :
    readAll (renderAll keys) = .ok keys := by
  have hpieces : ∀ item ∈ keys.map render, ',' ∉ item := by
    intro item hitem
    obtain ⟨key, hkey, rfl⟩ := List.mem_map.mp hitem
    have hname : ',' ∉ key.direction.name.toList := by cases key.direction <;> decide
    have := (h key hkey).no_comma
    simp [render, this, hname]
  rw [readAll, renderAll, String.toList_ofList,
    List.splitOn_intercalate ',' hpieces (by simpa using hne)]
  exact mapM_map_eq_ok _ _ keys fun key hkey => read_render key (h key hkey)

end SortKey

/-! ## Selections -/

namespace Selection

theorem render_of_read (value : String) (s : Selection) (h : read value = .ok s) :
    s.render = value := by
  unfold read at h
  simp only at h
  split at h
  · cases h
  · next hne =>
    obtain rfl := Except.ok.inj h
    have hcolumns : ",".intercalate (Text.pieces ',' (.ofList (Text.cut ':' value.toList).2)) =
        .ofList (Text.cut ':' value.toList).2 := Text.intercalate_pieces ',' _
    apply String.toList_injective
    rw [render, hcolumns]
    simp only [String.toList_append, String.toList_ofList, List.append_assoc]
    exact Text.append_cut ':' value.toList fun hnil => hne (Or.inr hnil)

/-- Selections of different resources are inserted one after another. -/
theorem insertInto_of_distinct (s : Selection) (entries : List Selection)
    (h : ∀ t ∈ entries, t.resource ≠ s.resource) : s.insertInto entries = entries ++ [s] := by
  induction entries with
  | nil => rfl
  | cons t rest ih =>
    rw [insertInto, if_neg (h t List.mem_cons_self), ih fun u hu => h u (List.mem_cons_of_mem _ hu),
      List.cons_append]

end Selection

namespace Fields

theorem entries_foldl_insert (fields : Fields) (rest : List Selection)
    (h : (fields.entries ++ rest).Pairwise (·.resource ≠ ·.resource)) :
    (rest.foldl insert fields).entries = fields.entries ++ rest := by
  induction rest generalizing fields with
  | nil => rw [List.foldl_nil, List.append_nil]
  | cons s rest ih =>
    have hnew : (fields.insert s).entries = fields.entries ++ [s] :=
      Selection.insertInto_of_distinct s fields.entries fun t ht =>
        (List.pairwise_append.mp h).2.2 t ht s List.mem_cons_self
    have happend : (fields.insert s).entries ++ rest = fields.entries ++ s :: rest := by
      rw [hnew, List.append_assoc, List.singleton_append]
    rw [List.foldl_cons, ih _ (by rw [happend]; exact h), happend]

theorem ofList_entries (fields : Fields) : ofList fields.entries = fields := by
  have h := entries_foldl_insert empty fields.entries fields.distinct
  obtain ⟨entries, distinct⟩ := fields
  unfold ofList
  generalize entries.foldl insert empty = made at h
  obtain ⟨others, distinct⟩ := made
  obtain rfl : others = entries := h
  rfl

end Fields

/-! ## Bounds -/

/-- The fractional part is dropped by one division, also where a short cut finds the whole part. -/
theorem Numeral.truncate_eq_div (n : Numeral) :
    n.truncate = n.coefficient * 10 ^ n.power.toNat / 10 ^ (-n.power).toNat := by
  unfold truncate
  split
  · next hzero => rw [hzero, Nat.zero_mul, Nat.zero_div]
  · split
    · next up hp =>
      rw [hp, Nat.pow_eq]
      simp
    · next down hp =>
      rw [hp, Int.toNat_negSucc, Int.neg_negSucc, Nat.pow_zero, Nat.mul_one]
      show _ = n.coefficient / 10 ^ (down + 1)
      split
      · next hfar =>
        have hlt : n.coefficient < 10 ^ (down + 1) :=
          calc n.coefficient < 2 ^ (n.coefficient.log2 + 1) := Nat.lt_log2_self
            _ ≤ 10 ^ (down + 1) := Binary64.two_pow_le_ten_pow _ _ hfar
        exact (Nat.div_eq_of_lt hlt).symm
      · rfl

namespace Page

theorem readBound_of_isInRange (key raw : String) (n : Numeral) (hn : Numeral.ofText? raw = some n)
    (hrange : isInRange n = true) :
    readBound key raw = if n.negative = true ∧ n.truncate ≠ 0 then
      .error (.parse (.invalidBound key raw)) else .ok n.truncate := by
  rw [readBound, hn]
  simp [hrange]

/-- What is read is the whole part of a number, which exact arithmetic takes and which leaves nothing
negative. -/
theorem readBound_eq_ok_iff (key raw : String) (k : Nat) :
    readBound key raw = .ok k ↔
      ∃ n, Numeral.ofText? raw = some n ∧ isInRange n = true ∧
        ¬ (n.negative = true ∧ n.truncate ≠ 0) ∧ n.truncate = k := by
  cases hn : Numeral.ofText? raw with
  | none => simp [readBound, hn]
  | some n =>
    cases hrange : isInRange n with
    | false => simp [readBound, hn, hrange]
    | true =>
      rw [readBound_of_isInRange key raw n hn hrange]
      split
      · next hneg => simp [hneg]
      · next hneg =>
        constructor
        · intro h
          exact ⟨n, rfl, hrange, hneg, Except.ok.inj h⟩
        · rintro ⟨n', hn', -, -, rfl⟩
          rw [Option.some.inj hn']

theorem lt_of_readBound (key raw : String) (n : Nat) (h : readBound key raw = .ok n) :
    n < 2 ^ 1024 - 2 ^ 970 := by
  obtain ⟨k, hk, -, -, rfl⟩ := (readBound_eq_ok_iff key raw n).mp h
  have hfin := (Option.filter_eq_some_iff.mp hk).2
  rw [Numeral.toBinary64, Binary64.isFinite_ofDecimal_iff] at hfin
  rw [Numeral.truncate_eq_div, Nat.div_lt_iff_lt_mul (Nat.pow_pos (by decide))]
  exact hfin

theorem readBound_toDigits (key : String) (n : Nat) (h : n < 2 ^ 1024 - 2 ^ 970) :
    readBound key (.ofList (Nat.toDigits 10 n)) = .ok n := by
  have hread := Numeral.read?_integer false (Nat.toDigits 10 n) [] none
    (Numeral.areDigits_toDigits n) Nat.toDigits_ne_nil rfl
  rw [List.append_nil] at hread
  generalize hk : Numeral.mk false (Nat.toDigits 10 n) false [] none = k at hread
  have hcoefficient : k.coefficient = n := by
    rw [← hk, Numeral.coefficient, List.append_nil, Nat.ofDigitChars_ten_toDigits]
  have hpower : k.power = 0 := by rw [← hk]; rfl
  have hnegative : k.negative = false := by rw [← hk]
  have hfin : k.toBinary64.isFinite = true := by
    rw [Numeral.toBinary64, Binary64.isFinite_ofDecimal_iff, hpower, hcoefficient, Int.neg_zero,
      Int.toNat_zero, Nat.pow_zero, Nat.mul_one, Nat.mul_one]
    exact h
  have hrange : isInRange k = true := by
    simp [isInRange, hpower, leastPower, greatestZeroPower]
  have htruncate : k.truncate = n := by
    rw [Numeral.truncate, hcoefficient, hpower]
    split
    · next hzero => exact hzero.symm
    · exact Nat.mul_one n
  rw [readBound_eq_ok_iff]
  exact ⟨k, Numeral.ofText?_of_read? (Nat.toDigits 10 n) k hread hfin, hrange, by simp [hnegative],
    htruncate⟩

end Page

end ResourceUrl
