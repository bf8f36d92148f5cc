import Mathlib.Data.Rat.Floor
import ResourceUrl.Proofs.Denotations
import ResourceUrl.Proofs.Dispatch

/-!
# Bounds of pages

A bound is the number that its text denotes, cut toward zero without rounding
(`Numeral.truncate_eq_floor`):

    Page.readBound key raw = .ok k  →  raw denotes some v, and k = towardZero v
                                                                       (Page.readBound_truncates)

Whether a bound is negative is decided on what is left of the number, so that the numbers refused are
those from `-1` down, and those between `-1` and `0` are read as `0` (`Page.readBound_by_sign`).

The page of a query is the one that its parameters have as a table, in which a later value of a key
replaces an earlier one, if the keys of the bounds have no other role
(`Options.ofParams_of_readComponents`).
-/

namespace ResourceUrl

/-! ## Whole parts -/

/-- The number without its fractional part. -/
def towardZero (v : ℚ) : Int :=
  if 0 ≤ v then ⌊v⌋ else ⌈v⌉

theorem towardZero_of_fraction (v : ℚ) (hlt : -1 < v) (hneg : v < 0) : towardZero v = 0 := by
  rw [towardZero, if_neg (not_le.mpr hneg), Int.ceil_eq_zero_iff]
  exact ⟨hlt, hneg.le⟩

namespace Numeral

theorem truncate_eq_floor (n : Numeral) : (n.truncate : Int) = ⌊|n.toRat|⌋ := by
  have hquotient : |n.toRat| =
      (n.coefficient * 10 ^ n.power.toNat : Nat) / (10 ^ (-n.power).toNat : Nat) := by
    rw [abs_toRat, ten_zpow_eq, ← mul_div_assoc]
    push_cast
    rfl
  rw [hquotient, Rat.floor_natCast_div_natCast, truncate_eq_div]
  push_cast
  rfl

theorem toRat_nonneg (n : Numeral) (h : n.negative = false) : 0 ≤ n.toRat := by
  rw [toRat_eq_signed, h, ← abs_toRat]
  exact abs_nonneg _

theorem toRat_nonpos (n : Numeral) (h : n.negative = true) : n.toRat ≤ 0 := by
  rw [toRat_eq_signed, h, ← abs_toRat]
  exact neg_nonpos.mpr (abs_nonneg _)

theorem towardZero_toRat (n : Numeral) :
    towardZero n.toRat = if n.negative = true then -(n.truncate : Int) else n.truncate := by
  rw [truncate_eq_floor]
  unfold towardZero
  cases hneg : n.negative with
  | false =>
    have hnonneg := n.toRat_nonneg hneg
    rw [if_pos hnonneg, abs_of_nonneg hnonneg]
    rfl
  | true =>
    have hnonpos := n.toRat_nonpos hneg
    rw [if_pos rfl, abs_of_nonpos hnonpos, Int.floor_neg, neg_neg]
    split
    · next hnonneg =>
      rw [le_antisymm hnonpos hnonneg, Int.floor_zero, Int.ceil_zero]
    · rfl

theorem truncate_negative_iff (n : Numeral) :
    n.negative = true ∧ n.truncate ≠ 0 ↔ n.toRat ≤ -1 := by
  have hone : n.truncate ≠ 0 ↔ 1 ≤ |n.toRat| := by
    have hfloor : (1 : Int) ≤ ⌊|n.toRat|⌋ ↔ 1 ≤ |n.toRat| := by
      rw [Int.le_floor, Int.cast_one]
    rw [← hfloor, ← truncate_eq_floor]
    omega
  rw [hone]
  cases hneg : n.negative with
  | false =>
    have hnonneg := n.toRat_nonneg hneg
    constructor
    · rintro ⟨hfalse, -⟩
      cases hfalse
    · intro hle
      linarith
  | true =>
    rw [abs_of_nonpos (n.toRat_nonpos hneg)]
    constructor
    · rintro ⟨-, hle⟩
      linarith
    · intro hle
      exact ⟨rfl, by linarith⟩

end Numeral

/-! ## Bounds of a text -/

namespace Page

open Numeral

/-- Exact arithmetic takes the exponent: the power of ten for the last digit is not too small, nor too
large for a zero. -/
def HasExponentInRange (text : List Char) : Prop :=
  ∃ sign c p, IsDecimalText text sign c p ∧ leastPower ≤ p ∧ (c = 0 → p ≤ greatestZeroPower)

theorem isInRange_iff (text : List Char) (n : Numeral) (h : read? text = some n) :
    isInRange n = true ↔ HasExponentInRange text := by
  have hparts : isInRange n = true ↔
      leastPower ≤ n.power ∧ (n.coefficient = 0 → n.power ≤ greatestZeroPower) := by
    simp [isInRange, or_iff_not_imp_left]
  rw [hparts]
  constructor
  · intro hrange
    obtain ⟨sign, hdecimal, -⟩ := isDecimalText_of_read? text n h
    exact ⟨sign, _, _, hdecimal, hrange⟩
  · rintro ⟨sign, c, p, hdecimal, hrange⟩
    obtain ⟨k, hk, -, rfl, rfl⟩ := read?_of_isDecimalText text sign c p hdecimal
    rw [h] at hk
    obtain rfl := Option.some.inj hk
    exact hrange

theorem exists_numeral (raw : String) (v : ℚ) (hnumeric : isNumeric raw = true)
    (hv : IsNumberText (Text.trim raw.toList) v) :
    ∃ n, ofText? raw = some n ∧ n.toRat = v ∧
      (isInRange n = true ↔ HasExponentInRange (Text.trim raw.toList)) := by
  obtain ⟨n, hn⟩ := Option.isSome_iff_exists.mp hnumeric
  have hread := (Option.filter_eq_some_iff.mp hn).1
  have hdenoted := isNumberText_of_read? _ n hread
  exact ⟨n, hn, hdenoted.unique hv, isInRange_iff _ n hread⟩

theorem towardZero_of_readBound (key raw : String) (k : Nat) (h : readBound key raw = .ok k) :
    isNumeric raw = true ∧
      ∃ v, IsNumberText (Text.trim raw.toList) v ∧ -1 < v ∧ (k : Int) = towardZero v := by
  obtain ⟨n, hn, -, hneg, rfl⟩ := (readBound_eq_ok_iff key raw k).mp h
  have hdenoted := isNumberText_of_read? _ n (Option.filter_eq_some_iff.mp hn).1
  refine ⟨Option.isSome_iff_exists.mpr ⟨n, hn⟩, n.toRat, hdenoted, ?_, ?_⟩
  · rw [n.truncate_negative_iff] at hneg
    exact not_le.mp hneg
  · rw [towardZero_toRat]
    split
    · next hminus =>
      have hzero : n.truncate = 0 := by_contra fun hne => hneg ⟨hminus, hne⟩
      rw [hzero]
      rfl
    · rfl

/-- A bound that exact arithmetic takes is refused from `-1` down, and read from there up. -/
theorem readBound_of_denoted (key raw : String) (v : ℚ) (hnumeric : isNumeric raw = true)
    (hv : IsNumberText (Text.trim raw.toList) v)
    (hrange : HasExponentInRange (Text.trim raw.toList)) :
    (v ≤ -1 → readBound key raw = .error (.parse (.invalidBound key raw))) ∧
      (-1 < v → ∃ k, readBound key raw = .ok k) := by
  obtain ⟨n, hn, rfl, hiff⟩ := exists_numeral raw v hnumeric hv
  rw [readBound_of_isInRange key raw n hn (hiff.mpr hrange)]
  simp only [n.truncate_negative_iff]
  constructor
  · intro hle
    rw [if_pos hle]
  · intro hlt
    exact ⟨n.truncate, if_neg (not_le.mpr hlt)⟩

/-- A bound is the number of its text cut toward zero, exactly, and is read again from its digits; and
every number that is not negative is read, if exact arithmetic takes its exponent. -/
theorem readBound_truncates (key raw : String) :
    (∀ k, readBound key raw = .ok k →
      isNumeric raw = true ∧
      (∃ v, IsNumberText (Text.trim raw.toList) v ∧ (k : Int) = towardZero v) ∧
      k < 2 ^ 1024 ∧ readBound key (.ofList (Nat.toDigits 10 k)) = .ok k) ∧
    ∀ v, isNumeric raw = true → IsNumberText (Text.trim raw.toList) v → 0 ≤ v →
      HasExponentInRange (Text.trim raw.toList) → ∃ k, readBound key raw = .ok k := by
  constructor
  · intro k hk
    obtain ⟨hnumeric, v, hv, -, hwhole⟩ := towardZero_of_readBound key raw k hk
    have hlt := lt_of_readBound key raw k hk
    exact ⟨hnumeric, ⟨v, hv, hwhole⟩, Nat.lt_of_lt_of_le hlt (Nat.sub_le _ _),
      readBound_toDigits key k hlt⟩
  · intro v hnumeric hv hnonneg hrange
    exact (readBound_of_denoted key raw v hnumeric hv hrange).2 (by linarith)

/-- A number that the format would round up to `9007199254740994` before its fraction is dropped. -/
theorem readBound_truncates_odd :
    let raw := "9007199254740993.99"
    readBound "limit" raw = .ok 9007199254740993 ∧
      (∃ v, IsNumberText (Text.trim raw.toList) v ∧ 9007199254740993 = towardZero v) ∧
      ∃ v, isNumeric raw = true ∧ IsNumberText (Text.trim raw.toList) v ∧ 0 ≤ v ∧
        HasExponentInRange (Text.trim raw.toList) ∧ ∃ k, readBound "limit" raw = .ok k := by
  intro raw
  have hbound : readBound "limit" raw = .ok 9007199254740993 := by decide +kernel
  let n : Numeral := ⟨false, "9007199254740993".toList, true, "99".toList, none⟩
  have hread : read? (Text.trim raw.toList) = some n := by decide +kernel
  obtain ⟨hforward, hbackward⟩ := readBound_truncates "limit" raw
  obtain ⟨hnumeric, hwhole, -, -⟩ := hforward _ hbound
  have hv := isNumberText_of_read? _ n hread
  have hrange := (isInRange_iff _ n hread).mp (by decide +kernel)
  have hnonneg := n.toRat_nonneg rfl
  exact ⟨hbound, hwhole, _, hnumeric, hv, hnonneg, hrange, hbackward _ hnumeric hv hnonneg hrange⟩

/-! ## Bounds among parameters -/

theorem readParam_eq_mapM (params : List Param) (key : String) :
    readParam params key = (lastValue? params key).mapM (readBound key) := by
  unfold readParam
  cases lastValue? params key <;> rfl

theorem ofParams_eq_ok_iff (limitKey offsetKey : String) (params : List Param) (page : Page) :
    ofParams limitKey offsetKey params = .ok page ↔
      readParam params limitKey = .ok page.limit ∧ readParam params offsetKey = .ok page.offset := by
  unfold ofParams
  obtain ⟨limit, offset⟩ := page
  cases readParam params limitKey with
  | error fault => simp [bind, Except.bind]
  | ok l =>
    cases readParam params offsetKey with
    | error fault => simp [bind, Except.bind]
    | ok o => simp [bind, Except.bind, pure, Except.pure]

/-- The last value of each bound is read wherever a page is. -/
theorem exists_readBound_of_ofParams (limitKey offsetKey : String) (params : List Param) (page : Page)
    (h : ofParams limitKey offsetKey params = .ok page) (key raw : String)
    (hkey : key = limitKey ∨ key = offsetKey) (hraw : lastValue? params key = some raw) :
    ∃ k, readBound key raw = .ok k := by
  obtain ⟨hlimit, hoffset⟩ := (ofParams_eq_ok_iff limitKey offsetKey params page).mp h
  have hparam : ∃ bound, readParam params key = .ok bound := by
    rcases hkey with rfl | rfl
    · exact ⟨_, hlimit⟩
    · exact ⟨_, hoffset⟩
  obtain ⟨bound, hbound⟩ := hparam
  rw [readParam, hraw] at hbound
  obtain ⟨k, hk, -⟩ := exists_of_map_eq_ok _ _ _ hbound
  exact ⟨k, hk⟩

end Page

/-- Every bound is read wherever a query is, also one that a later one replaces. -/
theorem Options.exists_readBound_of_readComponents (options : Options) (path : String)
    (params : List Param) (q : Query) (h : options.readComponents path params = .ok q) (p : Param)
    (hp : p ∈ params) (hr : options.role p.key = .limit ∨ options.role p.key = .offset) :
    ∃ k, Page.readBound p.key p.value = .ok k := by
  obtain ⟨change, hread⟩ := (options.exists_readComponents_iff path params).mp ⟨q, h⟩ p hp
  have hmap : ∃ make : Nat → Change, (Page.readBound p.key p.value).map make = .ok change := by
    unfold read at hread
    rcases hr with hr | hr
    · exact ⟨.limit, by simpa only [hr] using hread⟩
    · exact ⟨.offset, by simpa only [hr] using hread⟩
  obtain ⟨make, hmake⟩ := hmap
  obtain ⟨k, hk, -⟩ := exists_of_map_eq_ok _ _ _ hmake
  exact ⟨k, hk⟩

/-- What is not a number is refused as a bound, and so are the numbers from `-1` down; those between
`-1` and `0` are read as `0`.  No page and no query has a bound of `-1` or less among its parameters. -/
theorem Page.readBound_by_sign (key raw : String) (params : List Param) :
    (isNumeric raw = false → readBound key raw = .error (.parse (.invalidBound key raw))) ∧
    (∀ v, isNumeric raw = true → Numeral.IsNumberText (Text.trim raw.toList) v →
      HasExponentInRange (Text.trim raw.toList) → v < 0 →
      readBound key raw = if v ≤ -1 then .error (.parse (.invalidBound key raw)) else .ok 0) ∧
    (∀ limitKey offsetKey page, ofParams limitKey offsetKey params = .ok page →
      key = limitKey ∨ key = offsetKey → lastValue? params key = some raw →
        ∃ v, Numeral.IsNumberText (Text.trim raw.toList) v ∧ -1 < v) ∧
    ∀ (options : Options) path q, options.readComponents path params = .ok q →
      ⟨key, raw⟩ ∈ params → options.role key = .limit ∨ options.role key = .offset →
        ∃ v, Numeral.IsNumberText (Text.trim raw.toList) v ∧ -1 < v := by
  have hread : ∀ k, readBound key raw = .ok k →
      ∃ v, Numeral.IsNumberText (Text.trim raw.toList) v ∧ -1 < v := by
    intro k hk
    obtain ⟨-, v, hv, hlt, -⟩ := towardZero_of_readBound key raw k hk
    exact ⟨v, hv, hlt⟩
  refine ⟨?_, ?_, ?_, ?_⟩
  · intro hnumeric
    have hn : Numeral.ofText? raw = none := by simpa [isNumeric] using hnumeric
    rw [readBound, hn]
  · intro v hnumeric hv hrange hneg
    obtain ⟨hrefused, htaken⟩ := readBound_of_denoted key raw v hnumeric hv hrange
    split
    · next hle => exact hrefused hle
    · next hlt =>
      obtain ⟨k, hk⟩ := htaken (not_le.mp hlt)
      obtain ⟨-, w, hw, -, hwhole⟩ := towardZero_of_readBound key raw k hk
      rw [hw.unique hv, towardZero_of_fraction v (not_le.mp hlt) hneg] at hwhole
      rw [hk, Int.ofNat_eq_zero.mp hwhole]
  · intro limitKey offsetKey page hpage hkey hraw
    obtain ⟨k, hk⟩ := exists_readBound_of_ofParams _ _ params page hpage key raw hkey hraw
    exact hread k hk
  · intro options path q hq hp hr
    obtain ⟨k, hk⟩ := options.exists_readBound_of_readComponents path params q hq _ hp hr
    exact hread k hk

/-- One and a half below zero is no bound. -/
theorem Page.readBound_by_sign_below :
    Numeral.IsNumberText (Text.trim " -15e-1".toList) (-3 / 2) ∧
      readBound "offset" " -15e-1" = .error (.parse (.invalidBound "offset" " -15e-1")) := by
  let n : Numeral := ⟨true, "15".toList, false, [], some (-1)⟩
  have hread : Numeral.read? (Text.trim " -15e-1".toList) = some n := by decide +kernel
  have hv := Numeral.isNumberText_of_read? _ n hread
  have hrat : n.toRat = -3 / 2 := by
    rw [Numeral.toRat, show n.toInt = -15 by decide, show n.power = -1 by decide]
    norm_num
  rw [hrat] at hv
  have hrange := (isInRange_iff _ n hread).mp (by decide +kernel)
  obtain ⟨-, hsign, -⟩ := readBound_by_sign "offset" " -15e-1" []
  have hrefused := hsign (-3 / 2) (by decide +kernel) hv hrange (by norm_num)
  rw [if_pos (by norm_num)] at hrefused
  exact ⟨hv, hrefused⟩

/-- A half below zero is a bound. -/
theorem Page.readBound_negative_half :
    Numeral.IsNumberText (Text.trim "-0.5".toList) (-1 / 2) ∧ readBound "limit" "-0.5" = .ok 0 ∧
      ofParams "limit" "offset" [⟨"offset", "-0.5"⟩] = .ok { offset := some 0 } ∧
      ∃ q, ({} : Options).readComponents "/users" [⟨"limit", "-0.5"⟩] = .ok q ∧
        q.page.limit = some 0 := by
  let n : Numeral := ⟨true, "0".toList, true, "5".toList, none⟩
  have hread : Numeral.read? (Text.trim "-0.5".toList) = some n := by decide +kernel
  have hv := Numeral.isNumberText_of_read? _ n hread
  have hrat : n.toRat = -1 / 2 := by
    rw [Numeral.toRat, show n.toInt = -5 by decide, show n.power = -1 by decide]
    norm_num
  rw [hrat] at hv
  have hbound : readBound "limit" "-0.5" = .ok 0 := by decide +kernel
  have hchange : ({} : Options).read ⟨"limit", "-0.5"⟩ = .ok (.limit 0) := by
    rw [Options.read_eq_handle, show ({} : Options).role "limit" = .limit by decide +kernel,
      Options.handle, hbound]
    rfl
  refine ⟨hv, hbound, by decide +kernel, (Query.ofPath "/users").apply (.limit 0), ?_, rfl⟩
  rw [Options.readComponents, mapM_cons_of_ok _ _ _ _ hchange]
  rfl

/-! ## Pages of queries -/

namespace Options

/-- The keys of the bounds are told apart from each other and have no other role. -/
structure BoundsApart (options : Options) : Prop where
  distinct : options.limitKey ≠ options.offsetKey
  limit : options.limitKey ∉ [options.filterKey, options.sortKey]
  offset : options.offsetKey ∉ [options.filterKey, options.sortKey]
  limit_stem : ¬ options.fieldsStem.toList <+: options.limitKey.toList
  offset_stem : ¬ options.fieldsStem.toList <+: options.offsetKey.toList

variable (options : Options)

theorem BoundsApart.role_iff {options : Options} (h : options.BoundsApart) (key : String) :
    (options.role key = .limit ↔ key = options.limitKey) ∧
      (options.role key = .offset ↔ key = options.offsetKey) := by
  obtain ⟨hlimit, hoffset⟩ := options.key_of_role key
  obtain ⟨hdistinct, hl, ho, hlstem, hostem⟩ := h
  rw [← List.isPrefixOf_iff_prefix] at hlstem hostem
  simp only [List.mem_cons, List.not_mem_nil, or_false, not_or] at hl ho
  constructor
  · refine ⟨hlimit, ?_⟩
    rintro rfl
    rw [role, if_neg hl.1, if_neg hl.2, if_neg hlstem, if_pos rfl]
  · refine ⟨hoffset, ?_⟩
    rintro rfl
    rw [role, if_neg ho.1, if_neg ho.2, if_neg hostem, if_neg hdistinct.symm, if_pos rfl]

/-- Where a role has one key, its last value is that of the key. -/
theorem getLast?_values (role : Role) (key : String) (h : ∀ k, options.role k = role ↔ k = key)
    (params : List Param) :
    (options.values role params).getLast? = Page.lastValue? params key := by
  unfold values Page.lastValue?
  have hfilter : (fun param : Param => decide (options.role param.key = role)) = (·.key == key) := by
    funext param
    rw [Bool.eq_iff_iff, decide_eq_true_iff, beq_iff_eq]
    exact h param.key
  rw [hfilter, List.getLast?_map, List.getLast?_eq_head?_reverse, ← List.filter_reverse,
    List.head?_filter]

/-- The page of a query is that of its parameters as a table, and where the table has none there is no
query either. -/
theorem ofParams_of_readComponents (h : options.BoundsApart) (path : String) (params : List Param) :
    (∀ q, options.readComponents path params = .ok q →
      Page.ofParams options.limitKey options.offsetKey params = .ok q.page) ∧
    ∀ fault, Page.ofParams options.limitKey options.offsetKey params = .error fault →
      ∃ other, options.readComponents path params = .error other := by
  have hok : ∀ q, options.readComponents path params = .ok q →
      Page.ofParams options.limitKey options.offsetKey params = .ok q.page := by
    intro q hq
    obtain ⟨changes, hchanges, rfl⟩ := exists_of_map_eq_ok _ _ _ hq
    have hgathers := options.gathers_foldl_apply path params hchanges
    have hlimit := hgathers.limit
    have hoffset := hgathers.offset
    rw [options.getLast?_values _ _ fun key => (h.role_iff key).1] at hlimit
    rw [options.getLast?_values _ _ fun key => (h.role_iff key).2] at hoffset
    rw [Page.ofParams_eq_ok_iff, Page.readParam_eq_mapM, Page.readParam_eq_mapM]
    exact ⟨hlimit, hoffset⟩
  refine ⟨hok, fun fault hfault => ?_⟩
  cases hrc : options.readComponents path params with
  | error other => exact ⟨other, rfl⟩
  | ok q =>
    rw [hok q hrc] at hfault
    cases hfault

/-- Bounds that are repeated, mixed with each other and with other parameters. -/
theorem ofParams_of_readComponents_repeated :
    let options : Options := { limitKey := "size", offsetKey := "from", fieldsStem := "f[" }
    let params : List Param :=
      [⟨"from", "7"⟩, ⟨"size", "1e2"⟩, ⟨"other", "x"⟩, ⟨"size", "10.9"⟩, ⟨"from", "3"⟩]
    options.BoundsApart ∧
      ∃ q, options.readComponents "/users" params = .ok q ∧
        Page.ofParams "size" "from" params = .ok q.page ∧
        q.page = { limit := some 10, offset := some 3 } := by
  intro options params
  have hapart : options.BoundsApart :=
    ⟨by decide, by decide, by decide, by decide +kernel, by decide +kernel⟩
  have hpage : Page.ofParams "size" "from" params = .ok { limit := some 10, offset := some 3 } := by
    decide +kernel
  have hread : (options.readComponents "/users" params).isOk = true := by decide +kernel
  cases hq : options.readComponents "/users" params with
  | error fault =>
    rw [hq] at hread
    cases hread
  | ok q =>
    have hsame := (options.ofParams_of_readComponents hapart "/users" params).1 q hq
    exact ⟨hapart, q, rfl, hsame, Except.ok.inj (hsame.symm.trans hpage)⟩

end Options

end ResourceUrl
