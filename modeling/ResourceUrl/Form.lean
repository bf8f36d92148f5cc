import ResourceUrl.Percent
import ResourceUrl.Text.Split

/-!
# Query parameters as text

A query string holds parameters `key=value` between ampersands. `Form.write` escapes keys and values,
a blank included, so that nothing in them is taken for a separator; `Form.read` also takes a plus
sign for a space and skips empty parameters. It gives back what was written (`Form.read_write`).
-/

namespace ResourceUrl

structure Param where
  key : String
  value : String
deriving DecidableEq, Repr

namespace Form

def component (text : List Char) : String :=
  .ofList (Percent.decode (text.map fun c => if c = '+' then ' ' else c))

/-- Reads one parameter; without an equals sign the value is empty. -/
def readParam (text : List Char) : Param :=
  let (key, value) := Text.cut '=' text
  { key := component key, value := component value }

def read (text : List Char) : List Param :=
  ((text.splitOn '&').filter (· ≠ [])).map readParam

def writeParam (safe : List Char) (param : Param) : List Char :=
  Percent.encode safe param.key.toList ++ '=' :: Percent.encode safe param.value.toList

/-- Writes parameters in order, keeping the characters of `safe`. -/
def write (safe : List Char) (params : List Param) : List Char :=
  ['&'].intercalate (params.map (writeParam safe))

/-! ## Lemmas -/

/-- The characters that an encoded key or value must not hold. -/
def separators : List Char :=
  ['%', '&', '=', '+']

theorem not_mem_encode {safe text : List Char} (h : ∀ c ∈ separators, c ∉ safe) {c : Char}
    (hc : c ∈ separators) (notSign : c ≠ '%') : c ∉ Percent.encode safe text := by
  have reserved : separators.all (!Percent.isUnreserved ·) = true := by decide
  have hr : Percent.isUnreserved c = false := by simpa using List.all_eq_true.mp reserved c hc
  exact Percent.not_mem_encode hr (h c hc) notSign

theorem component_encode {safe : List Char} (h : ∀ c ∈ separators, c ∉ safe) (s : String) :
    component (Percent.encode safe s.toList) = s := by
  have noPlus : '+' ∉ Percent.encode safe s.toList := not_mem_encode h (by decide) (by decide)
  have same : (Percent.encode safe s.toList).map (fun c => if c = '+' then ' ' else c) =
      Percent.encode safe s.toList := by
    rw [List.map_congr_left (g := id), List.map_id]
    intro c hc
    rw [if_neg, id]
    rintro rfl
    exact noPlus hc
  rw [component, same, Percent.decode_encode (h '%' (by decide)), String.ofList_toList]

theorem readParam_writeParam {safe : List Char} (h : ∀ c ∈ separators, c ∉ safe) (param : Param) :
    readParam (writeParam safe param) = param := by
  simp only [readParam, writeParam, Text.cut_append (not_mem_encode h (c := '=') (by decide) (by decide)),
    component_encode h]

/-- Parameters that were written are read as they were, whatever their keys and values. -/
theorem read_write {safe : List Char} (h : ∀ c ∈ separators, c ∉ safe) (params : List Param) :
    read (write safe params) = params := by
  by_cases empty : params = []
  · subst empty
    rfl
  have whole : ∀ text ∈ params.map (writeParam safe), '&' ∉ text := by
    intro text ht
    obtain ⟨param, -, rfl⟩ := List.mem_map.mp ht
    have absent (s : String) : '&' ∉ Percent.encode safe s.toList :=
      not_mem_encode h (by decide) (by decide)
    simp [writeParam, absent]
  have filled : (params.map (writeParam safe)).filter (· ≠ []) = params.map (writeParam safe) := by
    rw [List.filter_eq_self]
    intro text ht
    obtain ⟨param, -, rfl⟩ := List.mem_map.mp ht
    simp [writeParam]
  rw [read, write, List.splitOn_intercalate '&' whole (by simpa using empty), filled, List.map_map]
  rw [List.map_congr_left (g := id), List.map_id]
  intro param _
  exact readParam_writeParam h param

end Form

end ResourceUrl
