import ResourceUrl.Error
import ResourceUrl.Text.Split

/-!
# Field selections

Which columns of which resource are wanted: `resource:column,column`. Selections are kept by
resource in the order in which the resources first appear, and a later selection of the same resource
takes the place of the earlier one (`Fields.insert`).
-/

namespace ResourceUrl

/-- The columns wanted of one resource. -/
structure Selection where
  resource : String
  columns : List String
deriving DecidableEq, Repr

namespace Selection

/-- Reads a fields parameter. Resource and columns are divided at the first colon, and neither may be
empty. -/
def read (value : String) : Except ParseError Selection :=
  let (resource, columns) := Text.cut ':' value.toList
  if resource = [] ∨ columns = [] then .error (.invalidFields value)
  else .ok { resource := .ofList resource, columns := Text.pieces ',' (.ofList columns) }

def render (s : Selection) : String :=
  s.resource ++ ":" ++ ",".intercalate s.columns

/-- Puts a selection in the place of the one for the same resource, or at the end. -/
def insertInto (s : Selection) : List Selection → List Selection
  | [] => [s]
  | t :: rest => if t.resource = s.resource then s :: rest else t :: s.insertInto rest

/-! ## Lemmas -/

theorem mem_insertInto {s t : Selection} {entries : List Selection}
    (h : t ∈ s.insertInto entries) : t = s ∨ t ∈ entries := by
  induction entries with
  | nil => exact Or.inl (by simpa [insertInto] using h)
  | cons u rest ih =>
    unfold insertInto at h
    split at h
    · rcases List.mem_cons.mp h with rfl | h
      · exact Or.inl rfl
      · exact Or.inr (List.mem_cons_of_mem _ h)
    · rcases List.mem_cons.mp h with rfl | h
      · exact Or.inr List.mem_cons_self
      · exact (ih h).imp id (List.mem_cons_of_mem _)

theorem pairwise_insertInto (s : Selection) {entries : List Selection}
    (h : entries.Pairwise (·.resource ≠ ·.resource)) :
    (s.insertInto entries).Pairwise (·.resource ≠ ·.resource) := by
  induction entries with
  | nil => simp [insertInto]
  | cons t rest ih =>
    obtain ⟨head, tail⟩ := List.pairwise_cons.mp h
    unfold insertInto
    split
    · rename_i same
      exact List.pairwise_cons.mpr ⟨fun u hu => same ▸ head u hu, tail⟩
    · rename_i other
      refine List.pairwise_cons.mpr ⟨fun u hu => ?_, ih tail⟩
      rcases mem_insertInto hu with rfl | hu
      · exact other
      · exact head u hu

end Selection

/-- The selections of a query, at most one for each resource. -/
structure Fields where
  entries : List Selection
  distinct : entries.Pairwise (·.resource ≠ ·.resource)
deriving DecidableEq

namespace Fields

/-- No selection: every column of every resource. -/
def empty : Fields :=
  { entries := [], distinct := .nil }

/-- Adds a selection, which replaces an earlier one of the same resource in its place. -/
def insert (fields : Fields) (s : Selection) : Fields :=
  { entries := s.insertInto fields.entries, distinct := s.pairwise_insertInto fields.distinct }

def ofList (selections : List Selection) : Fields :=
  selections.foldl insert empty

def get? (fields : Fields) (resource : String) : Option (List String) :=
  (fields.entries.find? (·.resource == resource)).map (·.columns)

/-- The same columns for the same resources, in whatever order. -/
def sameAs (f g : Fields) : Bool :=
  f.entries.length == g.entries.length &&
    f.entries.all fun s => g.get? s.resource == some s.columns

end Fields

end ResourceUrl
