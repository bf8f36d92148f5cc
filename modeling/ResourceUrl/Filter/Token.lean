import ResourceUrl.Error
import ResourceUrl.Filter.Group
import ResourceUrl.Text.Blank

/-!
# Tokens of a filter

Parentheses and delimiters divide the source of a filter into runs. A run that is not blank is a
condition, without the blanks around it; the mark that ends it is a token of its own. A condition has
to be divided from an opening parenthesis that follows it.

Runs are what facts about tokens go by. A scan that passes the characters one by one, with a buffer for
the run that is open, comes to the same tokens (`scan_eq_tokenize`).
-/

namespace ResourceUrl

/-- A character that gives a filter its structure. -/
inductive Mark where
  | opening
  | closing
  | delimiter (logical : Logical)
deriving DecidableEq, Repr

namespace Mark

def ofChar? (c : Char) : Option Mark :=
  if c = '(' then some .opening
  else if c = ')' then some .closing
  else if c = Logical.and.mark then some (.delimiter .and)
  else if c = Logical.or.mark then some (.delimiter .or)
  else none

def toChar : Mark → Char
  | .opening => '('
  | .closing => ')'
  | .delimiter logical => logical.mark

theorem ofChar?_toChar (m : Mark) : ofChar? m.toChar = some m := by
  cases m with
  | opening => rfl
  | closing => rfl
  | delimiter logical => cases logical <;> rfl

end Mark

inductive Token.Kind where
  | condition
  | mark (mark : Mark)
deriving DecidableEq, Repr

/-- A token with its text and the position in the source where it begins. A condition begins with
its run, blanks included. -/
structure Token where
  kind : Token.Kind
  text : String
  position : Nat
deriving DecidableEq, Repr

/-- A stretch of the source without marks, the position where it begins, and the mark that ends it;
the last one is ended by none. -/
structure Run where
  start : Nat
  text : List Char
  mark : Option Mark
deriving DecidableEq, Repr

namespace Run

/-- The runs of a source that begins at `position`: the first one and those after it. -/
def split (position : Nat) : List Char → Run × List Run
  | [] => (⟨position, [], none⟩, [])
  | c :: rest =>
    let (first, others) := split (position + 1) rest
    match Mark.ofChar? c with
    | some mark => (⟨position, [], some mark⟩, first :: others)
    | none => (⟨position, c :: first.text, first.mark⟩, others)

/-- The runs of a source, in order. -/
def all (source : List Char) : List Run :=
  let (first, others) := split 0 source
  first :: others

/-- The condition of a run, unless it is blank. -/
def condition? (run : Run) : Option Token :=
  let text := Text.trim run.text
  if text = [] then none else some ⟨.condition, .ofList text, run.start⟩

/-- The position after the text of a run, where its mark stands. -/
def stop (run : Run) : Nat :=
  run.start + run.text.length

def markToken? (run : Run) : Option Token :=
  run.mark.map fun mark => ⟨.mark mark, .ofList [mark.toChar], run.stop⟩

def tokens (run : Run) : Except ParseError (List Token) :=
  if run.condition?.isSome ∧ run.mark = some .opening then
    .error (.missingDelimiter (some run.stop))
  else .ok (run.condition?.toList ++ run.markToken?.toList)

end Run

/-- The tokens of a source; of several faults the first is reported. -/
def tokenize (source : String) : Except ParseError (List Token) :=
  ((Run.all source.toList).mapM Run.tokens).map List.flatten

end ResourceUrl
