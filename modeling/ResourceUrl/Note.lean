import ResourceUrl.Text.Quoted
import ResourceUrl.Value.Basic

/-!
# Notes

What a caller says about an error in words of its own: any number of values and flags, which
`Note.join` makes into one text.
-/

namespace ResourceUrl

/-- A value or a flag. -/
inductive Note where
  | value (value : Value)
  | flag (value : Bool)
deriving DecidableEq, Repr

namespace Note

/-- The note as one of several: a text is quoted, and null and flags go by their names. -/
def quoted : Note → String
  | .value .null => "None"
  | .value (.text s) => Text.Quoted.quote s
  | .value v => v.render
  | .flag true => "True"
  | .flag false => "False"

/-- The note on its own: a text is left as it is. -/
def alone : Note → String
  | .value (.text s) => s
  | note => note.quoted

/-- Notes as one text: nothing, the only note, or all of them in parentheses. -/
def join : List Note → String
  | [] => ""
  | [note] => note.alone
  | notes => "(" ++ ", ".intercalate (notes.map quoted) ++ ")"

/-! ## Written forms -/

example : join [.value (.text "it's")] = "it's" := by decide +kernel

example : join [.value (.int 1), .value (.text "it's"), .flag true] = "(1, \"it's\", True)" := by
  decide +kernel

end Note

end ResourceUrl
