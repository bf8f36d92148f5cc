import ResourceUrl.Text.Hex
import ResourceUrl.Text.Visible

/-!
# Quoted text

A text between quotation marks, on one line and in visible characters: the form in which messages
show keys and hosts. A hidden character is shown by its number.
-/

namespace ResourceUrl.Text.Quoted

/-- The quotation mark: an apostrophe, unless the text holds apostrophes and no double quotes. -/
def mark (text : List Char) : Char :=
  if text.contains '\x27' && !text.contains '"' then '"' else '\x27'

/-- A character by its number: two, four or eight hexadecimal digits, as few as hold it, after the
letter that tells how many. -/
def byNumber (c : Char) : List Char :=
  if c.toNat < 0x100 then '\\' :: 'x' :: Hex.lowerDigits 2 c.toNat
  else if c.toNat < 0x10000 then '\\' :: 'u' :: Hex.lowerDigits 4 c.toNat
  else '\\' :: 'U' :: Hex.lowerDigits 8 c.toNat

/-- A character between two marks: the mark and the backslash after a backslash, the ends of lines
and the tabulator by name, every other hidden character by its number. -/
def encodeChar (mark c : Char) : List Char :=
  if c = mark ∨ c = '\\' then ['\\', c]
  else if c = '\n' then ['\\', 'n']
  else if c = '\r' then ['\\', 'r']
  else if c = '\t' then ['\\', 't']
  else if isVisible c then [c]
  else byNumber c

def encode (text : List Char) : List Char :=
  mark text :: (text.flatMap (encodeChar (mark text)) ++ [mark text])

def quote (text : String) : String :=
  .ofList (encode text.toList)

/-! ## Written forms -/

example : encode ['a', '\x27', '"'] = ['\x27', 'a', '\\', '\x27', '"', '\x27'] := by decide +kernel

example : encode ['\x27', 'é'] = ['"', '\x27', 'é', '"'] := by decide +kernel

example : byNumber '\xAD' = ['\\', 'x', 'a', 'd'] := by decide +kernel

example : byNumber '\u200B' = ['\\', 'u', '2', '0', '0', 'b'] := by decide +kernel

example : byNumber (Char.ofNat 0xE0001) = ['\\', 'U', '0', '0', '0', 'e', '0', '0', '0', '1'] := by
  decide +kernel

end ResourceUrl.Text.Quoted
