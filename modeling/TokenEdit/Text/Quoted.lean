import TokenEdit.Text.ExtendingMark
import TokenEdit.Text.Graphic
import TokenEdit.Text.Ignorable

/-!
# Quoted text

A text is shown between double quotes so that every character of it can be seen: a character that
would not be drawn, or would be drawn together with its neighbour, is written as its code point.
A quoted text has no line feed, so it fits on the line that shows it.
-/

namespace TokenEdit.Text

/-- A character that is shown as it is: a space, or a graphic character that is drawn and stands
for itself. -/
def isShown (c : Char) : Bool :=
  c = ' ' || (isGraphic c && !isExtendingMark c && !isIgnorable c)

/-- A character as its code point in hexadecimal digits. -/
def codePoint (c : Char) : List Char :=
  ['\\', 'u', '{'] ++ Nat.toDigits 16 c.toNat ++ ['}']

/-- A character within a quoted text. -/
def quoteChar (c : Char) : List Char :=
  if c = '\x00' then ['\\', '0']
  else if c = '\t' then ['\\', 't']
  else if c = '\r' then ['\\', 'r']
  else if c = '\n' then ['\\', 'n']
  else if c = '"' ∨ c = '\\' then ['\\', c]
  else if isShown c then [c]
  else codePoint c

/-- A text between double quotes. -/
def quoted (cs : List Char) : List Char :=
  '"' :: cs.flatMap quoteChar ++ ['"']

end TokenEdit.Text
