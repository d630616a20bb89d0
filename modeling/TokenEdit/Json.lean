/-!
# Structured output

Reports and listings are also written as JSON.  The values needed are texts, natural numbers,
lists and objects; they are written over several lines, one item a line, with two blanks of
indentation for every level.
-/

namespace TokenEdit

/-- A value to be written.  The members of an object are written in the order given. -/
inductive Json where
  | text (cs : List Char)
  | number (n : Nat)
  | list (items : List Json)
  | object (members : List (String × Json))

namespace Json

/-- A control character as four hexadecimal digits. -/
def controlCode (c : Char) : List Char :=
  let digits := Nat.toDigits 16 c.toNat
  ['\\', 'u'] ++ List.replicate (4 - digits.length) '0' ++ digits

/-- A character within a text. -/
def escapeChar (c : Char) : List Char :=
  if c = '"' ∨ c = '\\' then ['\\', c]
  else if c = '\x08' then ['\\', 'b']
  else if c = '\x0c' then ['\\', 'f']
  else if c = '\n' then ['\\', 'n']
  else if c = '\r' then ['\\', 'r']
  else if c = '\t' then ['\\', 't']
  else if c.toNat < 0x20 then controlCode c
  else [c]

/-- A text between double quotes. -/
def writeText (cs : List Char) : List Char :=
  '"' :: cs.flatMap escapeChar ++ ['"']

/-- The start of a line. -/
def newLine (indent : Nat) : List Char :=
  '\n' :: List.replicate indent ' '

/-- Items between brackets, one a line and two columns behind `indent`. -/
def enclose (opening closing : Char) (indent : Nat) (items : List (List Char)) : List Char :=
  if items.isEmpty then [opening, closing]
  else
    opening :: newLine (indent + 2) ++ (',' :: newLine (indent + 2)).intercalate items
      ++ newLine indent ++ [closing]

/-- A value as it is written when its first line starts at column `indent`. -/
def writeAt (indent : Nat) : Json → List Char
  | text cs => writeText cs
  | number n => Nat.toDigits 10 n
  | list items =>
    enclose '[' ']' indent (items.attach.map fun ⟨item, _⟩ => item.writeAt (indent + 2))
  | object members =>
    enclose '{' '}' indent (members.attach.map fun ⟨(key, value), _⟩ =>
      writeText key.toList ++ ':' :: ' ' :: value.writeAt (indent + 2))
termination_by value => sizeOf value
decreasing_by
  · have := List.sizeOf_lt_of_mem ‹_›
    simp only [list.sizeOf_spec]
    omega
  · have := List.sizeOf_lt_of_mem ‹_›
    simp only [object.sizeOf_spec, Prod.mk.sizeOf_spec] at this ⊢
    omega

/-- A value as it is written. -/
def write (value : Json) : List Char :=
  value.writeAt 0

end Json

end TokenEdit
