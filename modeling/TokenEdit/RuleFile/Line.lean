import TokenEdit.Token.Lexer

/-!
# The lines of a rule file

A rule file is read line by line.  A line ends with its line feed and keeps it; the last line may
do without.  What a line is for is decided by how it starts: four marks are recognised, all of
them at the very start of the line, and what stands behind a mark is of no concern.

* `splitLines`: the lines of a text, with `flatten_splitLines` saying that nothing is lost.
* `LineKind.ofLine`: what a line is for.
-/

namespace TokenEdit.RuleFile

/-! ## Lines -/

/-- The lines of a text behind the part `seen` of its first line, which is given latest character
first. -/
def splitLinesFrom (seen : List Char) : List Char → List (List Char)
  | [] => if seen.isEmpty then [] else [seen.reverse]
  | c :: cs =>
    if c = '\n' then (c :: seen).reverse :: splitLinesFrom [] cs
    else splitLinesFrom (c :: seen) cs

/-- The lines of a text, each with its line feed. -/
def splitLines (cs : List Char) : List (List Char) :=
  splitLinesFrom [] cs

theorem flatten_splitLinesFrom (seen cs : List Char) :
    (splitLinesFrom seen cs).flatten = seen.reverse ++ cs := by
  induction cs generalizing seen with
  | nil => cases seen <;> simp [splitLinesFrom]
  | cons c cs ih => by_cases h : c = '\n' <;> simp [splitLinesFrom, h, ih]

/-- The lines make up the text. -/
theorem flatten_splitLines (cs : List Char) : (splitLines cs).flatten = cs :=
  flatten_splitLinesFrom [] cs

/-! ## What a line is for -/

/-- The kinds of lines. -/
inductive LineKind where
  /-- Opens a block. -/
  | opener
  /-- Closes a block. -/
  | closer
  /-- Stands between a pattern and its template. -/
  | arrow
  /-- A comment, where blocks are separated; part of the section within a block. -/
  | comment
  /-- Nothing but blanks. -/
  | blank
  /-- Anything else. -/
  | text
  deriving DecidableEq

/-- What a line is for. -/
def LineKind.ofLine (line : List Char) : LineKind :=
  if ['@', '@', '{'].isPrefixOf line then opener
  else if ['}', '@', '@'].isPrefixOf line then closer
  else if ['=', '>'].isPrefixOf line then arrow
  else if ['/', '/'].isPrefixOf line then comment
  else if line.all isBlankChar then blank
  else text

end TokenEdit.RuleFile
