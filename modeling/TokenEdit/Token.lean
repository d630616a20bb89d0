/-!
# Tokens

A source text is worked on as a list of tokens.  A token is a piece of the text together with the
class of that piece, and the pieces of a list, read in order, are the text itself: layout and
comments are tokens like all others, so nothing is lost between reading a text and writing it.

* `Kind.isDelimiter`: the classes of layout.  A delimiter only separates; `Token.significant`
  is the view of a list that forgets them.
* `Token.render`: the text of a list.
* `Token.sameSignificant`: equality of two lists up to layout.
* `columnAfter`: the column reached by a text.
-/

namespace TokenEdit

/-! ## Columns -/

/-- The column after `text`, when it starts at `column`: a line feed goes back to column zero and
every other character moves one column to the right. -/
def columnAfter (column : Nat) (text : List Char) : Nat :=
  text.foldl (fun column c => if c = '\n' then 0 else column + 1) column

@[simp] theorem columnAfter_nil (column : Nat) : columnAfter column [] = column := rfl

@[simp] theorem columnAfter_append (column : Nat) (left right : List Char) :
    columnAfter column (left ++ right) = columnAfter (columnAfter column left) right :=
  List.foldl_append ..

/-! ## Kinds -/

/-- The classes of tokens. -/
inductive Kind where
  /-- A single line feed. -/
  | newline
  /-- A run of blanks; a line feed after its first character belongs to the run. -/
  | whitespace
  /-- A comment that ends with its line. -/
  | lineComment
  /-- A comment between two marks. -/
  | blockComment
  /-- A word: letters, digits and underscores, not starting with a digit. -/
  | identifier
  /-- A run of digits. -/
  | number
  /-- One round, square or curly bracket. -/
  | bracket
  /-- Any other single character. -/
  | other
  deriving DecidableEq

namespace Kind

/-- Delimiters are the classes that carry layout only. -/
def isDelimiter : Kind → Bool
  | newline | whitespace | lineComment | blockComment => true
  | identifier | number | bracket | other => false

/-- The name under which a class is listed. -/
def name : Kind → String
  | newline => "newline"
  | whitespace => "whitespace"
  | lineComment => "line-comment"
  | blockComment => "block-comment"
  | identifier => "identifier"
  | number => "number"
  | bracket => "bracket"
  | other => "other"

end Kind

/-! ## Tokens and lists of tokens -/

/-- A piece of text with its class.  Nothing forces the two to agree: a list of tokens may come
from elsewhere than from a text. -/
structure Token where
  kind : Kind
  text : List Char
  deriving DecidableEq

namespace Token

/-- A token of layout. -/
def isDelimiter (t : Token) : Bool :=
  t.kind.isDelimiter

/-- The blank token of `width` spaces. -/
def spaces (width : Nat) : Token :=
  ⟨.whitespace, List.replicate width ' '⟩

@[simp] theorem isDelimiter_spaces (width : Nat) : (spaces width).isDelimiter = true := rfl

/-- The text of a list of tokens. -/
def render (ts : List Token) : List Char :=
  ts.flatMap text

@[simp] theorem render_nil : render [] = [] := rfl

@[simp] theorem render_cons (t : Token) (ts : List Token) :
    render (t :: ts) = t.text ++ render ts := rfl

@[simp] theorem render_append (left right : List Token) :
    render (left ++ right) = render left ++ render right :=
  List.flatMap_append ..

/-- What is left of a list when its delimiters are dropped. -/
def significant (ts : List Token) : List Token :=
  ts.filter fun t => !t.isDelimiter

@[simp] theorem significant_append (left right : List Token) :
    significant (left ++ right) = significant left ++ significant right :=
  List.filter_append ..

/-- The texts of the significant tokens, in order. -/
def significantTexts (ts : List Token) : List (List Char) :=
  (significant ts).map text

@[simp] theorem significantTexts_append (left right : List Token) :
    significantTexts (left ++ right) = significantTexts left ++ significantTexts right := by
  simp only [significantTexts, significant_append, List.map_append]

/-- Equality up to layout: the same significant texts in the same order. -/
def sameSignificant (left right : List Token) : Bool :=
  significantTexts left == significantTexts right

theorem sameSignificant_iff {left right : List Token} :
    sameSignificant left right = true ↔ significantTexts left = significantTexts right :=
  beq_iff_eq

end Token

end TokenEdit
