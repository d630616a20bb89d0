import TokenEdit.Bindings
import TokenEdit.Token.Lexer

/-!
# Templates

A template is what takes the place of an occurrence.  All its tokens count, layout included.  A
token whose text is a bound name stands for the captured tokens, and every line that the template
starts is moved to the column at which the occurrence stands.
-/

namespace TokenEdit

/-- The tokens to put in; none at all when the occurrence is to be deleted. -/
structure Template where
  tokens : List Token
  deriving DecidableEq

namespace Template

/-- The template without tokens. -/
def empty : Template :=
  ⟨[]⟩

/-- Whether a template puts in nothing. -/
def isEmpty (t : Template) : Bool :=
  t.tokens.isEmpty

/-- The template that a text says. -/
def ofText (text : List Char) : Template :=
  ⟨tokenize text⟩

/-- What stands behind a template token in the expansion: the margin of a new line.  Only a token
of its own starts a line, not a line feed within a run of blanks. -/
def margin (indent : Nat) (t : Token) : List Token :=
  if t.kind = .newline ∧ indent ≠ 0 then [Token.spaces indent] else []

/-- One template token in the expansion. -/
def expandToken (b : Bindings) (indent : Nat) (t : Token) : List Token :=
  (b.get? t.text).getD [t] ++ margin indent t

/-- The template with captures put in for bound names and new lines moved to column `indent`. -/
def expand (b : Bindings) (indent : Nat) (t : Template) : List Token :=
  t.tokens.flatMap (expandToken b indent)

@[simp] theorem expand_empty (b : Bindings) (indent : Nat) : empty.expand b indent = [] := rfl

end Template

end TokenEdit
