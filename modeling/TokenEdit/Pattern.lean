import TokenEdit.Token.Lexer

/-!
# Patterns

A pattern says what to look for in a list of tokens.  It is a nonempty list of items: a token that
has to appear as it stands, or a placeholder that captures what it finds under a name.

* `ID name` captures one identifier.
* `EXPR name end` captures everything up to the token `end`, which is not part of the capture.

Patterns are written as program text.  `Pattern.ofText` cuts such a text into tokens and drops the
delimiters, so that the layout of a written pattern means nothing; `Pattern.display` writes a
pattern with one blank between its tokens.
-/

namespace TokenEdit

/-! ## Items -/

/-- The two placeholders. -/
inductive Placeholder where
  | ident
  | expr
  deriving DecidableEq

/-- The word that a placeholder is written as. -/
def Placeholder.word : Placeholder → List Char
  | ident => ['I', 'D']
  | expr => ['E', 'X', 'P', 'R']

/-- One element of a pattern. -/
inductive Item where
  /-- A token that has to appear with this text. -/
  | literal (token : Token)
  /-- One identifier, captured as `name`. -/
  | ident (name : List Char)
  /-- The tokens up to one with the text of `terminator`, captured as `name`. -/
  | expr (name : List Char) (terminator : Token)
  deriving DecidableEq

namespace Item

/-- The name under which an item captures. -/
def captureName? : Item → Option (List Char)
  | literal _ => none
  | ident name | expr name _ => some name

/-- An item as it is written. -/
def display : Item → List Char
  | literal t => t.text
  | ident name => Placeholder.ident.word ++ ' ' :: name
  | expr name terminator => Placeholder.expr.word ++ ' ' :: name ++ ' ' :: terminator.text

end Item

/-! ## What is wrong with a written pattern -/

/-- The reasons why a text is no pattern. -/
inductive PatternError where
  /-- There is nothing to look for. -/
  | empty
  /-- A placeholder without an identifier behind it. -/
  | missingCaptureName (placeholder : Placeholder)
  /-- A capture of tokens without the token that ends it. -/
  | missingTerminator (name : List Char)
  deriving DecidableEq

/-- The message for a faulty pattern. -/
def PatternError.message : PatternError → String
  | empty => "pattern is empty"
  | missingCaptureName placeholder =>
    String.ofList placeholder.word ++ " must be followed by a capture name"
  | missingTerminator name =>
    "EXPR " ++ String.ofList name ++ " must be followed by a terminator token"

/-! ## Patterns -/

/-- What to look for: at least one item. -/
structure Pattern where
  items : List Item
  items_ne_nil : items ≠ []
  deriving DecidableEq

namespace Pattern

/-- The names that a pattern captures, in the order of their first appearance. -/
def captureNames (p : Pattern) : List (List Char) :=
  (p.items.filterMap Item.captureName?).eraseDups

/-- A pattern as it is written, with a blank between its items. -/
def display (p : Pattern) : List Char :=
  [' '].intercalate (p.items.map Item.display)

/-- The pattern with the given items. -/
def ofItems (items : List Item) : Except PatternError Pattern :=
  if h : items = [] then .error .empty else .ok ⟨items, h⟩

end Pattern

/-! ## Reading a pattern -/

/-- The capture name that the token behind a placeholder gives. -/
def Placeholder.captureName (placeholder : Placeholder) (t : Token) :
    Except PatternError (List Char) :=
  if t.kind = .identifier then .ok t.text else .error (.missingCaptureName placeholder)

/-- Reads significant tokens as items.  The word behind a placeholder is a name whatever it says,
and the token behind the name of an `EXPR` ends the capture whatever it is. -/
def Item.ofTokens : List Token → Except PatternError (List Item)
  | [] => .ok []
  | t :: ts =>
    if t.text = Placeholder.ident.word then
      match ts with
      | [] => .error (.missingCaptureName .ident)
      | nameToken :: ts => do
        let name ← Placeholder.ident.captureName nameToken
        let items ← ofTokens ts
        return .ident name :: items
    else if t.text = Placeholder.expr.word then
      match ts with
      | [] => .error (.missingCaptureName .expr)
      | [nameToken] => do
        let name ← Placeholder.expr.captureName nameToken
        .error (.missingTerminator name)
      | nameToken :: terminator :: ts => do
        let name ← Placeholder.expr.captureName nameToken
        let items ← ofTokens ts
        return .expr name terminator :: items
    else do
      let items ← ofTokens ts
      return .literal t :: items

/-- The pattern that a text says. -/
def Pattern.ofText (text : List Char) : Except PatternError Pattern := do
  Pattern.ofItems (← Item.ofTokens (Token.significant (tokenize text)))

end TokenEdit
