import TokenEdit.Json
import TokenEdit.Text.Quoted
import TokenEdit.Token.Lexer

/-!
# Listings of tokens

A listing shows how a text is cut: one line for every token, with the place of its first
character, its class and its text.  Lines and columns are counted from one, and a column is a
character.  The same list can be written as JSON, without the places.
-/

namespace TokenEdit

/-! ## Places -/

/-- A place in a text: the number of its line, from one, and the number of characters in front of
it on that line. -/
structure Place where
  line : Nat
  column : Nat
  deriving DecidableEq

namespace Place

/-- The start of a text. -/
def start : Place :=
  ⟨1, 0⟩

/-- The place behind `text`, when it starts at `p`. -/
def after (p : Place) (text : List Char) : Place :=
  ⟨p.line + text.count '\n', columnAfter p.column text⟩

@[simp] theorem after_nil (p : Place) : p.after [] = p := rfl

@[simp] theorem after_append (p : Place) (left right : List Char) :
    p.after (left ++ right) = (p.after left).after right := by
  simp only [after, List.count_append, columnAfter_append, Nat.add_assoc]

end Place

/-! ## The listing -/

namespace Token

/-- The line of a listing for a token that starts at `p`. -/
def listingLine (p : Place) (t : Token) : List Char :=
  Nat.toDigits 10 p.line ++ ':' :: Nat.toDigits 10 (p.column + 1) ++ ' ' :: t.kind.name.toList
    ++ ' ' :: Text.quoted t.text ++ ['\n']

/-- The lines of a listing, latest first, and the place behind it, after one more token. -/
def listNext (listed : Place × List (List Char)) (t : Token) : Place × List (List Char) :=
  (listed.1.after t.text, listingLine listed.1 t :: listed.2)

/-- The listing of tokens. -/
def listing (ts : List Token) : List Char :=
  (ts.foldl listNext (Place.start, [])).2.reverse.flatten

/-- A token as JSON. -/
def toJson (t : Token) : Json :=
  .object [("kind", .text t.kind.name.toList), ("text", .text t.text)]

/-- A list of tokens as JSON. -/
def listToJson (ts : List Token) : Json :=
  .list (ts.map toJson)

end Token

/-- The ways to list tokens. -/
inductive ListingFormat where
  | plain
  | json
  deriving DecidableEq

/-- The listing of a text. -/
def listText (format : ListingFormat) (source : List Char) : List Char :=
  match format with
  | .plain => Token.listing (tokenize source)
  | .json => (Token.listToJson (tokenize source)).write

end TokenEdit
