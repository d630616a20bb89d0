import TokenEdit.Bindings
import TokenEdit.Pattern
import TokenEdit.Span

/-!
# Occurrences of a pattern

A pattern occurs at the start of a list of tokens when its items do, one behind the other.  Every
item may have delimiters in front of it; which of them stand there means nothing.  An item takes
the first tokens that fit and never gives them back.

The captures of the items are bound on the way, so an item that does not occur is noticed only
when the items before it have bound their names already.  An attempt at the whole pattern
therefore remembers the journal at its start, and takes all captures back when it fails.

* `Item.match?`: one item.
* `Item.matchAll`: items one behind the other, up to the first that does not occur.
* `Pattern.attempt`: the whole pattern, or nothing.
-/

namespace TokenEdit

/-! ## One item -/

namespace Item

/-- Matches an item against tokens that do not start with a delimiter.  A literal looks at the
text of a token and not at its kind. -/
def matchHere? (b : Bindings) : Item → List Token → Option (Nat × Bindings)
  | _, [] => none
  | literal l, t :: _ => if t.text = l.text then some (1, b) else none
  | ident name, t :: _ =>
    if t.kind = .identifier then (b.bind? name [t]).map fun b => (1, b) else none
  | expr name terminator, ts => do
    let length ← spanLength? terminator.text ts
    let b ← b.bind? name (ts.take length)
    return (length + 1, b)

/-- Matches an item, with any delimiters in front of it. -/
def match? (b : Bindings) (item : Item) (ts : List Token) : Option (Nat × Bindings) :=
  (item.matchHere? b (ts.dropWhile Token.isDelimiter)).map fun (taken, b) =>
    ((ts.takeWhile Token.isDelimiter).length + taken, b)

/-- Matches items one behind the other, up to the first that does not occur.  The number of tokens
taken is there only if all items occur; the bindings have the captures made until then. -/
def matchAll (b : Bindings) : List Item → List Token → Option Nat × Bindings
  | [], _ => (some 0, b)
  | item :: items, ts =>
    match item.match? b ts with
    | none => (none, b)
    | some (taken, b) =>
      let (more, b) := matchAll b items (ts.drop taken)
      (more.map (taken + ·), b)

end Item

/-! ## The whole pattern -/

/-- Looks for a pattern at the start of a list: the number of tokens that the occurrence takes, if
there is one, and the bindings afterwards.  Where there is none, the captures are taken back. -/
def Pattern.attempt (b : Bindings) (p : Pattern) (ts : List Token) : Option Nat × Bindings :=
  match Item.matchAll b p.items ts with
  | (some taken, b') => (some taken, b')
  | (none, b') => (none, b'.rollback b.checkpoint)

end TokenEdit
