import TokenEdit.Token

/-!
# Spans

A span is the run of tokens in front of a terminator.  Round and curly brackets protect what they
enclose: a region that one of them opens belongs to the span up to its closing bracket, and a
terminator inside it does not count.  Square brackets protect nothing.

`spanLength?` walks over the tokens once and keeps the closing brackets it waits for, innermost
first.  The token waited for is looked at before anything else, so a terminator that is itself an
opening bracket ends the span, and a closing bracket that nothing waits for is an ordinary token.
-/

namespace TokenEdit

/-- The closing bracket of the region that a token text opens. -/
def regionEnd? : List Char → Option (List Char)
  | ['('] => some [')']
  | ['{'] => some ['}']
  | _ => none

/-- The number of tokens in front of the terminator, when `passed` tokens are already behind and
the brackets `closers` are waited for, innermost first. -/
def spanLengthFrom? (terminator : List Char) (passed : Nat) (closers : List (List Char)) :
    List Token → Option Nat
  | [] => none
  | t :: ts =>
    if t.text = closers.headD terminator then
      match closers with
      | [] => some passed
      | _ :: outer => spanLengthFrom? terminator (passed + 1) outer ts
    else
      spanLengthFrom? terminator (passed + 1) ((regionEnd? t.text).toList ++ closers) ts

@[simp] theorem spanLengthFrom?_nil (terminator : List Char) (passed : Nat)
    (closers : List (List Char)) : spanLengthFrom? terminator passed closers [] = none := by
  rw [spanLengthFrom?.eq_def]

/-- The terminator, where no bracket is waited for, ends the span. -/
theorem spanLengthFrom?_terminator {terminator : List Char} {t : Token} (ht : t.text = terminator)
    (passed : Nat) (ts : List Token) :
    spanLengthFrom? terminator passed [] (t :: ts) = some passed := by
  simp [spanLengthFrom?, ht]

/-- The bracket waited for ends its region. -/
theorem spanLengthFrom?_closer {closer : List Char} {t : Token} (ht : t.text = closer)
    (terminator : List Char) (passed : Nat) (outer : List (List Char)) (ts : List Token) :
    spanLengthFrom? terminator passed (closer :: outer) (t :: ts) =
      spanLengthFrom? terminator (passed + 1) outer ts := by
  simp [spanLengthFrom?, ht]

/-- Any other token is passed, and may open a region. -/
theorem spanLengthFrom?_other {terminator : List Char} {closers : List (List Char)} {t : Token}
    (ht : t.text ≠ closers.headD terminator) (passed : Nat) (ts : List Token) :
    spanLengthFrom? terminator passed closers (t :: ts) =
      spanLengthFrom? terminator (passed + 1) ((regionEnd? t.text).toList ++ closers) ts := by
  cases closers <;> simp_all [spanLengthFrom?]

/-- The number of tokens in front of the first unprotected token whose text is `terminator`. -/
def spanLength? (terminator : List Char) (ts : List Token) : Option Nat :=
  spanLengthFrom? terminator 0 [] ts

end TokenEdit
