import TokenEdit.Token

/-!
# Cutting a text into tokens

The first character of a text decides, together with the second one where it is a slash, the
class of the first token; the token is then as long as its class allows.  Every character starts
some token, so cutting never fails.

* `Token.first`: the first token of a nonempty text and what follows it.
* `tokenize`: all tokens, with `tokenize_cons` as its recursion and `render_tokenize` saying that
  the texts of the tokens are the text.

The end of a block comment is looked for from the slash of its opening mark onwards, so the star
of that mark may also be the star of the closing one: three characters can be a whole comment.
-/

namespace TokenEdit

/-! ## Classes of characters -/

/-- The characters of a blank run. -/
def isBlankChar (c : Char) : Bool :=
  c = ' ' || c = '\t' || c = '\n' || c = '\r'

/-- The characters that start a word. -/
def isWordStart (c : Char) : Bool :=
  c.isAlpha || c = '_'

/-- The characters that continue a word. -/
def isWordChar (c : Char) : Bool :=
  c.isAlphanum || c = '_'

/-- The six brackets. -/
def isBracketChar (c : Char) : Bool :=
  c = '(' || c = ')' || c = '[' || c = ']' || c = '{' || c = '}'

theorem isWordChar_of_isWordStart {c : Char} (h : isWordStart c = true) : isWordChar c = true := by
  simp only [isWordStart, isWordChar, Char.isAlphanum, Bool.or_eq_true] at h ⊢
  exact h.imp_left Or.inl

/-! ## The end of a block comment -/

/-- Cuts a text behind the first star that a slash follows; the whole text comes first when there
is none.  `seen` holds the characters already passed, latest first. -/
def cutAtCommentEnd (seen : List Char) : List Char → List Char × List Char
  | [] => (seen.reverse, [])
  | '*' :: '/' :: rest => (('/' :: '*' :: seen).reverse, rest)
  | c :: rest => cutAtCommentEnd (c :: seen) rest

theorem cutAtCommentEnd_append (seen cs : List Char) :
    (cutAtCommentEnd seen cs).1 ++ (cutAtCommentEnd seen cs).2 = seen.reverse ++ cs := by
  fun_induction cutAtCommentEnd seen cs with
  | case1 => rfl
  | case2 => simp
  | case3 seen c rest _ ih => simp [ih]

theorem length_cutAtCommentEnd (seen cs : List Char) :
    seen.length ≤ (cutAtCommentEnd seen cs).1.length := by
  fun_induction cutAtCommentEnd seen cs with
  | case1 => simp
  | case2 => simp only [List.length_reverse, List.length_cons]; omega
  | case3 seen c rest _ ih => simp only [List.length_cons] at ih; omega

/-! ## The first token -/

namespace Token

/-- The token that takes as many characters satisfying `p` as there are, and what follows. -/
def run (kind : Kind) (p : Char → Bool) (cs : List Char) : Token × List Char :=
  (⟨kind, cs.takeWhile p⟩, cs.dropWhile p)

/-- The block comment at the start of a text, and what follows. -/
def blockComment (cs : List Char) : Token × List Char :=
  (⟨.blockComment, (cutAtCommentEnd [] cs).1⟩, (cutAtCommentEnd [] cs).2)

/-- The first token of the text `c :: cs`, and what follows. -/
def first (c : Char) (cs : List Char) : Token × List Char :=
  if c = '\n' then (⟨.newline, [c]⟩, cs)
  else if isBlankChar c then run .whitespace isBlankChar (c :: cs)
  else if isWordStart c then run .identifier isWordChar (c :: cs)
  else if c.isDigit then run .number Char.isDigit (c :: cs)
  else if c = '/' ∧ cs.head? = some '/' then run .lineComment (· != '\n') (c :: cs)
  else if c = '/' ∧ cs.head? = some '*' then blockComment (c :: cs)
  else if isBracketChar c then (⟨.bracket, [c]⟩, cs)
  else (⟨.other, [c]⟩, cs)

theorem run_text_append (kind : Kind) (p : Char → Bool) (cs : List Char) :
    (run kind p cs).1.text ++ (run kind p cs).2 = cs :=
  List.takeWhile_append_dropWhile

theorem run_text_ne_nil (kind : Kind) {p : Char → Bool} {c : Char} (h : p c = true)
    (cs : List Char) : (run kind p (c :: cs)).1.text ≠ [] := by
  simp [run, h]

theorem blockComment_text_append (cs : List Char) :
    (blockComment cs).1.text ++ (blockComment cs).2 = cs :=
  cutAtCommentEnd_append [] cs

theorem blockComment_text_ne_nil (cs : List Char) : (blockComment ('/' :: cs)).1.text ≠ [] := by
  have h : (blockComment ('/' :: cs)).1.text = (cutAtCommentEnd ['/'] cs).1 := by
    simp [blockComment, cutAtCommentEnd]
  rw [h, ← List.length_pos_iff]
  exact length_cutAtCommentEnd ['/'] cs

/-- The first token and what follows it make up the text. -/
theorem first_text_append (c : Char) (cs : List Char) :
    (first c cs).1.text ++ (first c cs).2 = c :: cs := by
  unfold first
  repeat' split
  all_goals first
    | rfl
    | exact run_text_append ..
    | exact blockComment_text_append ..

/-- The first token is not empty. -/
theorem first_text_ne_nil (c : Char) (cs : List Char) : (first c cs).1.text ≠ [] := by
  unfold first
  split
  · exact List.cons_ne_nil _ _
  next newline =>
  split
  next blank => exact run_text_ne_nil _ blank _
  split
  next word => exact run_text_ne_nil _ (isWordChar_of_isWordStart word) _
  split
  next digit => exact run_text_ne_nil _ digit _
  split
  · exact run_text_ne_nil _ (by simpa using newline) _
  split
  next block => exact block.1 ▸ blockComment_text_ne_nil cs
  split <;> exact List.cons_ne_nil _ _

/-- What follows the first token is shorter than the text. -/
theorem length_first_lt (c : Char) (cs : List Char) :
    (first c cs).2.length < (c :: cs).length := by
  have htext := List.length_pos_iff.2 (first_text_ne_nil c cs)
  rw [← first_text_append c cs, List.length_append]
  omega

end Token

/-! ## All tokens -/

/-- Puts the tokens of a text behind those already read; `done` holds the latter, latest first. -/
def tokenizeOnto (done : List Token) : List Char → List Token
  | [] => done.reverse
  | c :: cs => tokenizeOnto ((Token.first c cs).1 :: done) (Token.first c cs).2
termination_by cs => cs.length
decreasing_by exact Token.length_first_lt c cs

/-- The tokens of a text. -/
def tokenize (cs : List Char) : List Token :=
  tokenizeOnto [] cs

theorem tokenizeOnto_eq : ∀ (cs : List Char) (done : List Token),
    tokenizeOnto done cs = done.reverse ++ tokenize cs
  | [], done => by simp only [tokenize, tokenizeOnto, List.reverse_nil, List.append_nil]
  | c :: cs, done => by
    rw [tokenize, tokenizeOnto, tokenizeOnto, tokenizeOnto_eq _ (_ :: done),
      tokenizeOnto_eq _ [_], List.reverse_cons, List.append_assoc, List.reverse_singleton]
termination_by cs => cs.length
decreasing_by all_goals exact Token.length_first_lt c cs

@[simp] theorem tokenize_nil : tokenize [] = [] := by
  rw [tokenize, tokenizeOnto, List.reverse_nil]

/-- The tokens of a text are its first token and the tokens of what follows. -/
theorem tokenize_cons (c : Char) (cs : List Char) :
    tokenize (c :: cs) = (Token.first c cs).1 :: tokenize (Token.first c cs).2 := by
  rw [tokenize, tokenizeOnto, tokenizeOnto_eq, List.reverse_singleton, List.singleton_append]

/-- The texts of the tokens make up the text. -/
theorem render_tokenize : ∀ cs : List Char, Token.render (tokenize cs) = cs
  | [] => by rw [tokenize_nil, Token.render_nil]
  | c :: cs => by
    rw [tokenize_cons, Token.render_cons, render_tokenize, Token.first_text_append]
termination_by cs => cs.length
decreasing_by exact Token.length_first_lt c cs

end TokenEdit
