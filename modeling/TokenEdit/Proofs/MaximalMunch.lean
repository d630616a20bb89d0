import TokenEdit.Proofs.TokenClass

/-!
# Tokens are as long as they can be

What a token of each class looks like can be said without saying how a text is cut: a run of digits
that no digit follows, a comment that goes up to its closing mark, and so on.  A text can be divided
into tokens of these forms in one way only, and that is the way in which `tokenize` divides it.

The proof does not follow the cutting.  A form fixes the class of the token, because it fixes the
characters that decide about it (`Kind.Form.ofText_eq`), and within a class it fixes where the token
ends (`Kind.Form.text_eq`).  So two divisions agree on their first token, and the first token that
is cut off only has to be of its form (`Token.form_first`).

* `blanks`, `brackets`, `IsLetter`, `IsDigit`: the characters of the classes.
* `Kind.Form`: the form of a token, given the text behind it.
* `Token.MaximalMunch`: the divisions into tokens of these forms.
* `tokenize_eq_iff_maximalMunch`: cutting gives that division.
* `block_comment_closed_or_cut_short`: what this says about block comments.  Three characters may be
  a whole one, and then the text behind them is not taken for a comment.
-/

namespace TokenEdit

/-! ## Characters -/

/-- The blanks. -/
def blanks : List Char := [' ', '\t', '\r', '\n']

/-- The brackets. -/
def brackets : List Char := ['(', ')', '[', ']', '{', '}']

/-- An ASCII letter or the underscore. -/
def IsLetter (c : Char) : Prop :=
  'A' ≤ c ∧ c ≤ 'Z' ∨ 'a' ≤ c ∧ c ≤ 'z' ∨ c = '_'

/-- An ASCII digit. -/
def IsDigit (c : Char) : Prop :=
  '0' ≤ c ∧ c ≤ '9'

instance (c : Char) : Decidable (IsLetter c) :=
  inferInstanceAs (Decidable (_ ∨ _))

instance (c : Char) : Decidable (IsDigit c) :=
  inferInstanceAs (Decidable (_ ∧ _))

theorem isBlankChar_iff (c : Char) : isBlankChar c = true ↔ c ∈ blanks := by
  simp only [isBlankChar, blanks, Bool.or_eq_true, decide_eq_true_eq, List.mem_cons,
    List.not_mem_nil, or_false]
  grind

theorem isBracketChar_iff (c : Char) : isBracketChar c = true ↔ c ∈ brackets := by
  simp [isBracketChar, brackets, or_assoc]

theorem isDigit_iff (c : Char) : c.isDigit = true ↔ IsDigit c :=
  Bool.and_eq_true_iff.trans (and_congr decide_eq_true_iff decide_eq_true_iff)

theorem isWordStart_iff (c : Char) : isWordStart c = true ↔ IsLetter c := by
  have hupper : c.isUpper = true ↔ 'A' ≤ c ∧ c ≤ 'Z' := decide_eq_true_iff
  have hlower : c.isLower = true ↔ 'a' ≤ c ∧ c ≤ 'z' :=
    Bool.and_eq_true_iff.trans (and_congr decide_eq_true_iff decide_eq_true_iff)
  have halpha : c.isAlpha = true ↔ 'A' ≤ c ∧ c ≤ 'Z' ∨ 'a' ≤ c ∧ c ≤ 'z' :=
    Bool.or_eq_true_iff.trans (or_congr hupper hlower)
  rw [isWordStart, Bool.or_eq_true, halpha, decide_eq_true_eq, or_assoc]
  rfl

theorem isWordChar_iff (c : Char) : isWordChar c = true ↔ IsLetter c ∨ IsDigit c := by
  rw [← isWordStart_iff, ← isDigit_iff]
  simp only [isWordChar, isWordStart, Char.isAlphanum, Bool.or_eq_true, or_right_comm]

theorem IsDigit.not_isLetter {c : Char} (h : IsDigit c) : ¬ IsLetter c := by
  rintro (⟨hupper, -⟩ | ⟨hlower, -⟩ | rfl)
  · exact absurd (Char.le_trans hupper h.2) (by decide)
  · exact absurd (Char.le_trans hlower h.2) (by decide)
  · exact absurd h.2 (by decide)

/-- A class of characters without the blanks. -/
theorem isBlankChar_eq_false_of_class {p : Char → Prop}
    (hp : ¬ p ' ' ∧ ¬ p '\t' ∧ ¬ p '\r' ∧ ¬ p '\n') {c : Char} (h : p c) :
    isBlankChar c = false := by
  rw [Bool.eq_false_iff, ne_eq, isBlankChar_iff]
  intro hblank
  simp only [blanks, List.mem_cons, List.not_mem_nil, or_false] at hblank
  obtain ⟨hspace, htab, hreturn, hlineFeed⟩ := hp
  rcases hblank with rfl | rfl | rfl | rfl
  · exact hspace h
  · exact htab h
  · exact hreturn h
  · exact hlineFeed h

theorem ne_lineFeed_of_isBlankChar_eq_false {c : Char} (h : isBlankChar c = false) : c ≠ '\n' := by
  rintro rfl
  exact absurd h (by decide)

/-! ## Forms -/

/-- A text of characters of a class, with no character of the class behind it. -/
def IsRun (p : Char → Prop) (text rest : List Char) : Prop :=
  (∀ c ∈ text, p c) ∧ ∀ c ∈ rest.head?, ¬ p c

/-- A text that ends with the closing mark of a comment and does not have the mark before. -/
def EndsAtFirstMark (text : List Char) : Prop :=
  ['*', '/'] <:+ text ∧ ¬ ['*', '/'] <:+: text.dropLast

instance (text : List Char) : Decidable (EndsAtFirstMark text) :=
  inferInstanceAs (Decidable (_ ∧ _))

/-- What stands behind the first character of a block comment: a text up to the first mark, or all
that is left when there is no mark. -/
def IsCommentTail (text rest : List Char) : Prop :=
  EndsAtFirstMark text ∨ ¬ ['*', '/'] <:+: text ∧ rest = []

/-- The form of a token of a class that has `rest` behind it. -/
def Kind.Form : Kind → List Char → List Char → Prop
  | newline, text, _ => text = ['\n']
  | whitespace, text, rest => text.head? ≠ some '\n' ∧ IsRun (· ∈ blanks) text rest
  | lineComment, text, rest => ['/', '/'] <+: text ∧ IsRun (· ≠ '\n') text rest
  | blockComment, text, rest => ['/', '*'] <+: text ∧ IsCommentTail text.tail rest
  | identifier, text, rest =>
    (∃ c ∈ text.head?, IsLetter c) ∧ IsRun (fun c => IsLetter c ∨ IsDigit c) text rest
  | number, text, rest => IsRun IsDigit text rest
  | bracket, text, _ => ∃ c ∈ brackets, text = [c]
  | other, text, rest =>
    ∃ c, text = [c] ∧ (c ∉ blanks ∧ ¬ IsLetter c ∧ ¬ IsDigit c ∧ c ∉ brackets) ∧
      (c = '/' → rest.head? ≠ some '/' ∧ rest.head? ≠ some '*')

/-- Every token has some text, and is of the form of its class before what follows it. -/
def Token.MaximalMunch (ts : List Token) : Prop :=
  ∀ before t behind, ts = before ++ t :: behind →
    t.text ≠ [] ∧ t.kind.Form t.text (render behind)

/-! ## A form fixes the class -/

/-- The class of a token is told by the characters that its form asks for. -/
theorem Kind.Form.ofText_eq {k : Kind} {text rest : List Char} (h : k.Form text rest)
    (hne : text ≠ []) : Kind.ofText (text ++ rest) = k := by
  obtain ⟨c, cs, rfl⟩ := List.exists_cons_of_ne_nil hne
  cases k with
  | newline =>
    obtain ⟨rfl, rfl⟩ := List.cons.inj (h : c :: cs = ['\n'])
    rfl
  | whitespace =>
    obtain ⟨hhead, hrun, -⟩ := h
    have hc : c ≠ '\n' := fun hc => hhead (by rw [hc, List.head?_cons])
    have hblank := (isBlankChar_iff c).2 (hrun c List.mem_cons_self)
    simp [ofText, hc, hblank]
  | lineComment =>
    obtain ⟨more, hmore⟩ := h.1
    rw [← hmore]
    rfl
  | blockComment =>
    obtain ⟨more, hmore⟩ := h.1
    rw [← hmore]
    rfl
  | identifier =>
    obtain ⟨⟨c', hc', hletter⟩, -⟩ := h
    obtain rfl : c = c' := Option.some.inj hc'
    have hblank := isBlankChar_eq_false_of_class (by decide) hletter
    simp [ofText, ne_lineFeed_of_isBlankChar_eq_false hblank, hblank, (isWordStart_iff c).2 hletter]
  | number =>
    have hdigit : IsDigit c := h.1 c List.mem_cons_self
    have hblank := isBlankChar_eq_false_of_class (by decide) hdigit
    have hword := Bool.eq_false_iff.2 (mt (isWordStart_iff c).1 hdigit.not_isLetter)
    simp [ofText, ne_lineFeed_of_isBlankChar_eq_false hblank, hblank, hword,
      (isDigit_iff c).2 hdigit]
  | bracket =>
    obtain ⟨c', hbracket, htext⟩ := h
    obtain ⟨rfl, rfl⟩ := List.cons.inj htext
    have hall : ∀ c ∈ brackets, ofText (c :: rest) = bracket := by
      simp only [brackets, List.forall_mem_cons]
      exact ⟨rfl, rfl, rfl, rfl, rfl, rfl, fun c hc => absurd hc (by simp)⟩
    exact hall c hbracket
  | other =>
    obtain ⟨c', htext, hother, hslash⟩ := h
    obtain ⟨rfl, rfl⟩ := List.cons.inj htext
    rw [← isBlankChar_iff, ← isWordStart_iff, ← isDigit_iff, ← isBracketChar_iff] at hother
    simp only [Bool.not_eq_true] at hother
    obtain ⟨hblank, hword, hdigit, hbracket⟩ := hother
    have hline : ¬ (c = '/' ∧ rest.head? = some '/') := fun hc => (hslash hc.1).1 hc.2
    have hblock : ¬ (c = '/' ∧ rest.head? = some '*') := fun hc => (hslash hc.1).2 hc.2
    simp [ofText, ne_lineFeed_of_isBlankChar_eq_false hblank, hblank, hword, hdigit, hline, hblock,
      hbracket]

/-! ## A form fixes the end -/

/-- Where a list of entries with a property ends is fixed, when what follows starts without it. -/
theorem eq_of_append_eq_append {α : Type} {p : α → Prop} :
    ∀ {left left' right right' : List α}, (∀ x ∈ left, p x) → (∀ x ∈ left', p x) →
      (∀ x ∈ right.head?, ¬ p x) → (∀ x ∈ right'.head?, ¬ p x) → left ++ right = left' ++ right' →
        left = left' ∧ right = right'
  | [], [], _, _, _, _, _, _, heq => ⟨rfl, heq⟩
  | [], x :: left', right, right', _, hleft', hright, _, heq => by
    have hx : right.head? = some x := by
      rw [← List.nil_append right, heq]
      rfl
    exact absurd (hleft' x List.mem_cons_self) (hright x hx)
  | x :: left, [], right, right', hleft, _, _, hright', heq => by
    have hx : right'.head? = some x := by
      rw [← List.nil_append right', ← heq]
      rfl
    exact absurd (hleft x List.mem_cons_self) (hright' x hx)
  | x :: left, y :: left', right, right', hleft, hleft', hright, hright', heq => by
    obtain ⟨rfl, hbehind⟩ := List.cons.inj heq
    obtain ⟨rfl, rfl⟩ := eq_of_append_eq_append (List.forall_mem_cons.1 hleft).2
      (List.forall_mem_cons.1 hleft').2 hright hright' hbehind
    exact ⟨rfl, rfl⟩

theorem IsRun.text_eq {p : Char → Prop} {text rest text' rest' : List Char}
    (h : IsRun p text rest) (h' : IsRun p text' rest') (heq : text ++ rest = text' ++ rest') :
    text = text' :=
  (eq_of_append_eq_append h.1 h'.1 h.2 h'.2 heq).1

theorem EndsAtFirstMark.isInfix_dropLast_append {text : List Char} (h : EndsAtFirstMark text)
    {more : List Char} (hmore : more ≠ []) : ['*', '/'] <:+: (text ++ more).dropLast := by
  rw [List.dropLast_append_of_ne_nil hmore]
  exact h.1.isInfix.trans (List.prefix_append _ _).isInfix

/-- A comment that could be longer or shorter is not both of its form. -/
theorem IsCommentTail.eq_nil_of_append {text more rest : List Char}
    (h : IsCommentTail text (more ++ rest)) (hlonger : IsCommentTail (text ++ more) rest) :
    more = [] := by
  rcases h with hends | ⟨-, hnil⟩
  · have hmark : ¬ ['*', '/'] <:+: (text ++ more).dropLast := by
      rcases hlonger with hlonger | ⟨hlonger, -⟩
      · exact hlonger.2
      · exact fun hmark => hlonger (hmark.trans (List.dropLast_prefix _).isInfix)
    exact Decidable.byContradiction fun hmore => hmark (hends.isInfix_dropLast_append hmore)
  · exact (List.append_eq_nil_iff.1 hnil).1

theorem IsCommentTail.text_eq {text rest text' rest' : List Char} (h : IsCommentTail text rest)
    (h' : IsCommentTail text' rest') (heq : text ++ rest = text' ++ rest') : text = text' := by
  rcases List.append_eq_append_iff.1 heq with ⟨more, rfl, rfl⟩ | ⟨more, rfl, rfl⟩
  · rw [h.eq_nil_of_append h', List.append_nil]
  · rw [h'.eq_nil_of_append h, List.append_nil]

/-- Within a class a form fixes where the token ends. -/
theorem Kind.Form.text_eq {k : Kind} {text rest text' rest' : List Char} (h : k.Form text rest)
    (h' : k.Form text' rest') (heq : text ++ rest = text' ++ rest') : text = text' := by
  cases k with
  | newline => exact Eq.trans h (Eq.symm h')
  | whitespace | lineComment | identifier => exact h.2.text_eq h'.2 heq
  | number => exact IsRun.text_eq h h' heq
  | blockComment =>
    obtain ⟨⟨more, rfl⟩, htail⟩ := h
    obtain ⟨⟨more', rfl⟩, htail'⟩ := h'
    have heqTail : ('*' :: more) ++ rest = ('*' :: more') ++ rest' := (List.cons.inj heq).2
    have hmore : '*' :: more = '*' :: more' := htail.text_eq htail' heqTail
    exact congrArg ('/' :: ·) hmore
  | bracket =>
    obtain ⟨c, -, rfl⟩ := h
    obtain ⟨c', -, rfl⟩ := h'
    rw [(List.cons.inj heq).1]
  | other =>
    obtain ⟨c, rfl, -⟩ := h
    obtain ⟨c', rfl, -⟩ := h'
    rw [(List.cons.inj heq).1]

/-! ## The first token is of its form -/

theorem isRun_takeWhile {p : Char → Bool} {q : Char → Prop} (hpq : ∀ c, p c = true ↔ q c)
    (cs : List Char) : IsRun q (cs.takeWhile p) (cs.dropWhile p) := by
  refine ⟨fun c hc => ?_, fun c hc => ?_⟩
  · exact (hpq c).1 (List.all_eq_true.1 List.all_takeWhile c hc)
  · have hhead := List.head?_dropWhile_not p cs
    rw [Option.mem_def.1 hc] at hhead
    exact mt (hpq c).2 (Bool.eq_false_iff.1 hhead)

/-- A character in front of a comment's end, when it does not make a mark with what follows. -/
theorem IsCommentTail.cons {c : Char} {text rest : List Char} (h : IsCommentTail text rest)
    (hc : ¬ ['*', '/'] <+: c :: text) : IsCommentTail (c :: text) rest := by
  rcases h with ⟨hends, hfirst⟩ | ⟨hmark, hrest⟩
  · have htext : text ≠ [] := by
      rintro rfl
      exact absurd hends (by decide)
    refine .inl ⟨hends.trans (List.suffix_cons c text), ?_⟩
    rw [List.dropLast_cons_of_ne_nil htext, List.infix_cons_iff]
    rintro (hstart | hwithin)
    · exact hc (hstart.trans (List.prefix_cons_inj c |>.2 (List.dropLast_prefix text)))
    · exact hfirst hwithin
  · refine .inr ⟨?_, hrest⟩
    rw [List.infix_cons_iff]
    rintro (hstart | hwithin)
    · exact hc hstart
    · exact hmark hwithin

/-- The end of a comment is where the text is cut; `seen` is passed on. -/
theorem exists_isCommentTail (seen cs : List Char) :
    ∃ text, (cutAtCommentEnd seen cs).1 = seen.reverse ++ text ∧
      IsCommentTail text (cutAtCommentEnd seen cs).2 := by
  fun_induction cutAtCommentEnd seen cs with
  | case1 seen => exact ⟨[], (List.append_nil _).symm, .inr ⟨by decide, rfl⟩⟩
  | case2 seen rest => exact ⟨['*', '/'], by simp, .inl (by decide)⟩
  | case3 seen c rest hmark ih =>
    obtain ⟨text, htext, htail⟩ := ih
    have hrest : text ++ (cutAtCommentEnd (c :: seen) rest).2 = rest := by
      have happend := cutAtCommentEnd_append (c :: seen) rest
      rw [htext, List.append_assoc] at happend
      exact List.append_cancel_left happend
    refine ⟨c :: text, by rw [htext]; simp, htail.cons ?_⟩
    rintro ⟨more, hmore⟩
    obtain ⟨hstar, hslash⟩ := List.cons.inj hmore
    refine hmark (more ++ (cutAtCommentEnd (c :: seen) rest).2) hstar.symm (hrest.symm.trans ?_)
    rw [← hslash]
    rfl

/-- The first token of a text is of the form of its class. -/
theorem Token.form_first (c : Char) (cs : List Char) :
    (first c cs).1.kind.Form (first c cs).1.text (first c cs).2 := by
  unfold first
  split
  next newline => exact congrArg (fun c => [c]) newline
  next newline =>
  split
  next blank =>
    refine ⟨?_, isRun_takeWhile isBlankChar_iff (c :: cs)⟩
    show ((c :: cs).takeWhile isBlankChar).head? ≠ some '\n'
    rw [List.takeWhile_cons_of_pos blank]
    exact fun hhead => newline (Option.some.inj hhead)
  next blank =>
  split
  next word =>
    refine ⟨⟨c, ?_, (isWordStart_iff c).1 word⟩, isRun_takeWhile isWordChar_iff (c :: cs)⟩
    show ((c :: cs).takeWhile isWordChar).head? = some c
    rw [List.takeWhile_cons_of_pos (isWordChar_of_isWordStart word), List.head?_cons]
  next word =>
  split
  next digit => exact isRun_takeWhile isDigit_iff (c :: cs)
  next digit =>
  split
  next line =>
    obtain ⟨rfl, hhead⟩ := line
    obtain ⟨cs, rfl⟩ : ∃ cs', cs = '/' :: cs' := List.head?_eq_some_iff.1 hhead
    refine ⟨?_, isRun_takeWhile (p := (· != '\n')) (fun _ => bne_iff_ne) _⟩
    show _ <+: ('/' :: '/' :: cs).takeWhile (· != '\n')
    rw [List.takeWhile_cons_of_pos (by decide), List.takeWhile_cons_of_pos (by decide)]
    exact List.prefix_append ['/', '/'] _
  next line =>
  split
  next block =>
    obtain ⟨rfl, hhead⟩ := block
    obtain ⟨cs, rfl⟩ : ∃ cs', cs = '*' :: cs' := List.head?_eq_some_iff.1 hhead
    obtain ⟨more, hmore⟩ := exists_text_blockComment cs
    -- the slash is passed before a mark is looked for
    obtain ⟨text, htext, htail⟩ := exists_isCommentTail ['/'] ('*' :: cs)
    have hcut : cutAtCommentEnd [] ('/' :: '*' :: cs) = cutAtCommentEnd ['/'] ('*' :: cs) := by
      simp [cutAtCommentEnd]
    refine ⟨⟨more, hmore.symm⟩, ?_⟩
    show IsCommentTail (cutAtCommentEnd [] ('/' :: '*' :: cs)).1.tail
      (cutAtCommentEnd [] ('/' :: '*' :: cs)).2
    rw [hcut, htext]
    exact htail
  next block =>
  split
  next bracket => exact ⟨c, (isBracketChar_iff c).1 bracket, rfl⟩
  next bracket =>
    have hother : c ∉ blanks ∧ ¬ IsLetter c ∧ ¬ IsDigit c ∧ c ∉ brackets :=
      ⟨mt (isBlankChar_iff c).2 blank, mt (isWordStart_iff c).2 word, mt (isDigit_iff c).2 digit,
        mt (isBracketChar_iff c).2 bracket⟩
    refine ⟨c, rfl, hother, fun hslash => ?_⟩
    exact ⟨fun hhead => line ⟨hslash, hhead⟩, fun hhead => block ⟨hslash, hhead⟩⟩

/-- **Forms fix the first token.** -/
theorem Token.first_eq_of_form {c : Char} {cs : List Char} {t : Token} {rest : List Char}
    (hsplit : t.text ++ rest = c :: cs) (hne : t.text ≠ []) (hform : t.kind.Form t.text rest) :
    first c cs = (t, rest) := by
  have hfirst := form_first c cs
  have hsplitFirst := first_text_append c cs
  have hkind : (first c cs).1.kind = t.kind := by
    rw [← hfirst.ofText_eq (first_text_ne_nil c cs), hsplitFirst, ← hsplit, hform.ofText_eq hne]
  have htext : (first c cs).1.text = t.text := by
    rw [hkind] at hfirst
    exact hfirst.text_eq hform (hsplitFirst.trans hsplit.symm)
  have hrest : (first c cs).2 = rest := by
    rw [← hsplit, htext] at hsplitFirst
    exact List.append_cancel_left hsplitFirst
  refine Prod.ext ?_ hrest
  show (⟨(first c cs).1.kind, (first c cs).1.text⟩ : Token) = t
  rw [hkind, htext]

/-! ## All tokens -/

/-- A property of every entry and what is behind it, by recursion on the list. -/
theorem forall_split_cons_iff {α : Type} {p : α → List α → Prop} {x : α} {xs : List α} :
    (∀ before y behind, x :: xs = before ++ y :: behind → p y behind) ↔
      p x xs ∧ ∀ before y behind, xs = before ++ y :: behind → p y behind := by
  constructor
  · intro h
    refine ⟨h [] x xs rfl, fun before y behind hxs => ?_⟩
    exact h (x :: before) y behind (by rw [hxs, List.cons_append])
  · rintro ⟨hx, hxs⟩ before y behind h
    cases before with
    | nil =>
      obtain ⟨rfl, rfl⟩ := List.cons.inj h
      exact hx
    | cons _ before => exact hxs before y behind (List.cons.inj h).2

theorem Token.maximalMunch_nil : MaximalMunch [] := by
  intro before t behind h
  exact absurd h (by simp)

theorem Token.maximalMunch_cons_iff {t : Token} {ts : List Token} :
    MaximalMunch (t :: ts) ↔
      (t.text ≠ [] ∧ t.kind.Form t.text (render ts)) ∧ MaximalMunch ts :=
  forall_split_cons_iff

theorem maximalMunch_tokenize : ∀ source : List Char, Token.MaximalMunch (tokenize source)
  | [] => by
    rw [tokenize_nil]
    exact Token.maximalMunch_nil
  | c :: cs => by
    rw [tokenize_cons, Token.maximalMunch_cons_iff, render_tokenize]
    exact ⟨⟨Token.first_text_ne_nil c cs, Token.form_first c cs⟩, maximalMunch_tokenize _⟩
termination_by source => source.length
decreasing_by exact Token.length_first_lt c cs

theorem Token.MaximalMunch.tokenize_render {ts : List Token} (h : MaximalMunch ts) :
    tokenize (render ts) = ts := by
  induction ts with
  | nil => exact tokenize_nil
  | cons t ts ih =>
    obtain ⟨⟨hne, hform⟩, hts⟩ := maximalMunch_cons_iff.1 h
    obtain ⟨c, cs, hcs⟩ : ∃ c cs, t.text ++ render ts = c :: cs :=
      List.exists_cons_of_ne_nil fun hnil => hne (List.append_eq_nil_iff.1 hnil).1
    rw [render_cons, hcs, tokenize_cons, first_eq_of_form hcs hne hform, ih hts]

/-- **Cutting a text gives its only division into tokens that have text and are of the form of
their classes.** -/
theorem tokenize_eq_iff_maximalMunch (source : List Char) (ts : List Token) :
    tokenize source = ts ↔ Token.render ts = source ∧ Token.MaximalMunch ts := by
  constructor
  · rintro rfl
    exact ⟨render_tokenize source, maximalMunch_tokenize source⟩
  · rintro ⟨rfl, hts⟩
    exact hts.tokenize_render

/-! ## Block comments -/

/-- A comment that goes up to the first closing mark behind its opening mark, or that is the last
token and has no closing mark behind its opening mark. -/
def Token.Enclosed (comment : Token) (behind : List Token) : Prop :=
  (∃ body, comment.text = ['/', '*'] ++ (body ++ ['*', '/']) ∧
      EndsAtFirstMark (body ++ ['*', '/'])) ∨
    behind = [] ∧ ['/', '*'] <+: comment.text ∧ ¬ ['*', '/'] <:+: comment.text.drop 2

theorem IsCommentTail.of_cons {c : Char} {text rest : List Char}
    (h : IsCommentTail (c :: text) rest) (hmark : c :: text ≠ ['*', '/']) :
    IsCommentTail text rest := by
  rcases h with ⟨hends, hfirst⟩ | ⟨hnone, hrest⟩
  · have hends' : ['*', '/'] <:+ text := by
      rcases List.suffix_cons_iff.1 hends with heq | hends
      · exact absurd heq.symm hmark
      · exact hends
    have htext : text ≠ [] := by
      rintro rfl
      exact absurd hends' (by decide)
    rw [List.dropLast_cons_of_ne_nil htext] at hfirst
    exact .inl ⟨hends', fun hwithin => hfirst (hwithin.trans (List.suffix_cons c _).isInfix)⟩
  · exact .inr ⟨fun hwithin => hnone (hwithin.trans (List.suffix_cons c _).isInfix), hrest⟩

theorem Token.MaximalMunch.eq_nil_of_render {ts : List Token} (h : MaximalMunch ts)
    (hrender : render ts = []) : ts = [] := by
  cases ts with
  | nil => rfl
  | cons t ts => exact absurd (List.append_eq_nil_iff.1 hrender).1 (h [] t ts rfl).1

/-- **Comments are closed by the first mark behind their opening mark**, unless a slash follows the
opening mark: then the three characters are the whole comment. -/
theorem block_comment_closed_or_cut_short {source : List Char} {before behind : List Token}
    {comment : Token} (h : tokenize source = before ++ comment :: behind)
    (hkind : comment.kind = .blockComment) :
    (['/', '*', '/'] <+: Token.render (comment :: behind) → comment.text = ['/', '*', '/']) ∧
      (¬ ['/', '*', '/'] <+: Token.render (comment :: behind) →
        comment.Enclosed behind ∧
          ∀ body rest,
            Token.render (comment :: behind) = ['/', '*'] ++ (body ++ ['*', '/']) ++ rest →
              EndsAtFirstMark (body ++ ['*', '/']) →
                comment.text = ['/', '*'] ++ (body ++ ['*', '/'])) := by
  have hmunch := maximalMunch_tokenize source
  rw [h] at hmunch
  obtain ⟨-, hform⟩ := hmunch before comment behind rfl
  rw [hkind] at hform
  obtain ⟨⟨more, hmore⟩, htail⟩ := hform
  rw [Token.render_cons, ← hmore]
  rw [← hmore] at htail
  constructor
  · rintro ⟨rest, hrest⟩
    have heq : ('*' :: more) ++ Token.render behind = ['*', '/'] ++ rest :=
      (List.cons.inj hrest).2.symm
    have htext : '*' :: more = ['*', '/'] := htail.text_eq (.inl (by decide)) heq
    exact congrArg ('/' :: ·) htext
  · intro hslash
    have htail : IsCommentTail more (Token.render behind) := by
      refine IsCommentTail.of_cons (c := '*') htail fun heq => hslash ?_
      exact ⟨Token.render behind, by rw [(List.cons.inj heq).2]; rfl⟩
    refine ⟨?_, fun body rest hrender hbody => ?_⟩
    · rcases htail with hends | ⟨hnone, hrest⟩
      · obtain ⟨body, rfl⟩ := hends.1
        exact .inl ⟨body, hmore.symm, hends⟩
      · have hbehind : Token.MaximalMunch behind := fun before' t behind' hts =>
          hmunch (before ++ comment :: before') t behind' (by rw [hts]; simp)
        refine .inr ⟨hbehind.eq_nil_of_render hrest, ⟨more, hmore⟩, ?_⟩
        rw [← hmore]
        exact hnone
    · have heq : more ++ Token.render behind = (body ++ ['*', '/']) ++ rest :=
        (List.cons.inj (List.cons.inj hrender).2).2
      rw [htail.text_eq (.inl hbody) heq]

/-- A star and two slashes in a comment, and code behind it. -/
theorem block_comment_closed_in_assignment :
    let comment : Token := ⟨.blockComment, "/* a//b **/".toList⟩
    let behind : List Token := [⟨.whitespace, [' ']⟩, ⟨.other, ['*']⟩, ⟨.other, ['/']⟩]
    tokenize "x/* a//b **/ */".toList = [⟨.identifier, ['x']⟩] ++ comment :: behind ∧
      comment.kind = .blockComment ∧
      ¬ ['/', '*', '/'] <+: Token.render (comment :: behind) ∧ comment.Enclosed behind := by
  intro comment behind
  have htokens : tokenize "x/* a//b **/ */".toList =
      [⟨.identifier, ['x']⟩] ++ comment :: behind := by
    decide +kernel
  have hslash : ¬ ['/', '*', '/'] <+: Token.render (comment :: behind) := by decide
  exact ⟨htokens, rfl, hslash, ((block_comment_closed_or_cut_short htokens rfl).2 hslash).1⟩

/-- The star of an opening mark is taken for the star of the closing one, and what the comment says
is read as code. -/
theorem comment_text_read_as_code :
    let comment : Token := ⟨.blockComment, ['/', '*', '/']⟩
    let behind := tokenize " f(x) */".toList
    tokenize "/*/ f(x) */".toList = [] ++ comment :: behind ∧
      comment.kind = .blockComment ∧ ⟨.identifier, ['f']⟩ ∈ Token.significant behind ∧
      ¬ comment.Enclosed behind := by
  intro comment behind
  refine ⟨by decide +kernel, rfl, by decide +kernel, ?_⟩
  rintro (⟨body, hbody, -⟩ | ⟨hbehind, -⟩)
  · have hlength := congrArg List.length hbody
    simp [comment] at hlength
  · exact absurd hbehind (by decide +kernel)

end TokenEdit
