import TokenEdit.Token.Lexer

/-!
# The class of a token is told by its text

A token is any text with any class.  A token that was cut from a text has the class that its own
text gives: the characters that decided about the class when the token was cut off, the first one
and behind a slash the second one, are characters of the token.

So tokens cut from texts, not necessarily from the same one, are equal when their texts are.

* `Kind.ofText`: the class that a text gives.
* `Token.Lexed`: the tokens cut from some text.
* `Token.Lexed.classified`: their class is the one that their text gives.
* `Token.significant_eq_of_sameSignificant`: lists of such tokens that agree up to layout.
-/

namespace TokenEdit

/-- The class of a token with the given text, told by the first two characters. -/
def Kind.ofText : List Char → Kind
  | [] => .other
  | c :: cs =>
    if c = '\n' then .newline
    else if isBlankChar c then .whitespace
    else if isWordStart c then .identifier
    else if c.isDigit then .number
    else if c = '/' ∧ cs.head? = some '/' then .lineComment
    else if c = '/' ∧ cs.head? = some '*' then .blockComment
    else if isBracketChar c then .bracket
    else .other

theorem prefix_cutAtCommentEnd (seen cs : List Char) :
    seen.reverse <+: (cutAtCommentEnd seen cs).1 := by
  fun_induction cutAtCommentEnd seen cs with
  | case1 => exact List.prefix_rfl
  | case2 seen rest => exact ⟨['*', '/'], by simp⟩
  | case3 seen c rest _ ih =>
    rw [List.reverse_cons] at ih
    exact (List.prefix_append _ _).trans ih

namespace Token

/-- A block comment has both characters of its opening mark. -/
theorem exists_text_blockComment (cs : List Char) :
    ∃ more, (blockComment ('/' :: '*' :: cs)).1.text = '/' :: '*' :: more := by
  have hprefix : ['/', '*'] <+: (blockComment ('/' :: '*' :: cs)).1.text := by
    cases cs with
    | nil => exact ⟨[], by simp [blockComment, cutAtCommentEnd]⟩
    | cons c cs =>
      by_cases hc : c = '/'
      · subst hc
        exact ⟨['/'], by simp [blockComment, cutAtCommentEnd]⟩
      · have htext : (blockComment ('/' :: '*' :: c :: cs)).1.text =
            (cutAtCommentEnd ['*', '/'] (c :: cs)).1 := by
          simp [blockComment, cutAtCommentEnd, hc]
        rw [htext]
        exact prefix_cutAtCommentEnd ['*', '/'] (c :: cs)
  obtain ⟨more, hmore⟩ := hprefix
  exact ⟨more, hmore.symm⟩

/-- The class of the token is the one that its text gives. -/
def Classified (t : Token) : Prop :=
  t.kind = Kind.ofText t.text

/-- The first token of a text has the class that its own text gives. -/
theorem classified_first (c : Char) (cs : List Char) : (first c cs).1.Classified := by
  unfold Classified
  unfold first
  split
  next newline => simp [Kind.ofText, newline]
  next newline =>
  split
  next blank =>
    show _ = Kind.ofText ((c :: cs).takeWhile isBlankChar)
    rw [List.takeWhile_cons_of_pos blank]
    simp [Kind.ofText, newline, blank, run]
  next blank =>
  split
  next word =>
    show _ = Kind.ofText ((c :: cs).takeWhile isWordChar)
    rw [List.takeWhile_cons_of_pos (isWordChar_of_isWordStart word)]
    simp [Kind.ofText, newline, blank, word, run]
  next word =>
  split
  next digit =>
    show _ = Kind.ofText ((c :: cs).takeWhile Char.isDigit)
    rw [List.takeWhile_cons_of_pos digit]
    simp [Kind.ofText, newline, blank, word, digit, run]
  next digit =>
  split
  next line =>
    obtain ⟨rfl, hhead⟩ := line
    obtain ⟨cs, rfl⟩ : ∃ cs', cs = '/' :: cs' := List.head?_eq_some_iff.1 hhead
    show _ = Kind.ofText (('/' :: '/' :: cs).takeWhile (· != '\n'))
    rw [List.takeWhile_cons_of_pos (by decide), List.takeWhile_cons_of_pos (by decide)]
    rfl
  next line =>
  split
  next block =>
    obtain ⟨rfl, hhead⟩ := block
    obtain ⟨cs, rfl⟩ : ∃ cs', cs = '*' :: cs' := List.head?_eq_some_iff.1 hhead
    obtain ⟨more, hmore⟩ := exists_text_blockComment cs
    rw [hmore]
    rfl
  next block =>
  split
  next bracket => simp [Kind.ofText, newline, blank, word, digit, bracket]
  next bracket => simp [Kind.ofText, newline, blank, word, digit, bracket]

/-- A token that is cut from some text. -/
def Lexed (t : Token) : Prop :=
  ∃ source, t ∈ tokenize source

theorem classified_of_mem_tokenize : ∀ {cs : List Char} {t : Token}, t ∈ tokenize cs →
    t.Classified
  | [], t, h => absurd h (by simp)
  | c :: cs, t, h => by
    rw [tokenize_cons] at h
    rcases List.mem_cons.1 h with rfl | h
    · exact classified_first c cs
    · exact classified_of_mem_tokenize h
termination_by cs => cs.length
decreasing_by exact Token.length_first_lt c cs

/-- **The class of a token cut from a text is told by its text.** -/
theorem Lexed.classified {t : Token} (h : t.Lexed) : t.Classified := by
  obtain ⟨source, hsource⟩ := h
  exact classified_of_mem_tokenize hsource

theorem classified_spaces (width : Nat) (h : width ≠ 0) : (spaces width).Classified := by
  obtain ⟨width, rfl⟩ := Nat.exists_eq_succ_of_ne_zero h
  rfl

/-- Lists that agree up to layout have the same significant tokens, when the texts of their tokens
tell the classes. -/
theorem significant_eq_of_sameSignificant {left right : List Token}
    (hleft : ∀ t ∈ left, t.Classified) (hright : ∀ t ∈ right, t.Classified)
    (h : sameSignificant left right = true) : significant left = significant right := by
  have hrebuild : ∀ {ts : List Token}, (∀ t ∈ ts, t.Classified) →
      significant ts = (significantTexts ts).map fun text => ⟨Kind.ofText text, text⟩ := by
    intro ts hts
    have hself : ∀ t ∈ significant ts, (⟨Kind.ofText t.text, t.text⟩ : Token) = t := by
      intro t ht
      rw [← hts t (List.mem_filter.1 ht).1]
    rw [significantTexts, List.map_map]
    exact ((List.map_congr_left hself).trans (List.map_id _)).symm
  rw [hrebuild hleft, hrebuild hright, sameSignificant_iff.1 h]

end Token

end TokenEdit
