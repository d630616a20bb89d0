import TokenEdit.Proofs.Except
import TokenEdit.Proofs.RuleTree
import TokenEdit.Proofs.TokenClass
import TokenEdit.RuleFile

/-!
# Tokens and rules that come from text

A token is any text with any class, and a list of tokens may hold a comment that is classed as a
word.  Tokens that were cut from a text are not like that: their text tells whether they are
layout.  No token of layout then has the text of a bracket, or of a token that a written pattern
names as a terminator.

* `isLayoutText`: the texts of layout, told by their first two characters.
* `Token.lexical_of_mem_tokenize`: the tokens of a text are told apart by it.
* `Rule.FromText`: the rules that are written, one by one or in a rule file, and then combined.
* `Rule.FromText.everywhere_plain`: what such a rule and the rules below it have in common.
-/

namespace TokenEdit

/-! ## Texts of layout -/

/-- The texts that start with a blank or like a comment. -/
def isLayoutText : List Char → Bool
  | [] => false
  | c :: cs => isBlankChar c || c = '/' && (cs.head? = some '/' || cs.head? = some '*')

theorem isLayoutText_cons_of_isBlankChar {c : Char} (h : isBlankChar c = true) (cs : List Char) :
    isLayoutText (c :: cs) = true := by
  rw [isLayoutText, h, Bool.true_or]

theorem isLayoutText_cons_of_ne {c : Char} (hblank : isBlankChar c = false) (hslash : c ≠ '/')
    (cs : List Char) : isLayoutText (c :: cs) = false := by
  simp [isLayoutText, hblank, hslash]

/-- A closing bracket that a span waits for is no text of layout. -/
theorem isLayoutText_of_regionEnd? {text closer : List Char} (h : regionEnd? text = some closer) :
    isLayoutText closer = false := by
  unfold regionEnd? at h
  split at h
  · rw [← Option.some.inj h]
    decide
  · rw [← Option.some.inj h]
    decide
  · exact absurd h (by simp)

theorem isBlankChar_cases {c : Char} (h : isBlankChar c = true) :
    c = ' ' ∨ c = '\t' ∨ c = '\n' ∨ c = '\r' := by
  simp only [isBlankChar, Bool.or_eq_true, decide_eq_true_eq] at h
  rcases h with ((h | h) | h) | h
  · exact .inl h
  · exact .inr (.inl h)
  · exact .inr (.inr (.inl h))
  · exact .inr (.inr (.inr h))

/-- A class of characters that has no blank and no slash starts no layout. -/
theorem isLayoutText_cons_of_class {p : Char → Bool} {c : Char} (hc : p c = true)
    (hp : p ' ' = false ∧ p '\t' = false ∧ p '\n' = false ∧ p '\r' = false ∧ p '/' = false)
    (cs : List Char) : isLayoutText (c :: cs) = false := by
  refine isLayoutText_cons_of_ne (Bool.eq_false_iff.2 fun hblank => ?_) ?_ cs
  · rcases isBlankChar_cases hblank with rfl | rfl | rfl | rfl <;> simp_all
  · rintro rfl
    simp_all

/-- The class that a text gives is layout when the text is. -/
theorem isDelimiter_ofText : ∀ text : List Char, (Kind.ofText text).isDelimiter = isLayoutText text
  | [] => rfl
  | c :: cs => by
    rw [Kind.ofText]
    split
    next newline =>
      subst newline
      exact (isLayoutText_cons_of_isBlankChar (by decide) cs).symm
    split
    next blank => exact (isLayoutText_cons_of_isBlankChar blank cs).symm
    next blank =>
    split
    next word => exact (isLayoutText_cons_of_class word (by decide) cs).symm
    split
    next digit => exact (isLayoutText_cons_of_class digit (by decide) cs).symm
    split
    next line => simp [isLayoutText, line, Kind.isDelimiter]
    next line =>
    split
    next block => simp [isLayoutText, block, Kind.isDelimiter]
    next block =>
    have hlayout : isLayoutText (c :: cs) = false := by
      have hmark : c = '/' → cs.head? ≠ some '/' ∧ cs.head? ≠ some '*' :=
        fun hc => ⟨fun hhead => line ⟨hc, hhead⟩, fun hhead => block ⟨hc, hhead⟩⟩
      simpa [isLayoutText, blank] using hmark
    split
    · exact hlayout.symm
    · exact hlayout.symm

/-! ## Tokens of a text -/

namespace Token

/-- The text of a token tells whether the token is layout. -/
def Lexical (t : Token) : Prop :=
  t.isDelimiter = isLayoutText t.text

/-- A text that tells the class tells whether the token is layout. -/
theorem Classified.lexical {t : Token} (h : t.Classified) : t.Lexical := by
  rw [Lexical, ← isDelimiter_ofText, ← h]
  rfl

theorem lexical_spaces (width : Nat) (h : width ≠ 0) : (spaces width).Lexical :=
  (classified_spaces width h).lexical

/-- **The tokens of a text are told apart by their texts.** -/
theorem lexical_of_mem_tokenize {cs : List Char} {t : Token} (h : t ∈ tokenize cs) : t.Lexical :=
  (classified_of_mem_tokenize h).lexical

end Token

/-! ## Patterns of a text -/

namespace Item

/-- An item whose terminator, if it has one, is no layout. -/
def Plain : Item → Prop
  | literal _ | ident _ => True
  | expr _ terminator => isLayoutText terminator.text = false

/-- Items read from tokens that are no layout have no layout as a terminator. -/
theorem plain_of_ofTokens {ts : List Token} (hts : ∀ t ∈ ts, isLayoutText t.text = false)
    {items : List Item} (h : ofTokens ts = .ok items) : ∀ item ∈ items, item.Plain := by
  fun_induction ofTokens ts generalizing items with
  | case1 =>
    obtain rfl : [] = items := Except.ok.inj h
    exact fun item hitem => absurd hitem (by simp)
  | case2 | case4 => exact absurd h (by simp)
  | case3 _ _ _ ts ih =>
    obtain ⟨name, -, h⟩ := exists_of_bind_eq_ok h
    obtain ⟨more, hmore, h⟩ := exists_of_bind_eq_ok h
    obtain rfl : ident name :: more = items := Except.ok.inj h
    have hplain := ih (fun t ht => hts t (List.mem_cons_of_mem _ (List.mem_cons_of_mem _ ht))) hmore
    exact List.forall_mem_cons.2 ⟨trivial, hplain⟩
  | case5 =>
    obtain ⟨name, -, h⟩ := exists_of_bind_eq_ok h
    exact absurd h (by simp)
  | case6 _ _ _ _ terminator ts ih =>
    obtain ⟨name, -, h⟩ := exists_of_bind_eq_ok h
    obtain ⟨more, hmore, h⟩ := exists_of_bind_eq_ok h
    obtain rfl : expr name terminator :: more = items := Except.ok.inj h
    have hbehind : ∀ t ∈ terminator :: ts, isLayoutText t.text = false :=
      fun t ht => hts t (List.mem_cons_of_mem _ (List.mem_cons_of_mem _ ht))
    have hplain := ih (fun t ht => hbehind t (List.mem_cons_of_mem _ ht)) hmore
    exact List.forall_mem_cons.2 ⟨hbehind terminator List.mem_cons_self, hplain⟩
  | case7 t ts _ _ ih =>
    obtain ⟨more, hmore, h⟩ := exists_of_bind_eq_ok h
    obtain rfl : literal t :: more = items := Except.ok.inj h
    have hplain := ih (fun t ht => hts t (List.mem_cons_of_mem _ ht)) hmore
    exact List.forall_mem_cons.2 ⟨trivial, hplain⟩

end Item

/-- No terminator of a written pattern is layout. -/
theorem Pattern.plain_of_ofText {text : List Char} {p : Pattern} (h : ofText text = .ok p) :
    ∀ item ∈ p.items, item.Plain := by
  obtain ⟨items, hitems, h⟩ := exists_of_bind_eq_ok h
  have hp : p.items = items := by
    unfold ofItems at h
    split at h
    · exact absurd h (by simp)
    · rw [← Except.ok.inj h]
  rw [hp]
  refine Item.plain_of_ofTokens (fun t ht => ?_) hitems
  obtain ⟨hmem, hsignificant⟩ := List.mem_filter.1 ht
  have hlexical : t.isDelimiter = isLayoutText t.text := Token.lexical_of_mem_tokenize hmem
  rw [← hlexical]
  exact Bool.not_eq_true' _ ▸ hsignificant

/-! ## Rules of a text -/

namespace RuleFile

/-- All complete rules that a reader holds, below open blocks too, satisfy `Q`. -/
structure Reader.All (Q : Rule → Prop) (s : Reader) : Prop where
  rules : ∀ r ∈ s.rules, Q r
  followUps : ∀ b ∈ s.blocks, ∀ f ∈ b.followUps, Q f

variable {Q : Rule → Prop}

theorem Reader.all_add {rules : List Rule} (hrules : ∀ r ∈ rules, Q r) {r : Rule} (hr : Q r)
    {blocks : List Block} (hblocks : ∀ b ∈ blocks, ∀ f ∈ b.followUps, Q f) :
    (add rules r blocks).All Q := by
  cases blocks with
  | nil => exact ⟨List.forall_mem_cons.2 ⟨hr, hrules⟩, hblocks⟩
  | cons outer blocks =>
    obtain ⟨houter, hblocks⟩ := List.forall_mem_cons.1 hblocks
    refine ⟨hrules, List.forall_mem_cons.2 ⟨?_, hblocks⟩⟩
    exact List.forall_mem_cons.2 ⟨hr, houter⟩

/-- A line that changes the innermost block, and keeps the follow-ups that it has. -/
theorem Reader.All.changeBlock {s : Reader} (hs : s.All Q) {b b' : Block} {outer : List Block}
    (hblocks : s.blocks = b :: outer) (hb' : b'.followUps = b.followUps) :
    Reader.All Q { s with blocks := b' :: outer } := by
  have hfollowUps := hs.followUps
  rw [hblocks, List.forall_mem_cons] at hfollowUps
  exact ⟨hs.rules, List.forall_mem_cons.2 ⟨hb' ▸ hfollowUps.1, hfollowUps.2⟩⟩

theorem Reader.All.openBlock {s : Reader} (hs : s.All Q) (number : Nat) :
    Reader.All Q { s with blocks := .opened number :: s.blocks } :=
  ⟨hs.rules, List.forall_mem_cons.2 ⟨fun f hf => absurd hf (by simp [Block.opened]), hs.followUps⟩⟩

/-- A line keeps what closing a block keeps. -/
theorem Reader.All.line
    (hclose : ∀ {b : Block} {r : Rule}, (∀ f ∈ b.followUps, Q f) → b.close = .ok r → Q r)
    {s s' : Reader} (hs : s.All Q) {text : List Char} {number : Nat}
    (h : s.line text number = .ok s') : s'.All Q := by
  cases hblocks : s.blocks with
  | nil =>
    cases hkind : LineKind.ofLine text <;> simp only [Reader.line, hblocks, hkind] at h
    case opener =>
      rw [← Except.ok.inj h, ← hblocks]
      exact hs.openBlock number
    case comment | blank => exact Except.ok.inj h ▸ hs
    all_goals exact absurd h (by simp)
  | cons b outer =>
    cases hkind : LineKind.ofLine text <;> simp only [Reader.line, hblocks, hkind] at h
    case opener =>
      have hchanged : Reader.All Q { s with blocks := { b with part := .followUps } :: outer } :=
        hs.changeBlock hblocks rfl
      rw [← Except.ok.inj h]
      exact hchanged.openBlock number
    case closer =>
      obtain ⟨r, hr, h⟩ := exists_of_bind_eq_ok h
      rw [← Except.ok.inj h]
      have hfollowUps := hs.followUps
      rw [hblocks, List.forall_mem_cons] at hfollowUps
      exact all_add hs.rules (hclose hfollowUps.1 hr) hfollowUps.2
    -- what is left are the lines of a section: they go to the innermost block or are faults
    all_goals
      cases hpart : b.part <;> simp only [hpart, reduceCtorEq, Except.ok.injEq] at h
      all_goals
        subst h
        exact hs.changeBlock hblocks rfl

theorem Reader.All.foldlM
    (hclose : ∀ {b : Block} {r : Rule}, (∀ f ∈ b.followUps, Q f) → b.close = .ok r → Q r) :
    ∀ {texts : List (List Char × Nat)} {s s' : Reader}, s.All Q →
      texts.foldlM (fun s (text, number) => s.line text number) s = .ok s' → s'.All Q
  | [], s, s', hs, h => (Except.ok.inj h :) ▸ hs
  | (text, number) :: texts, s, s', hs, h => by
    rw [List.foldlM_cons] at h
    obtain ⟨s₁, hs₁, h⟩ := exists_of_bind_eq_ok h
    exact (hs.line hclose hs₁).foldlM hclose h

/-- **What closing a block keeps holds of every rule of a rule file.** -/
theorem forall_mem_of_readRules
    (hclose : ∀ {b : Block} {r : Rule}, (∀ f ∈ b.followUps, Q f) → b.close = .ok r → Q r)
    {text : List Char} {rules : List Rule} (h : readRules text = .ok rules) :
    ∀ r ∈ rules, Q r := by
  obtain ⟨s, hs, h⟩ := exists_of_bind_eq_ok h
  have hstart : Reader.start.All Q :=
    ⟨fun r hr => absurd hr (by simp [Reader.start]), fun b hb => absurd hb (by simp [Reader.start])⟩
  have hall : s.All Q := hstart.foldlM hclose hs
  cases hblocks : s.blocks with
  | nil =>
    rw [Reader.finish, hblocks] at h
    obtain rfl : s.rules.reverse = rules := Except.ok.inj h
    exact fun r hr => hall.rules r (List.mem_reverse.1 hr)
  | cons b outer =>
    rw [Reader.finish, hblocks] at h
    exact absurd h (by simp)

end RuleFile

namespace Rule

/-- No terminator of the pattern is layout, and the template's tokens are told apart by their
texts. -/
structure Plain (r : Rule) : Prop where
  items : ∀ item ∈ r.pattern.items, item.Plain
  tokens : ∀ t ∈ r.template.tokens, t.Lexical

/-- The rules that come from text: they are written as a pattern and a template, or in a rule
file, and combined to trees. -/
inductive FromText : Rule → Prop
  | ofText {pattern template : List Char} {r : Rule} (h : Rule.ofText pattern template = .ok r) :
      FromText r
  | read {text : List Char} {rules : List Rule} {r : Rule} (h : readRules text = .ok rules)
      (hr : r ∈ rules) : FromText r
  | withFollowUp {r followUp : Rule} (hr : FromText r) (hf : FromText followUp) :
      FromText (r.withFollowUp followUp)
  | atLine {r : Rule} (hr : FromText r) (line : Nat) : FromText (r.atLine line)

theorem plain_of_ofText {patternText templateText : List Char} {p : Pattern}
    (h : Pattern.ofText patternText = .ok p) (followUps : List Rule) (line : Nat) :
    Plain { pattern := p, template := Template.ofText templateText, followUps, line } :=
  ⟨Pattern.plain_of_ofText h, fun _ ht => Token.lexical_of_mem_tokenize ht⟩

/-- The rule of a block is plain when the rules below it are. -/
theorem everywhere_plain_of_close {b : RuleFile.Block} {r : Rule}
    (hfollowUps : ∀ f ∈ b.followUps, f.Everywhere Plain) (h : b.close = .ok r) :
    r.Everywhere Plain := by
  unfold RuleFile.Block.close at h
  split at h
  · exact absurd h (by simp)
  next p hp =>
    rw [← Except.ok.inj h]
    refine everywhere_iff.2 ⟨plain_of_ofText hp _ _, fun f hf => ?_⟩
    exact hfollowUps f (List.mem_reverse.1 hf)

/-- **Rules that come from text are plain**, and so are the rules below them. -/
theorem FromText.everywhere_plain {r : Rule} (h : r.FromText) : r.Everywhere Plain := by
  induction h with
  | ofText h =>
    obtain ⟨p, hp, h⟩ := exists_of_bind_eq_ok h
    rw [← Except.ok.inj h]
    exact everywhere_iff.2 ⟨plain_of_ofText hp _ _, fun f hf => absurd hf (by simp)⟩
  | read h hr => exact RuleFile.forall_mem_of_readRules everywhere_plain_of_close h _ hr
  | withFollowUp _ _ ihRule ihFollowUp =>
    obtain ⟨hplain, hfollowUps⟩ := everywhere_iff.1 ihRule
    refine everywhere_iff.2 ⟨⟨hplain.items, hplain.tokens⟩, fun f hf => ?_⟩
    rcases List.mem_append.1 hf with hf | hf
    · exact hfollowUps f hf
    · exact List.mem_singleton.1 hf ▸ ihFollowUp
  | atLine _ _ ih =>
    obtain ⟨hplain, hfollowUps⟩ := everywhere_iff.1 ih
    exact everywhere_iff.2 ⟨⟨hplain.items, hplain.tokens⟩, hfollowUps⟩

end Rule

end TokenEdit
