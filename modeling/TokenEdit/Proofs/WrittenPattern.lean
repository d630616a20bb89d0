import TokenEdit.Outline
import TokenEdit.Proofs.Lexical
import TokenEdit.Proofs.TextBehind

/-!
# Patterns and the texts that say them

A text says a pattern when its significant tokens are the tokens of the pattern's items, one item
behind the other: a literal is one token, `ID name` two and `EXPR name end` three.  No two lists of
items have the same tokens, as long as the words of the placeholders are not used as literals.

Written out, a pattern has one blank between its tokens.  A significant token of a text is still a
token when a blank follows it (`Kind.Form.before_space`), and a blank between two of them is a
token of its own; so the text of a pattern has the tokens of the pattern again, and says that
pattern and no other.

* `Item.Spells`: the items that a list of tokens says.
* `Item.ofTokens_eq_ok_iff`: reading tokens finds these items.
* `Token.significant_tokenize_render_spaced`: the tokens of tokens written with blanks between them.
* `Pattern.ofText_spells_and_reads_display`: all together.
* `Rule.Written`: the rules of which pattern and template are said by texts.
-/

namespace TokenEdit

/-! ## Tokens that stand alone -/

namespace Token

/-- A significant token that is the only token of its text. -/
structure Spaceable (t : Token) : Prop where
  whole : t.Whole
  isDelimiter_eq : t.isDelimiter = false

theorem spaceable_of_mem_significant {source : List Char} {t : Token}
    (h : t ∈ Token.significant (tokenize source)) : t.Spaceable := by
  obtain ⟨hmem, hsignificant⟩ := List.mem_filter.1 h
  exact ⟨whole_of_mem_tokenize hmem, Bool.not_eq_true' _ ▸ hsignificant⟩

/-- No blank starts a significant token. -/
theorem Spaceable.head_not_blank {t : Token} (h : t.Spaceable) (rest : List Char) :
    ∀ c ∈ (t.text ++ rest).head?, c ∉ blanks := by
  intro c hc hblank
  obtain ⟨c', cs, htext⟩ := List.exists_cons_of_ne_nil h.whole.1
  have hlayout : isLayoutText (c' :: cs) = false := by
    have hlexical : t.isDelimiter = isLayoutText t.text := h.whole.classified.lexical
    rw [← htext, ← hlexical, h.isDelimiter_eq]
  obtain rfl : c' = c := by
    rw [htext] at hc
    exact Option.some.inj hc
  rw [isLayoutText_cons_of_isBlankChar ((isBlankChar_iff c').2 hblank)] at hlayout
  exact absurd hlayout (by decide)

/-! ## Tokens with blanks between them -/

/-- A list of tokens with one blank between any two of them. -/
def spaced (ts : List Token) : List Token :=
  ts.intersperse (spaces 1)

theorem spaced_cons_cons (t u : Token) (ts : List Token) :
    spaced (t :: u :: ts) = t :: spaces 1 :: spaced (u :: ts) :=
  List.intersperse_cons_cons

theorem spaced_append : ∀ {left right : List Token}, left ≠ [] → right ≠ [] →
    spaced (left ++ right) = spaced left ++ spaces 1 :: spaced right
  | [], _, hleft, _ => absurd rfl hleft
  | [t], right, _, hright => by
    obtain ⟨u, ts, rfl⟩ := List.exists_cons_of_ne_nil hright
    exact spaced_cons_cons t u ts
  | t :: u :: left, right, _, hright => by
    have ih := spaced_append (List.cons_ne_nil u left) hright
    rw [List.cons_append, List.cons_append, spaced_cons_cons, ← List.cons_append, ih,
      spaced_cons_cons, List.cons_append, List.cons_append]

/-- The blanks between significant tokens are layout. -/
theorem significant_spaced : ∀ {ts : List Token}, (∀ t ∈ ts, t.isDelimiter = false) →
    significant (spaced ts) = ts
  | [], _ => rfl
  | [t], h => by
    have ht : t.isDelimiter = false := h t List.mem_cons_self
    simp [spaced, significant, ht]
  | t :: u :: ts, h => by
    have ht : t.isDelimiter = false := h t List.mem_cons_self
    have ih := significant_spaced fun v hv => h v (List.mem_cons_of_mem t hv)
    rw [spaced_cons_cons]
    simp only [significant, List.filter_cons, ht, isDelimiter_spaces] at ih ⊢
    simpa using ih

theorem maximalMunch_spaced : ∀ {ts : List Token}, (∀ t ∈ ts, t.Spaceable) →
    MaximalMunch (spaced ts)
  | [], _ => maximalMunch_nil
  | [t], h => maximalMunch_cons_iff.2 ⟨(h t List.mem_cons_self).whole, maximalMunch_nil⟩
  | t :: u :: ts, h => by
    have ht := h t List.mem_cons_self
    have hu := h u (List.mem_cons_of_mem t List.mem_cons_self)
    have ih := maximalMunch_spaced fun v hv => h v (List.mem_cons_of_mem t hv)
    have hblank : ∀ c ∈ (render (spaced (u :: ts))).head?, c ∉ blanks := by
      cases ts with
      | nil => exact hu.head_not_blank _
      | cons v ts =>
        rw [spaced_cons_cons, render_cons]
        exact hu.head_not_blank _
    rw [spaced_cons_cons, maximalMunch_cons_iff, maximalMunch_cons_iff, render_cons]
    refine ⟨⟨ht.whole.1, ht.whole.2.before_space ht.isDelimiter_eq _⟩, ⟨?_, ?_⟩, ih⟩
    · exact List.cons_ne_nil _ _
    · exact ⟨by decide, List.forall_mem_singleton.2 (by decide), hblank⟩

/-- **Significant tokens that are written with blanks between them are read again.** -/
theorem significant_tokenize_render_spaced {ts : List Token} (h : ∀ t ∈ ts, t.Spaceable) :
    significant (tokenize (render (spaced ts))) = ts := by
  rw [(maximalMunch_spaced h).tokenize_render]
  exact significant_spaced fun t ht => (h t ht).isDelimiter_eq

end Token

/-! ## The tokens of an item -/

/-- The word of a placeholder as a token. -/
def Placeholder.token (placeholder : Placeholder) : Token :=
  ⟨.identifier, placeholder.word⟩

@[simp] theorem Placeholder.text_token (placeholder : Placeholder) :
    placeholder.token.text = placeholder.word := rfl

namespace Item

/-- The tokens that an item is written as. -/
def tokens : Item → List Token
  | literal t => [t]
  | ident name => [⟨.identifier, "ID".toList⟩, ⟨.identifier, name⟩]
  | expr name terminator => [⟨.identifier, "EXPR".toList⟩, ⟨.identifier, name⟩, terminator]

/-- Literals are not the words of placeholders, and names are identifiers. -/
def Written : Item → Prop
  | literal t => t.text ≠ "ID".toList ∧ t.text ≠ "EXPR".toList
  | ident name | expr name _ => Token.Whole ⟨.identifier, name⟩

/-- The items whose tokens, one item behind the other, are the given ones. -/
structure Spells (items : List Item) (ts : List Token) : Prop where
  tokens_eq : items.flatMap Item.tokens = ts
  written : ∀ item ∈ items, item.Written

theorem tokens_ne_nil (item : Item) : item.tokens ≠ [] := by
  cases item <;> exact List.cons_ne_nil _ _

theorem spells_nil : Spells [] [] :=
  ⟨rfl, fun item h => absurd h (by simp)⟩

theorem spells_cons_iff {item : Item} {items : List Item} {ts : List Token} :
    Spells (item :: items) ts ↔
      item.Written ∧ ∃ more, Spells items more ∧ item.tokens ++ more = ts := by
  constructor
  · rintro ⟨htokens, hwritten⟩
    obtain ⟨hitem, hitems⟩ := List.forall_mem_cons.1 hwritten
    exact ⟨hitem, _, ⟨rfl, hitems⟩, htokens⟩
  · rintro ⟨hitem, more, ⟨rfl, hitems⟩, htokens⟩
    exact ⟨htokens, List.forall_mem_cons.2 ⟨hitem, hitems⟩⟩

/-! ## Reading items -/

theorem captureName_eq_ok_iff {placeholder : Placeholder} {t : Token} {name : List Char} :
    placeholder.captureName t = .ok name ↔ t = ⟨.identifier, name⟩ := by
  obtain ⟨kind, text⟩ := t
  by_cases hkind : kind = .identifier <;> simp [Placeholder.captureName, hkind]

/-- Tokens of a text with the word of a placeholder are that placeholder. -/
theorem eq_placeholderToken {t : Token} (ht : t.Whole) {placeholder : Placeholder}
    (h : t.text = placeholder.word) : t = placeholder.token := by
  have hkind : t.kind = .identifier := by
    rw [ht.classified, h]
    cases placeholder <;> rfl
  obtain ⟨kind, text⟩ := t
  rw [Placeholder.token, ← h, ← hkind]

/-- What is read from tokens spells them. -/
theorem spells_of_ofTokens {ts : List Token} (hts : ∀ t ∈ ts, t.Whole) {items : List Item}
    (h : ofTokens ts = .ok items) : Spells items ts := by
  fun_induction ofTokens ts generalizing items with
  | case1 =>
    obtain rfl : [] = items := Except.ok.inj h
    exact spells_nil
  | case2 | case4 => exact absurd h (by simp)
  | case3 t hword nameToken ts ih =>
    obtain ⟨ht, hname, hbehind⟩ : t.Whole ∧ nameToken.Whole ∧ ∀ t ∈ ts, t.Whole := by
      simpa only [List.forall_mem_cons] using hts
    obtain ⟨name, hcapture, h⟩ := exists_of_bind_eq_ok h
    obtain ⟨more, hmore, h⟩ := exists_of_bind_eq_ok h
    obtain rfl : ident name :: more = items := Except.ok.inj h
    obtain rfl := captureName_eq_ok_iff.1 hcapture
    obtain rfl := eq_placeholderToken ht hword
    exact spells_cons_iff.2 ⟨hname, ts, ih hbehind hmore, rfl⟩
  | case5 =>
    obtain ⟨name, -, h⟩ := exists_of_bind_eq_ok h
    exact absurd h (by simp)
  | case6 t _ hword nameToken terminator ts ih =>
    obtain ⟨ht, hname, -, hbehind⟩ :
        t.Whole ∧ nameToken.Whole ∧ terminator.Whole ∧ ∀ t ∈ ts, t.Whole := by
      simpa only [List.forall_mem_cons] using hts
    obtain ⟨name, hcapture, h⟩ := exists_of_bind_eq_ok h
    obtain ⟨more, hmore, h⟩ := exists_of_bind_eq_ok h
    obtain rfl : expr name terminator :: more = items := Except.ok.inj h
    obtain rfl := captureName_eq_ok_iff.1 hcapture
    obtain rfl := eq_placeholderToken ht hword
    exact spells_cons_iff.2 ⟨hname, ts, ih hbehind hmore, rfl⟩
  | case7 t ts hident hexpr ih =>
    obtain ⟨more, hmore, h⟩ := exists_of_bind_eq_ok h
    obtain rfl : literal t :: more = items := Except.ok.inj h
    have hmore := ih (fun t ht => hts t (List.mem_cons_of_mem _ ht)) hmore
    exact spells_cons_iff.2 ⟨⟨hident, hexpr⟩, ts, hmore, rfl⟩

/-- Items are read from the tokens that they spell. -/
theorem Spells.ofTokens_eq {items : List Item} {ts : List Token} (h : Spells items ts) :
    ofTokens ts = .ok items := by
  induction items generalizing ts with
  | nil =>
    obtain rfl : [] = ts := h.tokens_eq
    rfl
  | cons item items ih =>
    obtain ⟨hitem, more, hmore, rfl⟩ := spells_cons_iff.1 h
    have hread := ih hmore
    cases item with
    | literal t =>
      have hident : t.text ≠ Placeholder.ident.word := hitem.1
      have hexpr : t.text ≠ Placeholder.expr.word := hitem.2
      show ofTokens (t :: more) = _
      rw [ofTokens.eq_def]
      simp only [if_neg hident, if_neg hexpr, hread]
      rfl
    | ident name =>
      show ofTokens (Placeholder.ident.token :: ⟨.identifier, name⟩ :: more) = _
      rw [ofTokens, Placeholder.text_token, if_pos rfl, captureName_eq_ok_iff.2 rfl, hread]
      rfl
    | expr name terminator =>
      show ofTokens (Placeholder.expr.token :: ⟨.identifier, name⟩ :: terminator :: more) = _
      rw [ofTokens, Placeholder.text_token, if_neg (by decide), if_pos rfl]
      simp only [captureName_eq_ok_iff.2 rfl, hread]
      rfl

theorem ofTokens_eq_ok_iff {ts : List Token} (hts : ∀ t ∈ ts, t.Whole) {items : List Item} :
    ofTokens ts = .ok items ↔ Spells items ts :=
  ⟨spells_of_ofTokens hts, Spells.ofTokens_eq⟩

/-- The text of an item has one blank between its tokens. -/
theorem display_eq (item : Item) : item.display = Token.render (Token.spaced item.tokens) := by
  cases item <;> simp [display, tokens, Token.spaced, Token.spaces, Placeholder.word]

end Item

/-! ## Writing a pattern -/

namespace Pattern

theorem ofText_eq_ok_iff {text : List Char} {p : Pattern} :
    ofText text = .ok p ↔ Item.Spells p.items (Token.significant (tokenize text)) := by
  have hwhole : ∀ t ∈ Token.significant (tokenize text), t.Whole :=
    fun t ht => (Token.spaceable_of_mem_significant ht).whole
  rw [← Item.ofTokens_eq_ok_iff hwhole]
  constructor
  · intro h
    obtain ⟨items, hitems, h⟩ := exists_of_bind_eq_ok h
    unfold ofItems at h
    split at h
    · exact absurd h (by simp)
    · rw [← Except.ok.inj h]
      exact hitems
  · intro h
    rw [ofText, h]
    exact dif_neg p.items_ne_nil

/-- The tokens of a written pattern are significant tokens of the text. -/
theorem mem_significant_of_ofText {text : List Char} {p : Pattern} (h : ofText text = .ok p)
    {item : Item} (hitem : item ∈ p.items) :
    ∀ t ∈ item.tokens, t ∈ Token.significant (tokenize text) := by
  intro t ht
  rw [← (ofText_eq_ok_iff.1 h).tokens_eq]
  exact List.mem_flatMap.2 ⟨item, hitem, ht⟩

theorem display_items : ∀ {items : List Item}, items ≠ [] →
    [' '].intercalate (items.map Item.display) =
      Token.render (Token.spaced (items.flatMap Item.tokens))
  | [], h => absurd rfl h
  | [item], _ => by simp [Item.display_eq]
  | item :: item' :: items, _ => by
    have ih := display_items (List.cons_ne_nil item' items)
    have hbehind : (item' :: items).flatMap Item.tokens ≠ [] := by
      simp [Item.tokens_ne_nil]
    rw [List.flatMap_cons, Token.spaced_append item.tokens_ne_nil hbehind, Token.render_append,
      Token.render_cons, ← ih, ← Item.display_eq]
    simp [Token.spaces]

/-- The text of a pattern says the pattern, when it was read from a text. -/
theorem ofText_display {text : List Char} {p : Pattern} (h : ofText text = .ok p) :
    ofText p.display = .ok p := by
  have hspells := ofText_eq_ok_iff.1 h
  have hspaceable : ∀ t ∈ p.items.flatMap Item.tokens, t.Spaceable := by
    rw [hspells.tokens_eq]
    exact fun t ht => Token.spaceable_of_mem_significant ht
  refine ofText_eq_ok_iff.2 ⟨?_, hspells.written⟩
  rw [display, display_items p.items_ne_nil, Token.significant_tokenize_render_spaced hspaceable]

/-- The patterns of a rule file were read from texts. -/
theorem exists_ofText_of_readRules {file : List Char} {rules : List Rule}
    (h : readRules file = .ok rules) : ∀ r ∈ rules, ∃ text, ofText text = .ok r.pattern := by
  refine RuleFile.forall_mem_of_readRules (fun {b r} _ hclose => ?_) h
  unfold RuleFile.Block.close at hclose
  split at hclose
  · exact absurd hclose (by simp)
  next p hp =>
    rw [← Except.ok.inj hclose]
    exact ⟨_, hp⟩

/-- **A text says a pattern exactly when its significant tokens are those of a list of items**,
which is the only such list, **and the text of a pattern says that pattern.**  So no two patterns
that were read have the same text, and the outline of a rule shows the pattern of the rule. -/
theorem ofText_spells_and_reads_display (text : List Char) :
    ((∃ p, ofText text = .ok p) ↔
        ∃ items, items ≠ [] ∧ Item.Spells items (Token.significant (tokenize text))) ∧
      (∀ p, ofText text = .ok p →
        (∀ items, Item.Spells items (Token.significant (tokenize text)) ↔ items = p.items) ∧
          ofText p.display = .ok p ∧
          ∀ text' p', ofText text' = .ok p' → p'.display = p.display → p' = p) ∧
      ∀ file rules r, readRules file = .ok rules → r ∈ rules →
        ofText r.outline.pattern = .ok r.pattern := by
  refine ⟨⟨?_, ?_⟩, fun p h => ⟨fun items => ⟨?_, ?_⟩, ofText_display h, ?_⟩, ?_⟩
  · rintro ⟨p, h⟩
    exact ⟨p.items, p.items_ne_nil, ofText_eq_ok_iff.1 h⟩
  · rintro ⟨items, hne, hspells⟩
    exact ⟨⟨items, hne⟩, ofText_eq_ok_iff.2 hspells⟩
  · intro hitems
    have hp : Item.ofTokens (Token.significant (tokenize text)) = .ok p.items :=
      (ofText_eq_ok_iff.1 h).ofTokens_eq
    rw [hitems.ofTokens_eq] at hp
    exact Except.ok.inj hp
  · rintro rfl
    exact ofText_eq_ok_iff.1 h
  · intro text' p' h' hdisplay
    have hp' := ofText_display h'
    rw [hdisplay, ofText_display h] at hp'
    exact (Except.ok.inj hp').symm
  · intro file rules r hrules hr
    obtain ⟨patternText, hpattern⟩ := exists_ofText_of_readRules hrules r hr
    exact ofText_display hpattern

/-- The words of the placeholders as names, a slash as a terminator and comments between words. -/
theorem reads_display_of_placeholder_names :
    let text := "ID EXPR/**/EXPR ID/ 12ab // c".toList
    let p : Pattern := ⟨[.ident "EXPR".toList, .expr "ID".toList ⟨.other, ['/']⟩,
      .literal ⟨.number, "12".toList⟩, .literal ⟨.identifier, "ab".toList⟩], List.cons_ne_nil _ _⟩
    ofText text = .ok p ∧ p.display = "ID EXPR EXPR ID / 12 ab".toList ∧
      ofText p.display = .ok p := by
  intro text p
  have htokens : Token.significant (tokenize text) = p.items.flatMap Item.tokens := by
    decide +kernel
  have htext : ofText text = .ok p := by
    rw [ofText, htokens]
    rfl
  exact ⟨htext, by decide, ((ofText_spells_and_reads_display text).2.1 p htext).2.1⟩

end Pattern

/-! ## Written rules -/

/-- The pattern and the template are those of texts. -/
structure Rule.Written (r : Rule) : Prop where
  pattern : ∃ text, Pattern.ofText text = .ok r.pattern
  template : ∃ text, r.template = Template.ofText text

end TokenEdit
