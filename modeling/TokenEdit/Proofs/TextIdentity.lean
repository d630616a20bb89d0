import TokenEdit.Proofs.Provenance
import TokenEdit.Proofs.SpanGrammar
import TokenEdit.Proofs.WrittenPattern

/-!
# Tokens are told apart by their texts

A token is any text with any class, and where two tokens are compared only their texts are.  An
attempt compares a literal with a token and a terminator with the end of a span, a span opens and
closes regions by the texts of brackets, captures agree when their significant texts do, and a
template token stands for a capture when its text is a bound name.  All this would go wrong if a
piece of layout could have the text of a bracket, or one text two classes.

Tokens that were cut from texts, from any number of them, are safe.  The tokens of a text can be
cut out at any two of their ends, and what is cut out is cut again into the same tokens: what
stands in front of a token has no part in where it ends, and of the text behind it only the first
character has, so that nothing is lost when it is missing.  A single token is then the token of
its own text, and its text tells its class.

So every comparison of texts is one of tokens.  To say this, each operation that compares texts has
a second form here, which compares tokens with their classes.

* `Token.MaximalMunch.of_isInfix`: tokens that are cut out of a text.
* `exactSpanLength?`, `Bindings.exactBind?`, `Item.exactMatch?`, `Template.exactExpand`: the
  operations with tokens compared.
* `Bindings.Lexed`, `Rule.lexed_of_apply`: the bindings in question, and that runs keep to them.
* `tokens_recut_and_told_apart_by_text`: all together.
-/

namespace TokenEdit

/-! ## Cutting again -/

namespace Token

theorem MaximalMunch.of_append_left {front behind : List Token}
    (h : MaximalMunch (front ++ behind)) : MaximalMunch front := by
  rintro before t after rfl
  obtain ⟨hne, hform⟩ := h before t (after ++ behind) (by simp)
  rw [render_append] at hform
  exact ⟨hne, hform.of_isPrefix (List.prefix_append _ _)⟩

theorem MaximalMunch.of_append_right {front behind : List Token}
    (h : MaximalMunch (front ++ behind)) : MaximalMunch behind := by
  rintro before t after rfl
  exact h (front ++ before) t after (by simp)

/-- **What is cut out at the ends of tokens is still as long as it can be.** -/
theorem MaximalMunch.of_isInfix {ts part : List Token} (h : MaximalMunch ts)
    (hpart : part <:+: ts) : MaximalMunch part := by
  obtain ⟨front, behind, rfl⟩ := hpart
  exact h.of_append_left.of_append_right

theorem tokenize_render_of_isInfix {source : List Char} {part : List Token}
    (h : part <:+: tokenize source) : tokenize (render part) = part :=
  ((maximalMunch_tokenize source).of_isInfix h).tokenize_render

theorem Whole.tokenize_text {t : Token} (h : t.Whole) : tokenize t.text = [t] := by
  have hmunch : MaximalMunch [t] := maximalMunch_cons_iff.2 ⟨h, maximalMunch_nil⟩
  simpa using hmunch.tokenize_render

theorem Whole.lexed {t : Token} (h : t.Whole) : t.Lexed :=
  ⟨t.text, by rw [h.tokenize_text]; exact List.mem_singleton_self t⟩

/-- A margin is cut from its own text. -/
theorem lexed_spaces (width : Nat) (h : width ≠ 0) : (spaces width).Lexed := by
  refine Whole.lexed ⟨?_, ?_, fun c hc => ?_, fun c hc => absurd hc (by simp)⟩
  · simpa [spaces] using h
  · obtain ⟨n, rfl⟩ := Nat.exists_eq_succ_of_ne_zero h
    rw [spaces, List.replicate_succ, List.head?_cons]
    decide
  · rw [List.eq_of_mem_replicate hc]
    decide

/-- Tokens whose texts tell their classes are equal when their texts are. -/
theorem Classified.text_eq_iff {t u : Token} (ht : t.Classified) (hu : u.Classified) :
    t.text = u.text ↔ t = u := by
  constructor
  · intro htext
    obtain ⟨kind, text⟩ := t
    obtain ⟨kind', text'⟩ := u
    obtain rfl : text = text' := htext
    rw [Token.mk.injEq]
    exact ⟨Eq.trans ht (Eq.symm hu), rfl⟩
  · exact congrArg text

theorem sameSignificant_iff_significant_eq {left right : List Token}
    (hleft : ∀ t ∈ left, t.Classified) (hright : ∀ t ∈ right, t.Classified) :
    sameSignificant left right = true ↔ significant left = significant right := by
  refine ⟨significant_eq_of_sameSignificant hleft hright, fun h => sameSignificant_iff.2 ?_⟩
  rw [significantTexts, h, significantTexts]

end Token

/-! ## Spans -/

/-- The closing bracket of the region that a token opens. -/
def exactRegionEnd? (t : Token) : Option Token :=
  if t = ⟨.bracket, ['(']⟩ then some ⟨.bracket, [')']⟩
  else if t = ⟨.bracket, ['{']⟩ then some ⟨.bracket, ['}']⟩
  else none

/-- The number of tokens in front of a terminator, as `spanLengthFrom?` finds it, with tokens in
place of their texts. -/
def exactSpanLengthFrom? (terminator : Token) (passed : Nat) (closers : List Token) :
    List Token → Option Nat
  | [] => none
  | t :: ts =>
    if t = closers.headD terminator then
      match closers with
      | [] => some passed
      | _ :: outer => exactSpanLengthFrom? terminator (passed + 1) outer ts
    else
      exactSpanLengthFrom? terminator (passed + 1) ((exactRegionEnd? t).toList ++ closers) ts

/-- Any token but the one waited for is passed, and may open a region. -/
theorem exactSpanLengthFrom?_other {terminator : Token} {closers : List Token} {t : Token}
    (ht : t ≠ closers.headD terminator) (passed : Nat) (ts : List Token) :
    exactSpanLengthFrom? terminator passed closers (t :: ts) =
      exactSpanLengthFrom? terminator (passed + 1) ((exactRegionEnd? t).toList ++ closers) ts := by
  cases closers <;> simp_all [exactSpanLengthFrom?]

/-- The number of tokens in front of the first unprotected token that is `terminator`. -/
def exactSpanLength? (terminator : Token) (ts : List Token) : Option Nat :=
  exactSpanLengthFrom? terminator 0 [] ts

theorem regionEnd?_text {t : Token} (ht : t.Classified) :
    regionEnd? t.text = (exactRegionEnd? t).map Token.text := by
  have hround : t.text = ['('] ↔ t = ⟨.bracket, ['(']⟩ :=
    ht.text_eq_iff (show Token.Classified ⟨.bracket, ['(']⟩ from rfl)
  have hcurly : t.text = ['{'] ↔ t = ⟨.bracket, ['{']⟩ :=
    ht.text_eq_iff (show Token.Classified ⟨.bracket, ['{']⟩ from rfl)
  unfold exactRegionEnd?
  split
  next h => rw [hround.2 h]; rfl
  next hnotRound =>
  split
  next h => rw [hcurly.2 h]; rfl
  next hnotCurly =>
    exact Span.regionEnd?_eq_none_iff.2 ⟨mt hround.1 hnotRound, mt hcurly.1 hnotCurly⟩

theorem classified_of_exactRegionEnd? {t closer : Token} (h : closer ∈ exactRegionEnd? t) :
    closer.Classified := by
  unfold exactRegionEnd? at h
  split at h
  · rw [← Option.some.inj h]
    rfl
  · split at h
    · rw [← Option.some.inj h]
      rfl
    · exact absurd h (by simp)

theorem spanLengthFrom?_eq_exact {terminator : Token} (hterminator : terminator.Classified)
    {ts : List Token} (hts : ∀ t ∈ ts, t.Classified) {closers : List Token}
    (hclosers : ∀ t ∈ closers, t.Classified) (passed : Nat) :
    spanLengthFrom? terminator.text passed (closers.map Token.text) ts =
      exactSpanLengthFrom? terminator passed closers ts := by
  induction ts generalizing passed closers with
  | nil => rw [spanLengthFrom?_nil, exactSpanLengthFrom?]
  | cons t ts ih =>
    obtain ⟨ht, hts⟩ := List.forall_mem_cons.1 hts
    have hawaited : (closers.map Token.text).headD terminator.text =
        (closers.headD terminator).text := by
      cases closers <;> rfl
    have hawaitedClass : (closers.headD terminator).Classified := by
      cases closers with
      | nil => exact hterminator
      | cons closer outer => exact hclosers closer List.mem_cons_self
    by_cases hend : t = closers.headD terminator
    · cases closers with
      | nil =>
        rw [exactSpanLengthFrom?, if_pos hend]
        exact spanLengthFrom?_terminator (congrArg Token.text hend) passed ts
      | cons closer outer =>
        have htext : t.text = closer.text := congrArg Token.text hend
        rw [exactSpanLengthFrom?, if_pos hend, List.map_cons, spanLengthFrom?_closer htext]
        exact ih hts (List.forall_mem_cons.1 hclosers).2 (passed + 1)
    · have hother : t.text ≠ (closers.map Token.text).headD terminator.text := by
        rw [hawaited]
        exact mt (ht.text_eq_iff hawaitedClass).1 hend
      have hopened : (regionEnd? t.text).toList ++ closers.map Token.text =
          ((exactRegionEnd? t).toList ++ closers).map Token.text := by
        rw [regionEnd?_text ht, List.map_append]
        cases exactRegionEnd? t <;> rfl
      rw [spanLengthFrom?_other hother, hopened, exactSpanLengthFrom?_other hend]
      refine ih hts (List.forall_mem_append.2 ⟨fun closer hcloser => ?_, hclosers⟩) (passed + 1)
      exact classified_of_exactRegionEnd? (Option.mem_toList.1 hcloser)

/-- **A terminator is found by its text where it is found as a token.** -/
theorem spanLength?_eq_exact {terminator : Token} (hterminator : terminator.Classified)
    {ts : List Token} (hts : ∀ t ∈ ts, t.Classified) :
    spanLength? terminator.text ts = exactSpanLength? terminator ts :=
  spanLengthFrom?_eq_exact hterminator hts (List.forall_mem_nil _) 0

/-! ## Captures -/

namespace Bindings

/-- The bindings after a capture of `span` under `name`, which has to have the significant tokens
of what the name stands for. -/
def exactBind? (b : Bindings) (name : List Char) (span : List Token) : Option Bindings :=
  match b.get? name with
  | none => some (b.insert name span)
  | some bound => if Token.significant bound = Token.significant span then some b else none

/-- What a token stands for that is the identifier of a bound name. -/
def exactGet? (b : Bindings) (t : Token) : Option (List Token) :=
  if t.kind = .identifier then b.get? t.text else none

/-- The names are identifiers, and they stand for tokens that were cut from texts. -/
structure Lexed (b : Bindings) : Prop where
  names : b.Within fun name => Token.Lexed ⟨.identifier, name⟩
  tokens : b.All Token.Lexed

theorem lexed_empty : empty.Lexed :=
  ⟨within_empty _, all_empty⟩

/-- Captures agree up to layout when their significant tokens are the same. -/
theorem bind?_eq_exact {b : Bindings} (hb : b.All Token.Classified) (name : List Char)
    {span : List Token} (hspan : ∀ t ∈ span, t.Classified) :
    b.bind? name span = b.exactBind? name span := by
  unfold bind? exactBind?
  cases hget : b.get? name with
  | none => rfl
  | some bound =>
    have hagree := Token.sameSignificant_iff_significant_eq (hb.get? hget) hspan
    exact ite_congr (propext hagree) (fun _ => rfl) (fun _ => rfl)

theorem get?_text_eq_exact {b : Bindings} (hb : b.Lexed) {t : Token} (ht : t.Lexed) :
    b.get? t.text = b.exactGet? t := by
  unfold exactGet?
  split
  · rfl
  next hkind =>
    refine Option.not_isSome_iff_eq_none.1 fun hbound => hkind ?_
    have hname : Token.Classified ⟨.identifier, t.text⟩ := (hb.names t.text hbound).classified
    rw [(ht.classified.text_eq_iff hname).1 rfl]

end Bindings

/-! ## Items and templates -/

namespace Item

/-- Matches an item against tokens that do not start with a delimiter, with tokens compared. -/
def exactMatchHere? (b : Bindings) : Item → List Token → Option (Nat × Bindings)
  | _, [] => none
  | literal l, t :: _ => if t = l then some (1, b) else none
  | ident name, t :: _ =>
    if t.kind = .identifier then (b.exactBind? name [t]).map fun b => (1, b) else none
  | expr name terminator, ts => do
    let length ← exactSpanLength? terminator ts
    let b ← b.exactBind? name (ts.take length)
    return (length + 1, b)

/-- Matches an item, with any delimiters in front of it and with tokens compared. -/
def exactMatch? (b : Bindings) (item : Item) (ts : List Token) : Option (Nat × Bindings) :=
  (item.exactMatchHere? b (ts.dropWhile Token.isDelimiter)).map fun (taken, b) =>
    ((ts.takeWhile Token.isDelimiter).length + taken, b)

/-- The tokens of a written pattern's items are significant tokens of a text. -/
theorem tokens_of_ofText {text : List Char} {p : Pattern} (h : Pattern.ofText text = .ok p)
    {item : Item} (hitem : item ∈ p.items) :
    ∀ t ∈ item.tokens, t.Lexed ∧ t.isDelimiter = false := by
  intro t ht
  have hmem := Pattern.mem_significant_of_ofText h hitem t ht
  have hsignificant := (Token.spaceable_of_mem_significant hmem).isDelimiter_eq
  exact ⟨⟨text, (List.mem_filter.1 hmem).1⟩, hsignificant⟩

theorem identifier_mem_tokens {item : Item} {name : List Char}
    (h : item.captureName? = some name) : ⟨.identifier, name⟩ ∈ item.tokens := by
  cases item with
  | literal l => exact absurd h (by simp [captureName?])
  | ident name' | expr name' terminator =>
    rw [← Option.some.inj h]
    exact List.mem_cons_of_mem _ List.mem_cons_self

theorem matchHere?_eq_exact {item : Item} (hitem : ∀ t ∈ item.tokens, t.Lexed) {b : Bindings}
    (hb : b.Lexed) {ts : List Token} (hts : ∀ t ∈ ts, t.Lexed) :
    item.matchHere? b ts = item.exactMatchHere? b ts := by
  have hbound : b.All Token.Classified :=
    fun entry hentry t ht => (hb.tokens entry hentry t ht).classified
  have hclass : ∀ t ∈ ts, t.Classified := fun t ht => (hts t ht).classified
  cases ts with
  | nil => cases item <;> rfl
  | cons t ts =>
    cases item with
    | literal l =>
      have hl : l.Classified := (hitem l List.mem_cons_self).classified
      have hsame := (hclass t List.mem_cons_self).text_eq_iff hl
      exact ite_congr (propext hsame) (fun _ => rfl) (fun _ => rfl)
    | ident name =>
      have ht : ∀ u ∈ [t], u.Classified :=
        List.forall_mem_singleton.2 (hclass t List.mem_cons_self)
      rw [matchHere?, exactMatchHere?, Bindings.bind?_eq_exact hbound name ht]
    | expr name terminator =>
      have hterminator : terminator.Classified := by
        refine (hitem terminator ?_).classified
        exact List.mem_cons_of_mem _ (List.mem_cons_of_mem _ List.mem_cons_self)
      have hbind : ∀ length, b.bind? name ((t :: ts).take length) =
          b.exactBind? name ((t :: ts).take length) := fun length =>
        Bindings.bind?_eq_exact hbound name fun u hu => hclass u (List.mem_of_mem_take hu)
      simp only [matchHere?, exactMatchHere?, spanLength?_eq_exact hterminator hclass, hbind]

/-- **An item occurs by its texts where it occurs as tokens.** -/
theorem match?_eq_exact {item : Item} (hitem : ∀ t ∈ item.tokens, t.Lexed) {b : Bindings}
    (hb : b.Lexed) {ts : List Token} (hts : ∀ t ∈ ts, t.Lexed) :
    item.match? b ts = item.exactMatch? b ts := by
  have hbehind : ∀ t ∈ ts.dropWhile Token.isDelimiter, t.Lexed :=
    fun t ht => hts t ((List.dropWhile_sublist _).subset ht)
  rw [match?, exactMatch?, matchHere?_eq_exact hitem hb hbehind]

/-- The captures of an item are again tokens of texts, under an identifier. -/
theorem lexed_of_match? {item : Item} (hitem : ∀ t ∈ item.tokens, t.Lexed) {b b' : Bindings}
    (hb : b.Lexed) {ts : List Token} (hts : ∀ t ∈ ts, t.Lexed) {taken : Nat}
    (h : item.match? b ts = some (taken, b')) : b'.Lexed := by
  obtain ⟨captures, hread, hbind⟩ := match?_eq_some_iff.1 h
  obtain ⟨hnames, hspans⟩ := captures_of_read? hread
  refine ⟨hb.names.of_bindAll? (fun c hc => ?_) hbind,
    hb.tokens.of_bindAll? (fun c hc t ht => hts t (hspans c hc ht)) hbind⟩
  have hname : c.name ∈ item.captureName?.toList := hnames ▸ List.mem_map_of_mem hc
  exact hitem _ (identifier_mem_tokens (Option.mem_toList.1 hname))

end Item

namespace Template

/-- The template with captures put in for the identifiers of bound names. -/
def exactExpand (b : Bindings) (indent : Nat) (template : Template) : List Token :=
  template.tokens.flatMap fun t => (b.exactGet? t).getD [t] ++ margin indent t

/-- **A template token stands for a capture by its text where it does as an identifier.** -/
theorem expand_eq_exact {b : Bindings} (hb : b.Lexed) {template : Template}
    (htokens : ∀ t ∈ template.tokens, t.Lexed) (indent : Nat) :
    template.expand b indent = template.exactExpand b indent := by
  unfold expand exactExpand
  rw [List.flatMap_def, List.flatMap_def]
  refine congrArg List.flatten (List.map_congr_left fun t ht => ?_)
  rw [expandToken, Bindings.get?_text_eq_exact hb (htokens t ht)]

end Template

/-! ## Runs -/

namespace Rule

theorem Written.template_lexed {r : Rule} (h : r.Written) : ∀ t ∈ r.template.tokens, t.Lexed := by
  obtain ⟨text, htext⟩ := h.template
  rw [htext]
  exact fun t ht => ⟨text, ht⟩

theorem Written.captureNames_lexed {r : Rule} (h : r.Written) :
    ∀ name ∈ r.pattern.captureNames, Token.Lexed ⟨.identifier, name⟩ := by
  intro name hname
  obtain ⟨text, htext⟩ := h.pattern
  obtain ⟨item, hitem, hcapture⟩ := Pattern.exists_item_of_mem_captureNames hname
  exact (Item.tokens_of_ofText htext hitem _ (Item.identifier_mem_tokens hcapture)).1

/-- **A run of written rules stays with tokens of texts**, in its list and in its bindings. -/
theorem lexed_of_apply {r : Rule} (hr : r.Everywhere Written) {b : Bindings} (hb : b.Lexed)
    {ts : List Token} (hts : ∀ t ∈ ts, t.Lexed) {fuel : Nat} {s : Scan}
    (h : r.apply fuel b ts = some s) : (∀ t ∈ s.tokens, t.Lexed) ∧ s.bindings.Lexed := by
  obtain ⟨os, hos⟩ := Scan.runs_of_run h
  have hall : s.All Token.Lexed :=
    (hos.all Token.lexed_spaces (hr.imp fun _ => Written.template_lexed)
      (Scan.all_start hb.tokens hts [])).1
  have hnames := (hos.within (hr.imp fun _ => Written.captureNames_lexed) hb.names).1
  exact ⟨hall.tokens, hnames, hall.bindings⟩

end Rule

/-! ## All together -/

/-- **The tokens of a text are cut again when they are cut out, and a comparison of their texts is
one of tokens.**

What stands between any two ends of tokens is cut into the tokens that stand there.  A token is the
only token of its text, and tokens of any two texts are equal when their texts are.

An item of a written pattern compares significant tokens only.  On tokens of texts it occurs where
it occurs with tokens compared, and so does the end of a span; captures agree when their
significant tokens do; and a template token stands for a capture when it is the identifier of a
bound name.  What an item captures and what a template is expanded to are tokens of texts again, and
so is all that a run of written rules leaves. -/
theorem tokens_recut_and_told_apart_by_text :
    (∀ source part, part <:+: tokenize source → tokenize (Token.render part) = part) ∧
      (∀ t : Token, t.Lexed →
        tokenize t.text = [t] ∧ ∀ u : Token, u.Lexed → u.text = t.text → u = t) ∧
      (∀ text p, Pattern.ofText text = .ok p → ∀ item ∈ p.items,
        (∀ t ∈ item.tokens, t.Lexed ∧ t.isDelimiter = false) ∧
          ∀ (b : Bindings) (ts : List Token), b.Lexed → (∀ t ∈ ts, t.Lexed) →
            item.match? b ts = item.exactMatch? b ts ∧
              ∀ taken b', item.match? b ts = some (taken, b') → b'.Lexed) ∧
      (∀ (terminator : Token) (ts : List Token), terminator.Lexed → (∀ t ∈ ts, t.Lexed) →
        spanLength? terminator.text ts = exactSpanLength? terminator ts) ∧
      (∀ (b : Bindings) (name : List Char) (span : List Token), b.Lexed → (∀ t ∈ span, t.Lexed) →
        b.bind? name span = b.exactBind? name span) ∧
      (∀ (b : Bindings) (text : List Char) (indent : Nat), b.Lexed →
        (Template.ofText text).expand b indent = (Template.ofText text).exactExpand b indent ∧
          ∀ t ∈ (Template.ofText text).expand b indent, t.Lexed) ∧
      ∀ (r : Rule) (b : Bindings) (ts : List Token), r.Everywhere Rule.Written → b.Lexed →
        (∀ t ∈ ts, t.Lexed) → ∀ fuel s, r.apply fuel b ts = some s →
          (∀ t ∈ s.tokens, t.Lexed) ∧ s.bindings.Lexed := by
  refine ⟨fun source part h => Token.tokenize_render_of_isInfix h, fun t ht => ⟨?_, ?_⟩,
    fun text p hp item hitem => ⟨Item.tokens_of_ofText hp hitem, ?_⟩, ?_, ?_, ?_,
    fun r b ts hr hb hts fuel s h => Rule.lexed_of_apply hr hb hts h⟩
  · obtain ⟨source, hmem⟩ := ht
    exact (Token.whole_of_mem_tokenize hmem).tokenize_text
  · exact fun u hu htext => (hu.classified.text_eq_iff ht.classified).1 htext
  · intro b ts hb hts
    have htokens : ∀ t ∈ item.tokens, t.Lexed := fun t ht => (Item.tokens_of_ofText hp hitem t ht).1
    exact ⟨Item.match?_eq_exact htokens hb hts,
      fun taken b' h => Item.lexed_of_match? htokens hb hts h⟩
  · intro terminator ts hterminator hts
    exact spanLength?_eq_exact hterminator.classified fun t ht => (hts t ht).classified
  · intro b name span hb hspan
    refine Bindings.bind?_eq_exact (fun entry hentry t ht => ?_) name fun t ht => ?_
    · exact (hb.tokens entry hentry t ht).classified
    · exact (hspan t ht).classified
  · intro b text indent hb
    have htokens : ∀ t ∈ (Template.ofText text).tokens, t.Lexed := fun t ht => ⟨text, ht⟩
    exact ⟨Template.expand_eq_exact hb htokens indent,
      Template.all_expand Token.lexed_spaces hb.tokens htokens indent⟩

/-- A call whose argument has a comment with a bracket in it, behind a slash that starts none. -/
theorem protected_call_recut :
    let source := "a/ f(x/*)*/,(y))\r\n//".toList
    let part := (tokenize source).drop 1 |>.take 11
    let p : Pattern := ⟨[.literal ⟨.identifier, ['f']⟩, .literal ⟨.bracket, ['(']⟩,
      .expr ['e'] ⟨.bracket, [')']⟩], List.cons_ne_nil _ _⟩
    let item : Item := .expr ['e'] ⟨.bracket, [')']⟩
    let r : Rule := ⟨p, Template.ofText "e".toList, [], 0⟩
    (part <:+: tokenize source ∧ Token.render part = "/ f(x/*)*/,(y))".toList ∧
        tokenize (Token.render part) = part) ∧
      (Pattern.ofText "f(EXPR e)".toList = .ok p ∧ item ∈ p.items ∧
        item.match? .empty (part.drop 4) = item.exactMatch? .empty (part.drop 4) ∧
        (item.match? .empty (part.drop 4)).map Prod.fst = some 7) ∧
      r.Everywhere Rule.Written ∧
      ∃ s, r.apply 20 .empty part = some s ∧ Token.render s.tokens = "/ x/*)*/,(y)".toList ∧
        (∀ t ∈ s.tokens, t.Lexed) ∧ s.bindings.Lexed := by
  intro source part p item r
  have hpart : part <:+: tokenize source :=
    (List.take_prefix _ _).isInfix.trans (List.drop_suffix _ _).isInfix
  have htokens : Token.significant (tokenize "f(EXPR e)".toList) = p.items.flatMap Item.tokens := by
    decide +kernel
  have hp : Pattern.ofText "f(EXPR e)".toList = .ok p := by
    rw [Pattern.ofText, htokens]
    rfl
  have hitem : item ∈ p.items := by decide
  have hlexed : ∀ t ∈ part, t.Lexed := fun t ht => ⟨source, hpart.subset ht⟩
  have hr : r.Everywhere Rule.Written :=
    Rule.everywhere_iff.2 ⟨⟨⟨_, hp⟩, _, rfl⟩, List.forall_mem_nil _⟩
  obtain ⟨s, hs, hrender⟩ : ∃ s, r.apply 20 .empty part = some s ∧
      Token.render s.tokens = "/ x/*)*/,(y)".toList := by
    refine Option.map_eq_some_iff.1 (?_ : Option.map _ _ = some _)
    decide +kernel
  obtain ⟨hrecut, -, hitems, -, -, -, hruns⟩ := tokens_recut_and_told_apart_by_text
  have hmatch := (hitems _ p hp item hitem).2 .empty (part.drop 4) Bindings.lexed_empty
    fun t ht => hlexed t (List.mem_of_mem_drop ht)
  exact ⟨⟨hpart, by decide +kernel, hrecut source part hpart⟩,
    ⟨hp, hitem, hmatch.1, by decide +kernel⟩, hr, s, hs, hrender,
    hruns r .empty part hr Bindings.lexed_empty hlexed 20 s hs⟩

end TokenEdit
