import TokenEdit.Proofs.Lexical
import TokenEdit.Proofs.Occurrence

/-!
# Matching up to layout

Dropping the delimiters of a list changes neither whether a pattern occurs at its start nor what
the occurrence captures, up to layout.  The number of tokens taken changes with the list: what
stays is the number of significant tokens among them.

Every statement here has one form.  Whatever is done to the list without its delimiters gives the
same result, seen without delimiters, as what is done to the list itself.

* `spanLengthFrom?_significant`: spans; this is where delimiters must not look like brackets or
  terminators.
* `Pattern.match?_significant`: occurrences.
* `Template.significant_expand`: expanded templates.
-/

namespace TokenEdit

/-! ## Lists without their delimiters -/

namespace Token

@[simp] theorem significant_nil : significant [] = [] := rfl

theorem significant_cons_of_isDelimiter {t : Token} (ht : t.isDelimiter = true) (ts : List Token) :
    significant (t :: ts) = significant ts :=
  List.filter_cons_of_neg (by simp [ht])

theorem significant_cons_of_significant {t : Token} (ht : t.isDelimiter = false)
    (ts : List Token) : significant (t :: ts) = t :: significant ts :=
  List.filter_cons_of_pos (by simp [ht])

theorem significant_reverse (ts : List Token) :
    significant ts.reverse = (significant ts).reverse :=
  List.filter_reverse

@[simp] theorem significant_significant (ts : List Token) :
    significant (significant ts) = significant ts := by
  simp only [significant, List.filter_filter, Bool.and_self]

theorem sameSignificant_significant (left right : List Token) :
    sameSignificant (significant left) (significant right) = sameSignificant left right := by
  simp only [sameSignificant, significantTexts, significant_significant]

/-- The significant tokens among the first `n` tokens come first among the significant tokens. -/
theorem take_significant (n : Nat) (ts : List Token) :
    (significant ts).take (significant (ts.take n)).length = significant (ts.take n) := by
  have hsplit : significant ts = significant (ts.take n) ++ significant (ts.drop n) := by
    rw [← significant_append, List.take_append_drop]
  rw [hsplit, List.take_left]

/-- The significant tokens behind the first `n` tokens are behind those among them. -/
theorem drop_significant (n : Nat) (ts : List Token) :
    (significant ts).drop (significant (ts.take n)).length = significant (ts.drop n) := by
  have hsplit : significant ts = significant (ts.take n) ++ significant (ts.drop n) := by
    rw [← significant_append, List.take_append_drop]
  rw [hsplit, List.drop_left]

theorem length_significant_take_add (n m : Nat) (ts : List Token) :
    (significant (ts.take (n + m))).length =
      (significant (ts.take n)).length + (significant ((ts.drop n).take m)).length := by
  rw [List.take_add, significant_append, List.length_append]

end Token

open Token (significant)

/-! ## Spans -/

/-- The tokens already passed are only counted. -/
theorem spanLengthFrom?_passed (terminator : List Char) (passed : Nat)
    (closers : List (List Char)) (ts : List Token) :
    spanLengthFrom? terminator passed closers ts =
      (spanLengthFrom? terminator 0 closers ts).map (passed + ·) := by
  induction ts generalizing passed closers with
  | nil => simp
  | cons t ts ih =>
    by_cases ht : t.text = closers.headD terminator
    · cases closers with
      | nil =>
        replace ht : t.text = terminator := ht
        rw [spanLengthFrom?_terminator ht, spanLengthFrom?_terminator ht]
        rfl
      | cons closer outer =>
        replace ht : t.text = closer := ht
        rw [spanLengthFrom?_closer ht, spanLengthFrom?_closer ht, ih, ih (0 + 1), Option.map_map]
        congr 1
        funext n
        simp only [Function.comp_apply]
        omega
    · rw [spanLengthFrom?_other ht, spanLengthFrom?_other ht, ih, ih (0 + 1), Option.map_map]
      congr 1
      funext n
      simp only [Function.comp_apply]
      omega

/-- The length of a span without its delimiters, behind a token `t` that is passed. -/
theorem spanLengthFrom?_behind {terminator : List Char} {closers : List (List Char)}
    {ts : List Token} (t : Token)
    (h : (spanLengthFrom? terminator 0 closers ts).map (fun n => (significant (ts.take n)).length) =
      spanLengthFrom? terminator 0 closers (significant ts)) :
    (spanLengthFrom? terminator 1 closers ts).map
        (fun n => (significant ((t :: ts).take n)).length) =
      spanLengthFrom? terminator (significant [t]).length closers (significant ts) := by
  rw [spanLengthFrom?_passed terminator 1,
    spanLengthFrom?_passed terminator (significant [t]).length, ← h, Option.map_map,
    Option.map_map]
  congr 1
  funext n
  have hcons : (t :: ts).take (1 + n) = [t] ++ ts.take n := by rw [Nat.add_comm]; rfl
  simp only [Function.comp_apply, hcons, Token.significant_append, List.length_append]

/-- **Spans up to layout.**  A delimiter is neither the terminator nor a bracket, so a span passes
it without notice. -/
theorem spanLengthFrom?_significant {terminator : List Char}
    (hterminator : isLayoutText terminator = false) {closers : List (List Char)}
    (hclosers : ∀ closer ∈ closers, isLayoutText closer = false) {ts : List Token}
    (hts : ∀ t ∈ ts, t.Lexical) :
    (spanLengthFrom? terminator 0 closers ts).map (fun n => (significant (ts.take n)).length) =
      spanLengthFrom? terminator 0 closers (significant ts) := by
  induction ts generalizing closers with
  | nil => simp
  | cons t ts ih =>
    obtain ⟨hlexical, hts⟩ := List.forall_mem_cons.1 hts
    cases ht : t.isDelimiter with
    | true =>
      have hlayout : isLayoutText t.text = true := hlexical.symm.trans ht
      have hother : t.text ≠ closers.headD terminator := by
        intro heq
        rw [heq] at hlayout
        cases closers with
        | nil => exact Bool.false_ne_true (hterminator.symm.trans hlayout)
        | cons closer outer =>
          have hcloser := hclosers closer List.mem_cons_self
          exact Bool.false_ne_true (hcloser.symm.trans hlayout)
      have hregion : regionEnd? t.text = none := by
        unfold regionEnd?
        split
        next htext => exact absurd (htext ▸ hlayout) (by decide)
        next htext => exact absurd (htext ▸ hlayout) (by decide)
        · rfl
      rw [spanLengthFrom?_other hother, hregion]
      rw [Token.significant_cons_of_isDelimiter ht]
      have hnone : (significant [t]).length = 0 := by
        rw [Token.significant_cons_of_isDelimiter ht, Token.significant_nil, List.length_nil]
      have hbehind := spanLengthFrom?_behind t (ih hclosers hts)
      rw [hnone] at hbehind
      exact hbehind
    | false =>
      have hone : (significant [t]).length = 1 := by
        rw [Token.significant_cons_of_significant ht, Token.significant_nil,
          List.length_singleton]
      rw [Token.significant_cons_of_significant ht]
      by_cases htext : t.text = closers.headD terminator
      · cases closers with
        | nil =>
          replace htext : t.text = terminator := htext
          rw [spanLengthFrom?_terminator htext, spanLengthFrom?_terminator htext]
          rfl
        | cons closer outer =>
          replace htext : t.text = closer := htext
          rw [spanLengthFrom?_closer htext, spanLengthFrom?_closer htext]
          have hbehind := spanLengthFrom?_behind t (ih (List.forall_mem_cons.1 hclosers).2 hts)
          rw [hone] at hbehind
          exact hbehind
      · have hopened : ∀ closer ∈ (regionEnd? t.text).toList ++ closers,
            isLayoutText closer = false := by
          intro closer hcloser
          rcases List.mem_append.1 hcloser with hcloser | hcloser
          · exact isLayoutText_of_regionEnd? (Option.mem_toList.1 hcloser)
          · exact hclosers closer hcloser
        rw [spanLengthFrom?_other htext, spanLengthFrom?_other htext]
        have hbehind := spanLengthFrom?_behind t (ih hopened hts)
        rw [hone] at hbehind
        exact hbehind

theorem spanLength?_significant {terminator : List Char}
    (hterminator : isLayoutText terminator = false) {ts : List Token} (hts : ∀ t ∈ ts, t.Lexical) :
    (spanLength? terminator ts).map (fun n => (significant (ts.take n)).length) =
      spanLength? terminator (significant ts) :=
  spanLengthFrom?_significant hterminator (List.forall_mem_nil _) hts

/-- The terminator counts as a significant token behind its span. -/
theorem length_significant_span {terminator : List Char}
    (hterminator : isLayoutText terminator = false) {ts : List Token} (hts : ∀ t ∈ ts, t.Lexical)
    {length : Nat} (h : spanLength? terminator ts = some length) :
    (significant (ts.take (length + 1))).length = (significant (ts.take length)).length + 1 := by
  obtain ⟨span, t, rest, rfl, ht, hlength, -⟩ := spanLengthFrom?_split h
  obtain rfl : length = span.length := hlength.trans (Nat.zero_add _)
  have hlexical : t.Lexical := hts t (List.mem_append_right _ List.mem_cons_self)
  have hsignificant : t.isDelimiter = false := by rw [hlexical, ht, hterminator]
  have htake : (span ++ t :: rest).take (span.length + 1) = span ++ [t] := by
    rw [List.take_length_add_append]
    rfl
  rw [htake, List.take_left, Token.significant_append, List.length_append,
    Token.significant_cons_of_significant hsignificant, Token.significant_nil,
    List.length_singleton]

/-! ## Captures -/

namespace Bindings

/-- Bindings without the delimiters of the captured tokens. -/
def significant (b : Bindings) : Bindings :=
  ⟨b.entries.map fun entry => (entry.1, Token.significant entry.2), b.journal⟩

theorem significant_insert (b : Bindings) (name : List Char) (span : List Token) :
    (b.insert name span).significant = b.significant.insert name (Token.significant span) := rfl

theorem get?_significant (b : Bindings) (name : List Char) :
    b.significant.get? name = (b.get? name).map Token.significant := by
  obtain ⟨entries, journal⟩ := b
  show (entries.map fun entry => (entry.1, Token.significant entry.2)).lookup name =
    (entries.lookup name).map Token.significant
  induction entries with
  | nil => rfl
  | cons entry entries ih =>
    obtain ⟨x, span⟩ := entry
    rw [List.map_cons, List.lookup_cons, List.lookup_cons]
    cases name == x with
    | true => rfl
    | false => exact ih

/-- Captures agree up to layout anyway, so nothing else decides whether they do. -/
theorem bind?_significant (b : Bindings) (name : List Char) (span : List Token) :
    b.significant.bind? name (Token.significant span) = (b.bind? name span).map significant := by
  cases h : b.get? name with
  | none =>
    have hsignificant : b.significant.get? name = none := by rw [get?_significant, h]; rfl
    rw [bind?_of_get?_eq_none h, bind?_of_get?_eq_none hsignificant, Option.map_some,
      significant_insert]
  | some bound =>
    have hsignificant : b.significant.get? name = some (Token.significant bound) := by
      rw [get?_significant, h]; rfl
    rw [bind?_of_get?_eq_some h, bind?_of_get?_eq_some hsignificant]
    rw [Token.sameSignificant_significant]
    by_cases hsame : Token.sameSignificant bound span = true
    · simp only [hsame, if_true, Option.map_some]
    · simp only [hsame, if_false, Option.map_none, Bool.false_eq_true]

end Bindings

/-! ## Occurrences -/

/-- What an occurrence takes and captures, without delimiters: the number of significant tokens
and the bindings up to layout. -/
def significantResult (ts : List Token) (result : Nat × Bindings) : Nat × Bindings :=
  ((significant (ts.take result.1)).length, result.2.significant)

namespace Item

theorem matchHere?_significant {item : Item} (hitem : item.Plain) (b : Bindings) {t : Token}
    (ht : t.isDelimiter = false) {ts : List Token} (hts : ∀ t' ∈ t :: ts, t'.Lexical) :
    item.matchHere? b.significant (t :: significant ts) =
      (item.matchHere? b (t :: ts)).map (significantResult (t :: ts)) := by
  have hone : significant [t] = [t] := by
    rw [Token.significant_cons_of_significant ht, Token.significant_nil]
  cases item with
  | literal l =>
    simp only [matchHere?]
    split
    · simp [significantResult, hone]
    · rfl
  | ident name =>
    simp only [matchHere?]
    split
    · rw [← hone, Bindings.bind?_significant, hone, Option.map_map, Option.map_map]
      congr 1
      funext b'
      simp [significantResult, hone]
    · rfl
  | expr name terminator =>
    have hcons := Token.significant_cons_of_significant ht ts
    have hspan := spanLength?_significant hitem hts
    rw [hcons] at hspan
    simp only [matchHere?, ← hspan]
    cases hlength : spanLength? terminator.text (t :: ts) with
    | none => rfl
    | some length =>
      simp only [Option.map_some, Option.bind_eq_bind, Option.bind_some]
      rw [← hcons, Token.take_significant, Bindings.bind?_significant]
      cases b.bind? name ((t :: ts).take length) with
      | none => rfl
      | some b' =>
        refine congrArg some (Prod.ext ?_ rfl)
        exact (length_significant_span hitem hts hlength).symm

theorem match?_significant {item : Item} (hitem : item.Plain) (b : Bindings) {ts : List Token}
    (hts : ∀ t ∈ ts, t.Lexical) :
    item.match? b.significant (significant ts) =
      (item.match? b ts).map (significantResult ts) := by
  induction ts with
  | nil => simp
  | cons t ts ih =>
    cases ht : t.isDelimiter with
    | true =>
      rw [Token.significant_cons_of_isDelimiter ht, match?_cons_of_isDelimiter ht,
        ih (List.forall_mem_cons.1 hts).2, Option.map_map]
      congr 1
      funext result
      simp only [significantResult, Function.comp_apply, List.take_succ_cons,
        Token.significant_cons_of_isDelimiter ht]
    | false =>
      rw [Token.significant_cons_of_significant ht, match?_cons_of_significant ht,
        match?_cons_of_significant ht, matchHere?_significant hitem b ht hts]

theorem matchAll?_significant {items : List Item} (hitems : ∀ item ∈ items, item.Plain)
    (b : Bindings) {ts : List Token} (hts : ∀ t ∈ ts, t.Lexical) :
    matchAll? b.significant items (significant ts) =
      (matchAll? b items ts).map (significantResult ts) := by
  induction items generalizing b ts with
  | nil => simp [matchAll?, significantResult]
  | cons item items ih =>
    obtain ⟨hitem, hitems⟩ := List.forall_mem_cons.1 hitems
    rw [matchAll?, matchAll?, match?_significant hitem b hts]
    cases item.match? b ts with
    | none => rfl
    | some first =>
      obtain ⟨taken, b₁⟩ := first
      simp only [Option.map_some, significantResult, Option.bind_eq_bind, Option.bind_some]
      rw [Token.drop_significant,
        ih hitems b₁ fun t ht => hts t (List.mem_of_mem_drop ht)]
      cases matchAll? b₁ items (ts.drop taken) with
      | none => rfl
      | some rest =>
        obtain ⟨more, b₂⟩ := rest
        simp [significantResult, Token.length_significant_take_add]

end Item

/-- **Occurrences up to layout.** -/
theorem Pattern.match?_significant {p : Pattern} (hp : ∀ item ∈ p.items, item.Plain)
    (b : Bindings) {ts : List Token} (hts : ∀ t ∈ ts, t.Lexical) :
    p.match? b.significant (significant ts) = (p.match? b ts).map (significantResult ts) :=
  Item.matchAll?_significant hp b hts

/-! ## Templates -/

namespace Template

theorem significant_expandToken (b : Bindings) (indent : Nat) (t : Token) :
    significant (expandToken b indent t) =
      (b.significant.get? t.text).getD (significant [t]) := by
  have hmargin : significant (margin indent t) = [] := by
    unfold margin
    split
    · exact Token.significant_cons_of_isDelimiter rfl []
    · rfl
  rw [expandToken, Token.significant_append, hmargin, List.append_nil, Bindings.get?_significant]
  cases b.get? t.text <;> rfl

/-- **Templates up to layout**: only the captures count, and these without their delimiters. -/
theorem significant_expand (template : Template) (b : Bindings) (indent : Nat) :
    significant (template.expand b indent) =
      template.tokens.flatMap fun t => (b.significant.get? t.text).getD (significant [t]) := by
  rw [expand, Token.significant, List.filter_flatMap]
  congr 1
  funext t
  exact significant_expandToken b indent t

end Template

end TokenEdit
