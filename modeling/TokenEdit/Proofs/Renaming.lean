import TokenEdit.Draft
import TokenEdit.Proofs.Nesting
import TokenEdit.Proofs.Occurrence
import TokenEdit.Proofs.WrittenPattern

/-!
# A renaming can be undone

A rule with one word for its pattern and another one for its template renames.  When the second
word is not in a text, the rule for the opposite direction leads back to that text.  Three things
come together in this.

The words renamed are tokens and not parts of texts: a comment that has the word in it, or a longer
word, is a token of its own and is left alone.  A scan renames the tokens up to the first closing
bracket without a partner, and the stop is at the same place in both directions, because no word
is a bracket.

Between the two runs the tokens are written as a text and cut again.  A token ends where it does
because of the character behind it, and all that counts about that character, where it belongs to
a word, is that it is a letter.  One word in place of another therefore leaves the ends of all
tokens where they are (`Token.MaximalMunch.rename`), and the text is cut into the renamed tokens.

* `IsPlainWord`, `Rule.ofWords`: the words and the rules.
* `UpToStop`: how far a scan comes.
* `Scan.exists_renames`: what a renaming does.
* `Draft.renaming_undone_across_texts`: there and back again.
-/

namespace TokenEdit

/-! ## Words -/

/-- An identifier that is not the word of a placeholder. -/
structure IsPlainWord (text : List Char) : Prop where
  head : ∃ c ∈ text.head?, IsLetter c
  chars : ∀ c ∈ text, IsLetter c ∨ IsDigit c
  ne_ident : text ≠ "ID".toList
  ne_expr : text ≠ "EXPR".toList

namespace IsPlainWord

variable {a : List Char}

theorem whole (h : IsPlainWord a) : Token.Whole ⟨.identifier, a⟩ := by
  obtain ⟨c, hc, -⟩ := h.head
  refine ⟨?_, h.head, h.chars, fun c hc => absurd hc (by simp)⟩
  rintro rfl
  exact absurd hc (by simp)

/-- A word is cut from its own text. -/
theorem tokenize_eq (h : IsPlainWord a) : tokenize a = [⟨.identifier, a⟩] := by
  have hmunch : Token.MaximalMunch [⟨.identifier, a⟩] :=
    Token.maximalMunch_cons_iff.2 ⟨h.whole, Token.maximalMunch_nil⟩
  simpa using hmunch.tokenize_render

theorem kind_eq (h : IsPlainWord a) {source : List Char} {t : Token} (ht : t ∈ tokenize source)
    (htext : t.text = a) : t.kind = .identifier := by
  have hclass : t.kind = Kind.ofText t.text := Token.classified_of_mem_tokenize ht
  have hword : Kind.identifier = Kind.ofText a := h.whole.classified
  rw [hclass, htext, ← hword]

theorem ne_singleton (h : IsPlainWord a) {c : Char} (hc : ¬ IsLetter c) : a ≠ [c] := by
  rintro rfl
  obtain ⟨c', hc', hletter⟩ := h.head
  obtain rfl : c = c' := Option.some.inj hc'
  exact hc hletter

/-- A word is no bracket. -/
theorem depthAfter_eq (h : IsPlainWord a) (depth : Nat) : Scan.depthAfter depth a = some depth := by
  rw [Scan.depthAfter, if_neg (h.ne_singleton (by decide)), if_neg (h.ne_singleton (by decide))]

end IsPlainWord

namespace Rule

/-- The rule that puts `b` in for `a`. -/
def ofWords (a b : List Char) : Rule where
  pattern := ⟨[.literal ⟨.identifier, a⟩], List.cons_ne_nil _ _⟩
  template := ⟨[⟨.identifier, b⟩]⟩
  followUps := []
  line := 0

/-- The two words say the rule. -/
theorem ofText_eq_ofWords {a b : List Char} (ha : IsPlainWord a) (hb : IsPlainWord b) :
    ofText a b = .ok (ofWords a b) := by
  have hpattern : Pattern.ofText a = .ok (ofWords a b).pattern := by
    rw [Pattern.ofText_eq_ok_iff, ha.tokenize_eq]
    exact ⟨rfl, List.forall_mem_singleton.2 ⟨ha.ne_ident, ha.ne_expr⟩⟩
  rw [ofText, hpattern, Template.ofText, hb.tokenize_eq]
  rfl

theorem match?_ofWords {a b : List Char} {t : Token} (ht : t.isDelimiter = false)
    (bindings : Bindings) (ts : List Token) :
    (ofWords a b).pattern.match? bindings (t :: ts) =
      if t.text = a then some (1, bindings) else none := by
  show Item.matchAll? bindings [.literal ⟨.identifier, a⟩] (t :: ts) = _
  rw [Item.matchAll?, Item.match?_cons_of_significant ht, Item.matchHere?]
  split
  · rfl
  · rfl

end Rule

/-! ## Renamed tokens -/

namespace Token

/-- A token with the text `a` as the identifier `b`, and any other token as it is. -/
def rename (a b : List Char) (t : Token) : Token :=
  if t.text = a then ⟨.identifier, b⟩ else t

variable {a b : List Char}

theorem rename_of_text_eq {t : Token} (h : t.text = a) : t.rename a b = ⟨.identifier, b⟩ :=
  if_pos h

theorem rename_of_text_ne {t : Token} (h : t.text ≠ a) : t.rename a b = t :=
  if_neg h

/-- A new word is renamed back, and nothing else is. -/
theorem rename_rename {t : Token} (hkind : t.text = a → t.kind = .identifier) (hnew : t.text ≠ b) :
    (t.rename a b).rename b a = t := by
  by_cases h : t.text = a
  · rw [rename_of_text_eq h, rename, if_pos rfl, ← h, ← hkind h]
  · rw [rename_of_text_ne h, rename_of_text_ne hnew]

theorem map_rename_map_rename {ts : List Token}
    (hkind : ∀ t ∈ ts, t.text = a → t.kind = .identifier) (hnew : ∀ t ∈ ts, t.text ≠ b) :
    (ts.map (rename a b)).map (rename b a) = ts := by
  rw [List.map_map]
  calc ts.map (rename b a ∘ rename a b)
      = ts.map id := List.map_congr_left fun t ht => rename_rename (hkind t ht) (hnew t ht)
    _ = ts := List.map_id ts

/-- The new words are the words renamed. -/
theorem countP_map_rename {ts : List Token} (hnew : ∀ t ∈ ts, t.text ≠ b) :
    (ts.map (rename a b)).countP (fun t => t.text = b) = ts.countP fun t => t.text = a := by
  rw [List.countP_map]
  refine List.countP_congr fun t ht => ?_
  by_cases h : t.text = a
  · simp [rename_of_text_eq h, h]
  · simp [rename_of_text_ne h, h, hnew t ht]

end Token

/-! ## The renamed text is cut alike -/

namespace Token

variable {a b : List Char}

/-- Renaming keeps how a text starts. -/
theorem startAlike_render_rename (ha : IsPlainWord a) (hb : IsPlainWord b) {front rest : List Token}
    (hne : ∀ t ∈ front, t.text ≠ []) :
    StartAlike (render (front ++ rest)) (render (front.map (rename a b) ++ rest)) := by
  cases front with
  | nil => exact .inl rfl
  | cons t front =>
    rw [List.map_cons, List.cons_append, List.cons_append, render_cons, render_cons]
    have hhead : ∀ {text : List Char}, text ≠ [] → ∀ more, (text ++ more).head? = text.head? := by
      intro text h more
      obtain ⟨c, cs, rfl⟩ := List.exists_cons_of_ne_nil h
      rfl
    by_cases h : t.text = a
    · rw [rename_of_text_eq h, h]
      refine .inr ⟨?_, ?_⟩
      · rw [hhead ha.whole.1]
        exact ha.head
      · rw [hhead hb.whole.1]
        exact hb.head
    · have ht : t.text ≠ [] := hne t List.mem_cons_self
      rw [rename_of_text_ne h]
      exact .inl ((hhead ht _).trans (hhead ht _).symm)

/-- **The renamed tokens are the tokens of the renamed text.** -/
theorem MaximalMunch.rename (ha : IsPlainWord a) (hb : IsPlainWord b) {front rest : List Token}
    (hkind : ∀ t ∈ front, t.text = a → t.kind = .identifier)
    (h : MaximalMunch (front ++ rest)) : MaximalMunch (front.map (Token.rename a b) ++ rest) := by
  induction front with
  | nil => exact h
  | cons t front ih =>
    obtain ⟨ht, hkind⟩ := List.forall_mem_cons.1 hkind
    obtain ⟨⟨hne, hform⟩, hmore⟩ := maximalMunch_cons_iff.1 h
    refine maximalMunch_cons_iff.2 ⟨?_, ih hkind hmore⟩
    have hfront : ∀ t ∈ front, t.text ≠ [] := by
      intro t' ht'
      obtain ⟨before, behind, rfl⟩ := List.append_of_mem ht'
      exact (hmore before t' (behind ++ rest) (by simp)).1
    have hform' := hform.of_startAlike (startAlike_render_rename ha hb hfront)
    by_cases heq : t.text = a
    · rw [rename_of_text_eq heq]
      rw [ht heq] at hform'
      exact ⟨hb.whole.1, hb.head, hb.chars, hform'.2.2⟩
    · rw [rename_of_text_ne heq]
      exact ⟨hne, hform'⟩

end Token

/-! ## How far a scan comes -/

/-- The tokens up to the first closing bracket without a partner, when `depth` brackets are open
in front of them, and what is left. -/
structure UpToStop (depth : Nat) (front rest : List Token) : Prop where
  nested : Nested depth front
  stop : rest = [] ∨ (∃ t ts, rest = t :: ts ∧ t.closes = true) ∧ Closed depth front

theorem upToStop_cons_of_isDelimiter {depth : Nat} {t : Token} (ht : t.isDelimiter = true)
    {front rest : List Token} : UpToStop depth (t :: front) rest ↔ UpToStop depth front rest := by
  constructor
  · rintro ⟨hnested, hstop⟩
    rw [closed_cons_of_isDelimiter ht] at hstop
    exact ⟨(nested_cons_of_isDelimiter ht).1 hnested, hstop⟩
  · rintro ⟨hnested, hstop⟩
    rw [← closed_cons_of_isDelimiter ht] at hstop
    exact ⟨(nested_cons_of_isDelimiter ht).2 hnested, hstop⟩

theorem upToStop_cons_of_significant {depth : Nat} {t : Token} (ht : t.isDelimiter = false)
    {front rest : List Token} :
    UpToStop depth (t :: front) rest ↔
      ∃ depth', Scan.depthAfter depth t.text = some depth' ∧ UpToStop depth' front rest := by
  constructor
  · rintro ⟨hnested, hstop⟩
    obtain ⟨depth', hdepth, hnested⟩ := (nested_cons_of_significant ht).1 hnested
    rw [closed_cons_of_significant ht hdepth] at hstop
    exact ⟨depth', hdepth, hnested, hstop⟩
  · rintro ⟨depth', hdepth, hnested, hstop⟩
    rw [← closed_cons_of_significant ht hdepth] at hstop
    exact ⟨(nested_cons_of_significant ht).2 ⟨depth', hdepth, hnested⟩, hstop⟩

/-- Every list can be cut where a scan stops. -/
theorem exists_upToStop (depth : Nat) (ts : List Token) :
    ∃ front rest, ts = front ++ rest ∧ UpToStop depth front rest := by
  induction ts generalizing depth with
  | nil => exact ⟨[], [], rfl, nested_nil depth, .inl rfl⟩
  | cons t ts ih =>
    cases ht : t.isDelimiter with
    | true =>
      obtain ⟨front, rest, rfl, hstop⟩ := ih depth
      exact ⟨t :: front, rest, rfl, (upToStop_cons_of_isDelimiter ht).2 hstop⟩
    | false =>
      cases hdepth : Scan.depthAfter depth t.text with
      | none =>
        obtain ⟨htext, rfl⟩ := depthAfter_eq_none_iff.1 hdepth
        have hcloses : t.closes = true := by simp [Token.closes, ht, htext]
        exact ⟨[], t :: ts, rfl, nested_nil 0, .inr ⟨⟨t, ts, rfl, hcloses⟩, closed_nil_iff.2 rfl⟩⟩
      | some depth' =>
        obtain ⟨front, rest, rfl, hstop⟩ := ih depth'
        exact ⟨t :: front, rest, rfl, (upToStop_cons_of_significant ht).2 ⟨depth', hdepth, hstop⟩⟩

/-- Renaming moves no stop. -/
theorem UpToStop.rename {a b : List Char} (ha : IsPlainWord a) (hb : IsPlainWord b) {depth : Nat}
    {front rest : List Token} (hkind : ∀ t ∈ front, t.text = a → t.kind = .identifier)
    (h : UpToStop depth front rest) : UpToStop depth (front.map (Token.rename a b)) rest := by
  induction front generalizing depth with
  | nil => exact h
  | cons t front ih =>
    obtain ⟨ht, hkind⟩ := List.forall_mem_cons.1 hkind
    rw [List.map_cons]
    by_cases heq : t.text = a
    · have hword : t.isDelimiter = false := congrArg Kind.isDelimiter (ht heq)
      obtain ⟨depth', hdepth, h⟩ := (upToStop_cons_of_significant hword).1 h
      rw [heq, ha.depthAfter_eq] at hdepth
      obtain rfl := Option.some.inj hdepth
      rw [Token.rename_of_text_eq heq]
      exact (upToStop_cons_of_significant rfl).2 ⟨depth, hb.depthAfter_eq depth, ih hkind h⟩
    · rw [Token.rename_of_text_ne heq]
      cases hdelimiter : t.isDelimiter with
      | true =>
        rw [upToStop_cons_of_isDelimiter hdelimiter] at h ⊢
        exact ih hkind h
      | false =>
        obtain ⟨depth', hdepth, h⟩ := (upToStop_cons_of_significant hdelimiter).1 h
        exact (upToStop_cons_of_significant hdelimiter).2 ⟨depth', hdepth, ih hkind h⟩

/-! ## Runs -/

namespace Scan

/-- The scan with a renaming ends with the tokens of `front` renamed and those of `rest` left, and
every word renamed is an occurrence. -/
structure Renames (a b : List Char) (role : Role) (s u : Scan) (front rest : List Token) :
    Prop where
  runs : Runs (.scan role (.ofWords a b)) s u
  tokens : u.tokens = s.written.reverse ++ (front.map (Token.rename a b) ++ rest)
  matchCount : ∀ role', u.matchCount role' =
    s.matchCount role' + if role = role' then front.countP (fun t => t.text = a) else 0

section Steps

variable {a b : List Char} {role : Role} {s u : Scan} {t : Token} {front rest : List Token}

theorem Renames.halt (hrest : s.rest = rest) (h : Runs (.scan role (.ofWords a b)) s s) :
    Renames a b role s s [] rest :=
  ⟨h, congrArg _ hrest, fun role' => by simp⟩

theorem Renames.occurrence (hrest : s.rest = t :: (front ++ rest)) (ht : t.isDelimiter = false)
    (htext : t.text = a) (hbindings : s.bindings = .empty)
    (h : Renames a b role (s.replace role (.ofWords a b) 1 .empty) u front rest) :
    Renames a b role s u (t :: front) rest where
  runs := by
    have hm : (Rule.ofWords a b).pattern.match? s.bindings s.rest = some (1, .empty) := by
      rw [hrest, Rule.match?_ofWords ht, if_pos htext, hbindings]
    obtain ⟨_, hnext⟩ := h.runs
    exact ⟨_, .occurrence hrest ht hm .done hnext⟩
  tokens := by
    rw [h.tokens, List.map_cons, Token.rename_of_text_eq htext]
    simp [replace, Rule.ofWords, Template.expand, Template.expandToken, Template.margin]
  matchCount role' := by
    rw [h.matchCount, matchCount_replace, List.countP_cons_of_pos (by simp [htext])]
    split <;> omega

theorem Renames.delimiter (hrest : s.rest = t :: (front ++ rest)) (ht : t.isDelimiter = true)
    (htext : t.text ≠ a) (h : Renames a b role (s.copyDelimiter t (front ++ rest)) u front rest) :
    Renames a b role s u (t :: front) rest where
  runs := h.runs.imp fun _ => .delimiter hrest ht
  tokens := by
    rw [h.tokens, List.map_cons, Token.rename_of_text_ne htext]
    simp [copyDelimiter, copy]
  matchCount role' := by
    rw [h.matchCount, List.countP_cons_of_neg (by simp [htext])]
    rfl

theorem Renames.significant {depth : Nat} (hrest : s.rest = t :: (front ++ rest))
    (ht : t.isDelimiter = false) (htext : t.text ≠ a)
    (hdepth : depthAfter s.depth t.text = some depth)
    (h : Renames a b role (s.copySignificant t (front ++ rest) depth) u front rest) :
    Renames a b role s u (t :: front) rest where
  runs := by
    have hm : (Rule.ofWords a b).pattern.match? s.bindings s.rest = none := by
      rw [hrest, Rule.match?_ofWords ht, if_neg htext]
    exact h.runs.imp fun _ => .significant hrest ht hm hdepth
  tokens := by
    rw [h.tokens, List.map_cons, Token.rename_of_text_ne htext]
    simp [copySignificant, copy]
  matchCount role' := by
    rw [h.matchCount, List.countP_cons_of_neg (by simp [htext])]
    rfl

end Steps

/-- **What a renaming does**: the tokens up to the stop are renamed. -/
theorem exists_renames {a : List Char} (ha : IsPlainWord a) (b : List Char) (role : Role)
    {front rest : List Token} (hkind : ∀ t ∈ front, t.text = a → t.kind = .identifier) {s : Scan}
    (hrest : s.rest = front ++ rest) (hbindings : s.bindings = .empty)
    (hstop : UpToStop s.depth front rest) : ∃ u, Renames a b role s u front rest := by
  induction front generalizing s with
  | nil =>
    -- at the stop there is nothing or a bracket, and the pattern is no bracket
    refine ⟨s, .halt hrest ?_⟩
    rcases hstop.stop with rfl | ⟨⟨t, ts, rfl, hcloses⟩, hclosed⟩
    · exact ⟨_, .finish hrest⟩
    · obtain ⟨ht, htext⟩ : t.isDelimiter = false ∧ t.text = ['}'] := by
        simpa [Token.closes] using hcloses
      refine ⟨_, .stop hrest ht ?_ (depthAfter_eq_none_iff.2 ⟨htext, closed_nil_iff.1 hclosed⟩)⟩
      rw [hrest, List.nil_append, Rule.match?_ofWords ht, htext,
        if_neg (ha.ne_singleton (by decide)).symm]
  | cons t front ih =>
    obtain ⟨hword, hkind⟩ := List.forall_mem_cons.1 hkind
    by_cases htext : t.text = a
    · have ht : t.isDelimiter = false := congrArg Kind.isDelimiter (hword htext)
      obtain ⟨depth, hdepth, hstop⟩ := (upToStop_cons_of_significant ht).1 hstop
      rw [htext, ha.depthAfter_eq] at hdepth
      obtain rfl := Option.some.inj hdepth
      have hbehind : (s.replace role (.ofWords a b) 1 .empty).rest = front ++ rest := by
        show s.rest.drop 1 = front ++ rest
        rw [hrest]
        rfl
      obtain ⟨u, hu⟩ := ih hkind hbehind rfl hstop
      exact ⟨u, .occurrence hrest ht htext hbindings hu⟩
    · cases ht : t.isDelimiter with
      | true =>
        obtain ⟨u, hu⟩ := ih hkind (s := s.copyDelimiter t (front ++ rest)) rfl hbindings
          ((upToStop_cons_of_isDelimiter ht).1 hstop)
        exact ⟨u, .delimiter hrest ht htext hu⟩
      | false =>
        obtain ⟨depth, hdepth, hstop⟩ := (upToStop_cons_of_significant ht).1 hstop
        obtain ⟨u, hu⟩ := ih hkind (s := s.copySignificant t (front ++ rest) depth) rfl hbindings
          hstop
        exact ⟨u, .significant hrest ht htext hdepth hu⟩

end Scan

/-! ## Drafts -/

namespace Draft

variable {a b : List Char}

/-- A renaming comes to an end and counts the words that it renames. -/
theorem exists_applyRules_ofWords (ha : IsPlainWord a) {source : List Char}
    {front rest : List Token} (hsource : tokenize source = front ++ rest)
    (hstop : UpToStop 0 front rest) :
    ∃ fuel d, (ofTokens (tokenize source)).applyRules fuel [.ofWords a b] = some d ∧
      d.tokens = front.map (Token.rename a b) ++ rest ∧
      d.reports = [⟨0, 0, front.countP fun t => t.text = a, 0⟩] := by
  have hkind : ∀ t ∈ front, t.text = a → t.kind = .identifier := fun t ht =>
    ha.kind_eq (hsource ▸ List.mem_append_left rest ht)
  obtain ⟨s, hruns, htokens, hcount⟩ := Scan.exists_renames ha b .root hkind
    (s := Scan.start .empty [] (tokenize source)) hsource rfl hstop
  obtain ⟨fuel, hs⟩ := Scan.exists_run_of_runs hruns
  refine ⟨fuel, _, Option.bind_eq_some_iff.2 ⟨_, applyRule_eq_some_iff.2 ⟨s, hs, rfl⟩, rfl⟩,
    htokens, ?_⟩
  have hstart : ∀ role, (Scan.start .empty [] (tokenize source)).matchCount role = 0 :=
    fun _ => rfl
  show [(⟨0, 0, s.matchCount .root, s.matchCount .followUp⟩ : RuleReport)] = _
  rw [hcount, hcount, hstart, hstart, if_pos rfl, if_neg (by decide), Nat.zero_add]

/-- **A renaming can be undone across texts.**  Let `a` and `b` be identifiers that are not words
of placeholders, and let no token of a text have the text `b`.  Then the rules for both directions
can be written and come to an end: the first one on the text, the second one on the text that the
first one leaves.  The second one leaves the text of the start, and the two report the same.

What lies between is the renamed text: up to the first closing bracket without a partner, every
token `a` is a token `b`, and the report counts them. -/
theorem renaming_undone_across_texts (ha : IsPlainWord a) (hb : IsPlainWord b)
    {source : List Char} (hnew : ∀ t ∈ tokenize source, t.text ≠ b) :
    ∃ there back, Rule.ofText a b = .ok there ∧ Rule.ofText b a = .ok back ∧
      ∃ fuel d e, (ofTokens (tokenize source)).applyRules fuel [there] = some d ∧
        (ofTokens (tokenize d.text)).applyRules fuel [back] = some e ∧
        e.text = source ∧ d.reports = e.reports ∧
        ∃ front rest, tokenize source = front ++ rest ∧ UpToStop 0 front rest ∧
          tokenize d.text = front.map (Token.rename a b) ++ rest ∧
          d.reports.map RuleReport.found = [front.countP fun t => t.text = a] := by
  obtain ⟨front, rest, hsource, hstop⟩ := exists_upToStop 0 (tokenize source)
  have hkind : ∀ t ∈ front, t.text = a → t.kind = .identifier := fun t ht =>
    ha.kind_eq (hsource ▸ List.mem_append_left rest ht)
  have hnewFront : ∀ t ∈ front, t.text ≠ b := fun t ht =>
    hnew t (hsource ▸ List.mem_append_left rest ht)
  obtain ⟨n, d, hd, htokens, hreports⟩ :=
    exists_applyRules_ofWords (b := b) ha hsource hstop
  -- the text between is cut into the renamed tokens
  have hbetween : tokenize d.text = front.map (Token.rename a b) ++ rest := by
    have hmunch := maximalMunch_tokenize source
    rw [hsource] at hmunch
    rw [Draft.text, htokens]
    exact (hmunch.rename ha hb hkind).tokenize_render
  obtain ⟨m, e, he, htokens', hreports'⟩ :=
    exists_applyRules_ofWords (b := a) hb hbetween (hstop.rename ha hb hkind)
  rw [Token.map_rename_map_rename hkind hnewFront, ← hsource] at htokens'
  rw [Token.countP_map_rename hnewFront] at hreports'
  refine ⟨_, _, Rule.ofText_eq_ofWords ha hb, Rule.ofText_eq_ofWords hb ha, max n m, d, e,
    applyRules_mono (Nat.le_max_left n m) hd, applyRules_mono (Nat.le_max_right n m) he, ?_,
    hreports.trans hreports'.symm, front, rest, hsource, hstop, hbetween, ?_⟩
  · rw [Draft.text, htokens', render_tokenize]
  · rw [hreports]
    rfl

/-- A word is renamed next to brackets, digits and a comment, but not in a longer word, not in a
comment and not behind a bracket without a partner. -/
theorem renaming_undone_before_stray_bracket :
    let source := "if(x)\x7b/*x*/x=2*x;xs\x7d\x7dx // é".toList
    (IsPlainWord ['x'] ∧ IsPlainWord ['n', '1'] ∧
        ∀ t ∈ tokenize source, t.text ≠ ['n', '1']) ∧
      ∃ there back, Rule.ofText ['x'] ['n', '1'] = .ok there ∧
        Rule.ofText ['n', '1'] ['x'] = .ok back ∧
        ∃ fuel d e, (ofTokens (tokenize source)).applyRules fuel [there] = some d ∧
          (ofTokens (tokenize d.text)).applyRules fuel [back] = some e ∧
          d.text = "if(n1)\x7b/*x*/n1=2*n1;xs\x7d\x7dx // é".toList ∧ e.text = source ∧
          d.reports.map RuleReport.found = [3] ∧ e.reports.map RuleReport.found = [3] := by
  intro source
  have hold : IsPlainWord ['x'] :=
    ⟨⟨'x', rfl, by decide⟩, List.forall_mem_singleton.2 (.inl (by decide)), by decide, by decide⟩
  have hnew : IsPlainWord ['n', '1'] := by
    refine ⟨⟨'n', rfl, by decide⟩, List.forall_mem_cons.2 ⟨.inl (by decide), ?_⟩, by decide,
      by decide⟩
    exact List.forall_mem_singleton.2 (.inr (by decide))
  have hfresh : ∀ t ∈ tokenize source, t.text ≠ ['n', '1'] := by decide +kernel
  obtain ⟨there, back, hthere, hback, fuel, d, e, hd, he, hundone, hsame, -⟩ :=
    renaming_undone_across_texts hold hnew hfresh
  obtain ⟨d', hd', hresult⟩ : ∃ d',
      (ofTokens (tokenize source)).applyRules 40 [.ofWords ['x'] ['n', '1']] = some d' ∧
        (d'.text, d'.reports.map RuleReport.found) =
          ("if(n1)\x7b/*x*/n1=2*n1;xs\x7d\x7dx // é".toList, [3]) := by
    refine Option.map_eq_some_iff.1 (?_ : Option.map _ _ = some _)
    decide +kernel
  obtain rfl : Rule.ofWords ['x'] ['n', '1'] = there :=
    Except.ok.inj ((Rule.ofText_eq_ofWords hold hnew).symm.trans hthere)
  obtain rfl : d = d' := applyRules_unique hd hd'
  obtain ⟨htext, hfound⟩ := Prod.mk.inj hresult
  exact ⟨⟨hold, hnew, hfresh⟩, _, back, hthere, hback, fuel, d, e, hd, he, htext, hundone, hfound,
    hsame ▸ hfound⟩

end Draft

end TokenEdit
