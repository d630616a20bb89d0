import TokenEdit.Draft
import TokenEdit.Proofs.CurlyFree
import TokenEdit.Proofs.Division

/-!
# Where a scan stops

A scan stops at a closing bracket when all brackets that it has copied are closed.  In a list in
which every closing bracket has a partner in front of it, the scan of a rule without follow-ups
can stop early all the same: the partner may be among the tokens that an occurrence has taken, and
those are not counted.

So it stops early only if its occurrences have taken more opening than closing brackets.  Of what
an occurrence takes, the pattern names some tokens, and every bracket that an expression opens it
also closes.  Hence a pattern that names no more opening than closing brackets never makes a scan
stop early.

* `spanLengthFrom?_brackets`: an expression closes what it opens.
* `Pattern.brackets_of_match?`: the brackets of an occurrence, against those that the pattern names.
* `Division.Fits.brackets_taken`: the brackets taken when a scan stops early.
* `scanned_to_end_unless_opening_brackets_taken`: the two together.
* `scan_stops_at_partner_of_taken_bracket`: a scan that stops early.
-/

namespace TokenEdit

/-! ## Brackets by their text -/

/-- The number of tokens with the given text. -/
def textCount (text : List Char) (ts : List Token) : Nat :=
  ts.countP fun t => t.text = text

@[simp] theorem textCount_nil (text : List Char) : textCount text [] = 0 := rfl

theorem textCount_cons (text : List Char) (t : Token) (ts : List Token) :
    textCount text (t :: ts) = textCount text ts + if t.text = text then 1 else 0 := by
  simp [textCount, List.countP_cons]

theorem textCount_append (text : List Char) (left right : List Token) :
    textCount text (left ++ right) = textCount text left + textCount text right :=
  List.countP_append

/-- A bracket is no delimiter, where texts tell the classes. -/
theorem Token.Classified.isDelimiter_of_isCurly {t : Token} (h : t.Classified)
    (hcurly : t.IsCurly) : t.isDelimiter = false := by
  have hkind : t.kind = Kind.ofText t.text := h
  rcases hcurly with htext | htext
  all_goals
    rw [htext] at hkind
    exact congrArg Kind.isDelimiter hkind

/-- The opening brackets among tokens are those with the text of one, where texts tell the
classes; so for the closing ones. -/
theorem countP_eq_textCount {ts : List Token} (h : ∀ t ∈ ts, t.Classified) :
    ts.countP Token.opens = textCount ['{'] ts ∧ ts.countP Token.closes = textCount ['}'] ts := by
  constructor
  · refine List.countP_congr fun t ht => ?_
    have hdelimiter (htext : t.text = ['{']) : t.isDelimiter = false :=
      (h t ht).isDelimiter_of_isCurly (.inl htext)
    simpa [Token.opens] using hdelimiter
  · refine List.countP_congr fun t ht => ?_
    have hdelimiter (htext : t.text = ['}']) : t.isDelimiter = false :=
      (h t ht).isDelimiter_of_isCurly (.inr htext)
    simpa [Token.closes] using hdelimiter

/-! ## Brackets of an occurrence -/

/-- The region of an opening curly bracket ends with a closing one, and no other region does; and
no region ends with an opening one. -/
theorem count_regionEnd? (text : List Char) :
    (regionEnd? text).toList.count ['}'] = (if text = ['{'] then 1 else 0) ∧
      ['{'] ∉ (regionEnd? text).toList := by
  fun_cases regionEnd? text with
  | case1 => decide
  | case2 => decide
  | case3 _ _ hcurly => exact ⟨(if_neg hcurly).symm, List.not_mem_nil⟩

/-- An expression closes the curly brackets that it opens, and those that are waited for at its
start. -/
theorem spanLengthFrom?_brackets {terminator : List Char} {passed n : Nat}
    {closers : List (List Char)} {ts : List Token} (hclosers : ['{'] ∉ closers)
    (h : spanLengthFrom? terminator passed closers ts = some n) :
    ∃ span t rest, ts = span ++ t :: rest ∧ t.text = terminator ∧ n = passed + span.length ∧
      textCount ['{'] span + closers.count ['}'] ≤ textCount ['}'] span := by
  induction ts generalizing passed closers with
  | nil => simp at h
  | cons t ts ih =>
    by_cases ht : t.text = closers.headD terminator
    · cases closers with
      | nil =>
        replace ht : t.text = terminator := ht
        rw [spanLengthFrom?_terminator ht] at h
        exact ⟨[], t, ts, rfl, ht, (Option.some.inj h).symm, Nat.le_refl 0⟩
      | cons closer outer =>
        replace ht : t.text = closer := ht
        obtain ⟨hcloser, houter⟩ := not_or.1 (mt List.mem_cons.2 hclosers)
        rw [spanLengthFrom?_closer ht] at h
        obtain ⟨span, t', rest, rfl, ht', hn, hcount⟩ := ih houter h
        refine ⟨t :: span, t', rest, rfl, ht', ?_, ?_⟩
        · rw [hn, List.length_cons]
          omega
        · rw [textCount_cons, textCount_cons, ht, if_neg (Ne.symm hcloser), List.count_cons]
          simp only [beq_iff_eq]
          omega
    · obtain ⟨hregion, hnot⟩ := count_regionEnd? t.text
      rw [spanLengthFrom?_other ht] at h
      obtain ⟨span, t', rest, rfl, ht', hn, hcount⟩ :=
        ih (fun hmem => (List.mem_append.1 hmem).elim hnot hclosers) h
      rw [List.count_append, hregion] at hcount
      refine ⟨t :: span, t', rest, rfl, ht', ?_, ?_⟩
      · rw [hn, List.length_cons]
        omega
      · rw [textCount_cons, textCount_cons]
        omega

namespace Item

/-- The brackets that an item takes, where the tokens do not start with a delimiter, against those
that it names. -/
theorem brackets_of_readHere? {item : Item} {ts : List Token} (hts : ∀ t ∈ ts, t.Classified)
    {taken : Nat} {captures : List Capture} (h : item.readHere? ts = some (taken, captures)) :
    textCount ['{'] (ts.take taken) + item.texts.count ['}'] ≤
      textCount ['}'] (ts.take taken) + item.texts.count ['{'] := by
  cases ts with
  | nil => simp [readHere?] at h
  | cons t ts =>
    cases item with
    | literal l =>
      simp only [readHere?, Option.ite_none_right_eq_some, Option.some.injEq,
        Prod.mk.injEq] at h
      obtain ⟨htext, rfl, -⟩ := h
      simp only [texts, List.take_succ_cons, List.take_zero, textCount_cons, textCount_nil, htext,
        List.count_singleton, beq_iff_eq]
      omega
    | ident name =>
      simp only [readHere?, Option.ite_none_right_eq_some, Option.some.injEq,
        Prod.mk.injEq] at h
      obtain ⟨hkind, rfl, -⟩ := h
      have hcurly : ¬ t.IsCurly := (hts t List.mem_cons_self).tame hkind
      obtain ⟨hopen, hclose⟩ := not_or.1 hcurly
      simp only [texts, List.take_succ_cons, List.take_zero, textCount_cons, textCount_nil,
        if_neg hopen, if_neg hclose, List.count_nil, Nat.le_refl]
    | expr name terminator =>
      obtain ⟨length, hlength, heq⟩ := Option.map_eq_some_iff.1 h
      obtain ⟨rfl, -⟩ := Prod.mk.inj heq
      obtain ⟨span, t', rest, hsplit, ht', hn, hcount⟩ :=
        spanLengthFrom?_brackets (List.not_mem_nil) hlength
      have htake : (t :: ts).take (length + 1) = span ++ [t'] := by
        rw [hsplit, hn, Nat.zero_add]
        exact List.take_length_add_append 1
      rw [List.count_nil] at hcount
      simp only [htake, texts, textCount_append, textCount_cons, textCount_nil, ht',
        List.count_singleton, beq_iff_eq]
      omega

/-- Delimiters in front of an item are no brackets. -/
theorem brackets_of_read? {item : Item} {ts : List Token} (hts : ∀ t ∈ ts, t.Classified)
    {taken : Nat} {captures : List Capture} (h : item.read? ts = some (taken, captures)) :
    textCount ['{'] (ts.take taken) + item.texts.count ['}'] ≤
      textCount ['}'] (ts.take taken) + item.texts.count ['{'] := by
  obtain ⟨front, here, n, rfl, hfront, hhere, htake⟩ := exists_readHere?_of_read? h
  obtain ⟨hclassified, hts⟩ := List.forall_mem_append.1 hts
  have hcurly (t : Token) (ht : t ∈ front) : ¬ t.IsCurly := by
    intro hcurly
    have hsignificant := (hclassified t ht).isDelimiter_of_isCurly hcurly
    exact absurd (hfront t ht) (by simp [hsignificant])
  have hopens : textCount ['{'] front = 0 :=
    List.countP_eq_zero.2 fun t ht htext => hcurly t ht (.inl (of_decide_eq_true htext))
  have hcloses : textCount ['}'] front = 0 :=
    List.countP_eq_zero.2 fun t ht htext => hcurly t ht (.inr (of_decide_eq_true htext))
  rw [htake, textCount_append, textCount_append, hopens, hcloses, Nat.zero_add, Nat.zero_add]
  exact brackets_of_readHere? hts hhere

theorem brackets_of_readAll? {items : List Item} {ts : List Token}
    (hts : ∀ t ∈ ts, t.Classified) {taken : Nat} {captures : List Capture}
    (h : readAll? items ts = some (taken, captures)) :
    textCount ['{'] (ts.take taken) + (items.flatMap texts).count ['}'] ≤
      textCount ['}'] (ts.take taken) + (items.flatMap texts).count ['{'] := by
  induction items generalizing ts taken captures with
  | nil =>
    obtain ⟨rfl, -⟩ := Prod.mk.inj (Option.some.inj h)
    exact Nat.le_refl 0
  | cons item items ih =>
    obtain ⟨n, first, more, behind, hfirst, hmore, rfl, -⟩ := readAll?_cons_eq_some_iff.1 h
    have hhere := brackets_of_read? hts hfirst
    have hbehind := ih (fun t ht => hts t (List.mem_of_mem_drop ht)) hmore
    rw [List.take_add, List.flatMap_cons, textCount_append, textCount_append, List.count_append,
      List.count_append]
    omega

end Item

/-- **An occurrence opens no more brackets than the pattern names**, when those that it closes are
set off against each other. -/
theorem Pattern.brackets_of_match? {p : Pattern} {b b' : Bindings} {ts : List Token}
    (hts : ∀ t ∈ ts, t.Classified) {taken : Nat} (h : p.match? b ts = some (taken, b')) :
    textCount ['{'] (ts.take taken) + p.texts.count ['}'] ≤
      textCount ['}'] (ts.take taken) + p.texts.count ['{'] := by
  obtain ⟨captures, hread, -⟩ := match?_eq_some_iff.1 h
  exact Item.brackets_of_readAll? hts hread

/-! ## Brackets of a division -/

/-- The tokens that the occurrences of a division take. -/
def Division.taken (d : Division) : List Token :=
  d.pieces.flatMap Piece.taken

theorem Piece.countP_source (q : Token → Bool) (ps : List Piece) :
    (source ps).countP q =
      (ps.flatMap Piece.copied).countP q + (ps.flatMap Piece.taken).countP q := by
  induction ps with
  | nil => rfl
  | cons p ps ih =>
    rw [source, List.flatMap_cons, List.flatMap_cons, List.flatMap_cons, List.countP_append,
      List.countP_append, List.countP_append, List.countP_append]
    rw [source] at ih
    omega

theorem Division.countP_source (q : Token → Bool) (d : Division) :
    d.source.countP q = d.copied.countP q + d.taken.countP q + d.rest.countP q := by
  rw [source, copied, taken, List.countP_append, List.countP_append, List.countP_append,
    Piece.countP_source]
  omega

/-- **Where a scan stops early, its occurrences have taken an opening bracket too many**, if every
closing bracket of the list has a partner. -/
theorem Division.Fits.brackets_taken {r : Rule} {b : Bindings} {column depth : Nat} {d : Division}
    (h : d.Fits r b column depth) (hnested : Nested depth d.source) (hrest : d.rest ≠ []) :
    d.taken.countP Token.closes < d.taken.countP Token.opens := by
  obtain ⟨⟨t, ts, hcut, ht, htext⟩, hclosed⟩ := h.stop.resolve_left hrest
  -- the tokens up to the bracket at which the scan stops, and that bracket
  let front : Division := ⟨d.lead, d.pieces, [t]⟩
  have hfront : front.source <+: d.source := by
    refine ⟨ts, ?_⟩
    simp [front, source, hcut]
  have hle := hnested front.source hfront
  have hcloses : front.source.countP Token.closes =
      d.copied.countP Token.closes + d.taken.countP Token.closes + [t].countP Token.closes :=
    countP_source Token.closes front
  have hopens : front.source.countP Token.opens =
      d.copied.countP Token.opens + d.taken.countP Token.opens + [t].countP Token.opens :=
    countP_source Token.opens front
  have hone : [t].countP Token.closes = 1 := by simp [Token.closes, ht, htext]
  have hnone : [t].countP Token.opens = 0 := by simp [Token.opens, htext]
  have hcopied : d.copied.countP Token.closes = depth + d.copied.countP Token.opens := hclosed
  omega

/-- What occurrences take closes at least as many brackets as it opens, if the texts that the
pattern names do. -/
theorem Rule.Cuts.brackets_taken {r : Rule}
    (htexts : r.pattern.texts.count ['{'] ≤ r.pattern.texts.count ['}']) {column : Nat}
    {rest : List Token} {ps : List Piece} {b : Bindings} {copied : List Token}
    (h : r.Cuts column rest b copied ps)
    (hclassified : ∀ t ∈ Piece.source ps ++ rest, t.Classified) :
    (ps.flatMap Piece.taken).countP Token.opens ≤ (ps.flatMap Piece.taken).countP Token.closes := by
  induction ps generalizing b copied with
  | nil => exact Nat.le_refl 0
  | cons p ps ih =>
    obtain ⟨-, hattempt, -, -, hcuts⟩ := h
    have hsource : Piece.source (p :: ps) ++ rest =
        p.taken ++ (p.copied ++ (Piece.source ps ++ rest)) := by
      simp [Piece.source]
    rw [hsource] at hclassified
    have hmatch := Pattern.attempt_eq_some_iff.1 hattempt
    have hhere := Pattern.brackets_of_match? hclassified hmatch
    rw [List.take_left] at hhere
    obtain ⟨htaken, hbehind⟩ := List.forall_mem_append.1 hclassified
    obtain ⟨hopens, hcloses⟩ := countP_eq_textCount htaken
    have hmore := ih hcuts (List.forall_mem_append.1 hbehind).2
    rw [List.flatMap_cons, List.countP_append, List.countP_append, hopens, hcloses]
    omega

/-- **A scan reaches the end of its list, unless its occurrences take opening brackets and leave
their partners.**

Let a rule without follow-ups be applied to a list in which every closing bracket has a partner in
front of it, whatever the bindings.  The application comes to an end, and a division of the list
tells what it has done: every significant token that it has passed is taken by an occurrence, or
the pattern was tried there and does not occur.

* If it has not passed all tokens, then the occurrences have taken more opening than closing
  brackets.
* If the tokens are cut from texts, and the pattern names no more opening than closing brackets,
  then it has passed all of them. -/
theorem scanned_to_end_unless_opening_brackets_taken (r : Rule) (hr : r.followUps = [])
    (b : Bindings) {ts : List Token} (hts : Nested 0 ts) :
    ∃ fuel s, r.apply fuel b ts = some s ∧
      ∃ d : Division, d.source = ts ∧ d.result = s.tokens ∧ d.rest = s.rest ∧
        d.pieces.length = s.matchCount .root ∧ d.Fits r b 0 0 ∧
        (s.rest ≠ [] → d.taken.countP Token.closes < d.taken.countP Token.opens) ∧
        ((∀ t ∈ ts, t.Lexed) → r.pattern.texts.count ['{'] ≤ r.pattern.texts.count ['}'] →
          s.rest = []) := by
  obtain ⟨s, d, hruns, hd⟩ := Scan.exists_runs_and_divides hr .root (Scan.start b [] ts)
  obtain ⟨fuel, hfuel⟩ := Rule.exists_apply_iff_runs.2 hruns
  have hsource : d.source = ts := hd.source
  have hcount : d.pieces.length = s.matchCount .root := by
    rw [hd.count]
    exact (Nat.zero_add _).symm
  have htaken (hrest : s.rest ≠ []) : d.taken.countP Token.closes < d.taken.countP Token.opens :=
    hd.fits.brackets_taken (hsource ▸ hts) (hd.rest ▸ hrest)
  refine ⟨fuel, s, hfuel, d, hsource, hd.result.symm, hd.rest.symm, hcount, hd.fits, htaken,
    fun hlexed htexts => Decidable.byContradiction fun hrest => ?_⟩
  have hclassified : ∀ t ∈ Piece.source d.pieces ++ d.rest, t.Classified := by
    intro t ht
    exact (hlexed t (hsource ▸ List.mem_append_right d.lead ht)).classified
  exact absurd (htaken hrest) (Nat.not_lt_of_le (hd.fits.pieces.brackets_taken htexts hclassified))

/-- Both branches of a chain are found: the pattern closes a bracket and opens another one. -/
theorem else_branches_scanned_to_end :
    let word (text : String) : Token := ⟨.identifier, text.toList⟩
    let r : Rule := ⟨⟨[.literal ⟨.bracket, ['}']⟩, .literal (word "else"),
      .literal ⟨.bracket, ['{']⟩], List.cons_ne_nil _ _⟩,
      .ofText ('}' :: " elif ".toList ++ ['{']), [], 0⟩
    let ts := tokenize "{ a } else { b } else { c } d".toList
    r.followUps = [] ∧ Nested 0 ts ∧ (∀ t ∈ ts, t.Lexed) ∧
      r.pattern.texts.count ['{'] ≤ r.pattern.texts.count ['}'] ∧
      ∃ fuel s, r.apply fuel .empty ts = some s ∧ s.rest = [] ∧ s.matchCount .root = 2 ∧
        Token.render s.tokens = "{ a } elif { b } elif { c } d".toList := by
  intro word r ts
  have hnested : Nested 0 ts := by
    have hbalanced : Balanced ts := by decide +kernel
    exact hbalanced.1
  have hlexed : ∀ t ∈ ts, t.Lexed := fun t ht => ⟨_, ht⟩
  have htexts : r.pattern.texts.count ['{'] ≤ r.pattern.texts.count ['}'] := by decide
  obtain ⟨fuel, s, hs, d, -, -, -, -, -, -, hend⟩ :=
    scanned_to_end_unless_opening_brackets_taken r rfl .empty hnested
  obtain ⟨u, hu, heq⟩ : ∃ u, r.apply 40 .empty ts = some u ∧
      (u.matchCount .root, Token.render u.tokens) =
        (2, "{ a } elif { b } elif { c } d".toList) := by
    refine Option.map_eq_some_iff.1 (?_ : Option.map _ _ = some _)
    decide +kernel
  obtain rfl : s = u := Scan.run_unique hs hu
  obtain ⟨hcount, htext⟩ := Prod.mk.inj heq
  exact ⟨rfl, hnested, hlexed, htexts, fuel, s, hs, hend hlexed htexts, hcount, htext⟩

/-- An occurrence that takes an opening bracket leaves its partner to the scan, which stops there:
all brackets are in pairs, and the second occurrence is not found. -/
theorem scan_stops_at_partner_of_taken_bracket :
    let r : Rule := ⟨⟨[.literal ⟨.identifier, ['f']⟩, .literal ⟨.bracket, ['{']⟩],
      List.cons_ne_nil _ _⟩, .ofText ['g', ' ', '{'], [], 0⟩
    let ts := tokenize "f { } f { }".toList
    r.followUps = [] ∧ Balanced ts ∧
      (∃ s, r.apply 20 .empty ts = some s ∧ Token.render s.rest = '}' :: " f { }".toList ∧
        s.matchCount .root = 1 ∧ r.pattern.attempt s.bindings (s.rest.drop 2) = (some 3, .empty)) ∧
      editText 20 [r] "f { } f { }".toList = some "g { } f { }".toList := by
  intro r ts
  refine ⟨rfl, by decide +kernel, ?_, by decide +kernel⟩
  obtain ⟨s, hs, heq⟩ : ∃ s, r.apply 20 .empty ts = some s ∧
      (Token.render s.rest, s.matchCount .root, r.pattern.attempt s.bindings (s.rest.drop 2)) =
        ('}' :: " f { }".toList, 1, some 3, .empty) := by
    refine Option.map_eq_some_iff.1 (?_ : Option.map _ _ = some _)
    decide +kernel
  simp only [Prod.mk.injEq] at heq
  obtain ⟨htext, hcount, hattempt⟩ := heq
  exact ⟨s, hs, htext, hcount, hattempt⟩

end TokenEdit
