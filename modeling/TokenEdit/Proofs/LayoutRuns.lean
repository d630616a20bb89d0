import TokenEdit.Draft
import TokenEdit.Proofs.LayoutMatch
import TokenEdit.Proofs.Provenance

/-!
# Layout does not change what is rewritten

Two lists of tokens that differ in their delimiters only are rewritten alike: rules find the same
occurrences in both, leave the same significant tokens, and come to an end on both or on neither.

The two runs are compared state by state.  `Scan.Alike` says that two states agree in all that a
scan decides by: the significant tokens on both sides of it, the open brackets, the captures up to
layout, and the occurrences counted.  Columns and positions may differ, and so may the delimiters.
The runs need not take the same number of steps, since each copies its own delimiters.  A step at
a significant token of the first run is met by the second one as soon as it has copied the
delimiters that it has in front of that token (`Scan.exists_skip`).

All tokens in question come from text, which is kept by a run (`Scan.Runs.all`).
-/

namespace TokenEdit

open Token (significant)

namespace Scan

/-! ## States that agree up to layout -/

/-- Two states that agree in all that a scan decides by. -/
structure Alike (s s' : Scan) : Prop where
  written : significant s.written = significant s'.written
  rest : significant s.rest = significant s'.rest
  depth : s.depth = s'.depth
  bindings : s.bindings.significant = s'.bindings.significant
  matchCount : ∀ role, s.matchCount role = s'.matchCount role

namespace Alike

variable {s s' s'' : Scan}

theorem refl (s : Scan) : s.Alike s :=
  ⟨rfl, rfl, rfl, rfl, fun _ => rfl⟩

theorem symm (h : s.Alike s') : s'.Alike s :=
  ⟨h.written.symm, h.rest.symm, h.depth.symm, h.bindings.symm, fun role => (h.matchCount role).symm⟩

theorem trans (h : s.Alike s') (h' : s'.Alike s'') : s.Alike s'' :=
  ⟨h.written.trans h'.written, h.rest.trans h'.rest, h.depth.trans h'.depth,
    h.bindings.trans h'.bindings, fun role => (h.matchCount role).trans (h'.matchCount role)⟩

theorem tokens (h : s.Alike s') : significant s.tokens = significant s'.tokens := by
  rw [Scan.tokens, Scan.tokens, Token.significant_append, Token.significant_append,
    Token.significant_reverse, Token.significant_reverse, h.written, h.rest]

/-- A copied delimiter leaves no trace. -/
theorem copyDelimiter {t : Token} {ts : List Token} (hrest : s.rest = t :: ts)
    (ht : t.isDelimiter = true) : (s.copyDelimiter t ts).Alike s where
  written := Token.significant_cons_of_isDelimiter ht s.written
  rest := by rw [hrest, Token.significant_cons_of_isDelimiter ht]; rfl
  depth := rfl
  bindings := rfl
  matchCount _ := rfl

theorem copySignificant (h : s.Alike s') {t : Token} {ts ts' : List Token}
    (hrest : s.rest = t :: ts) (hrest' : s'.rest = t :: ts') (ht : t.isDelimiter = false)
    (depth : Nat) : (s.copySignificant t ts depth).Alike (s'.copySignificant t ts' depth) where
  written := by
    show significant (t :: s.written) = significant (t :: s'.written)
    rw [Token.significant_cons_of_significant ht, Token.significant_cons_of_significant ht,
      h.written]
  rest := by
    have heq := h.rest
    rw [hrest, hrest', Token.significant_cons_of_significant ht,
      Token.significant_cons_of_significant ht] at heq
    exact (List.cons.inj heq).2
  depth := rfl
  bindings := h.bindings
  matchCount := h.matchCount

/-- The two occurrences may take different numbers of tokens, and the templates may be expanded
with different margins. -/
theorem replace (h : s.Alike s') {taken taken' : Nat} {b b' : Bindings}
    (hresult : significantResult s.rest (taken, b) = significantResult s'.rest (taken', b'))
    (role : Role) (r : Rule) :
    (s.replace role r taken b).Alike (s'.replace role r taken' b') := by
  obtain ⟨htaken, hb⟩ := Prod.mk.inj hresult
  refine ⟨?_, ?_, h.depth, hb, fun role' => ?_⟩
  · show significant ((r.template.expand b s.column).reverse ++ s.written) =
      significant ((r.template.expand b' s'.column).reverse ++ s'.written)
    rw [Token.significant_append, Token.significant_append, Token.significant_reverse,
      Token.significant_reverse, Template.significant_expand, Template.significant_expand, hb,
      h.written]
  · show significant (s.rest.drop taken) = significant (s'.rest.drop taken')
    rw [← Token.drop_significant, ← Token.drop_significant, htaken, h.rest]
  · rw [matchCount_replace, matchCount_replace, h.matchCount role']

theorem inner (h : s.Alike s') (f : Rule) : (s.inner f).Alike (s'.inner f) := by
  refine ⟨rfl, h.rest, rfl, h.bindings, fun role => ?_⟩
  rw [matchCount_inner, matchCount_inner, h.matchCount role]

theorem resume (h : s.Alike s') {u u' : Scan} (hu : u.Alike u') :
    (s.resume u).Alike (s'.resume u') :=
  ⟨h.written, hu.tokens, h.depth, h.bindings, hu.matchCount⟩

/-- The same occurrences are found in both states. -/
theorem match?_eq (h : s.Alike s') (hs : s.All Token.Lexical) (hs' : s'.All Token.Lexical)
    {p : Pattern} (hp : ∀ item ∈ p.items, item.Plain) :
    (p.match? s.bindings s.rest).map (significantResult s.rest) =
      (p.match? s'.bindings s'.rest).map (significantResult s'.rest) := by
  rw [← Pattern.match?_significant hp _ hs.rest, ← Pattern.match?_significant hp _ hs'.rest,
    h.rest, h.bindings]

theorem match?_eq_none (h : s.Alike s') (hs : s.All Token.Lexical) (hs' : s'.All Token.Lexical)
    {p : Pattern} (hp : ∀ item ∈ p.items, item.Plain)
    (hm : p.match? s.bindings s.rest = none) : p.match? s'.bindings s'.rest = none := by
  have heq := h.match?_eq hs hs' hp
  rw [hm, Option.map_none] at heq
  exact Option.map_eq_none_iff.1 heq.symm

theorem exists_match?_eq_some (h : s.Alike s') (hs : s.All Token.Lexical)
    (hs' : s'.All Token.Lexical) {p : Pattern} (hp : ∀ item ∈ p.items, item.Plain)
    {result : Nat × Bindings} (hm : p.match? s.bindings s.rest = some result) :
    ∃ taken' b', p.match? s'.bindings s'.rest = some (taken', b') ∧
      significantResult s.rest result = significantResult s'.rest (taken', b') := by
  have heq := h.match?_eq hs hs' hp
  rw [hm, Option.map_some] at heq
  obtain ⟨⟨taken', b'⟩, hm', hresult⟩ := Option.map_eq_some_iff.1 heq.symm
  exact ⟨taken', b', hm', hresult.symm⟩

end Alike

/-! ## Copying delimiters until a significant token -/

/-- A scan may first copy the delimiters in front of it. -/
theorem exists_skip (s : Scan) :
    ∃ s', s'.Alike s ∧ (∀ t ∈ s'.rest.head?, t.isDelimiter = false) ∧
      (∀ {P : Token → Prop}, s.All P → s'.All P) ∧
        ∀ {role : Role} {r : Rule} {u : Scan}, Runs (.scan role r) s' u →
          Runs (.scan role r) s u := by
  induction hrest : s.rest generalizing s with
  | nil =>
    refine ⟨s, .refl s, fun t ht => ?_, id, id⟩
    rw [hrest] at ht
    exact absurd ht (by simp)
  | cons t ts ih =>
    cases ht : t.isDelimiter with
    | true =>
      obtain ⟨s', halike, hhead, hall, hruns⟩ := ih (s.copyDelimiter t ts) rfl
      exact ⟨s', halike.trans (.copyDelimiter hrest ht), hhead,
        fun hs => hall (hs.copyDelimiter hrest),
        fun h => (hruns h).imp fun _ => .delimiter hrest ht⟩
    | false =>
      refine ⟨s, .refl s, fun t' ht' => ?_, id, id⟩
      rw [hrest] at ht'
      obtain rfl : t = t' := Option.some.inj ht'
      exact ht

/-- A list that does not start with a delimiter starts with its first significant token. -/
theorem eq_cons_of_significant_eq {t : Token} {ts rest : List Token}
    (hhead : ∀ t ∈ ts.head?, t.isDelimiter = false) (h : significant ts = t :: rest) :
    ∃ ts', ts = t :: ts' := by
  cases ts with
  | nil => exact absurd h (by simp)
  | cons t' ts =>
    have ht' : t'.isDelimiter = false := hhead t' rfl
    rw [Token.significant_cons_of_significant ht'] at h
    exact ⟨ts, by rw [(List.cons.inj h).1]⟩

/-- A state alike, where the scan stands at a significant token: the other scan comes to that
token too. -/
theorem Alike.exists_skip_to {s s' : Scan} (h : s.Alike s') {t : Token} {ts : List Token}
    (hrest : s.rest = t :: ts) (ht : t.isDelimiter = false) :
    ∃ s'' ts', s''.rest = t :: ts' ∧ s.Alike s'' ∧
      (∀ {P : Token → Prop}, s'.All P → s''.All P) ∧
        ∀ {role : Role} {r : Rule} {u : Scan}, Runs (.scan role r) s'' u →
          Runs (.scan role r) s' u := by
  obtain ⟨s'', halike, hhead, hall, hruns⟩ := exists_skip s'
  have heq : significant s''.rest = t :: significant ts := by
    rw [halike.rest, ← h.rest, hrest, Token.significant_cons_of_significant ht]
  obtain ⟨ts', hrest''⟩ := eq_cons_of_significant_eq hhead heq
  exact ⟨s'', ts', hrest'', h.trans halike.symm, hall, hruns⟩

/-! ## Runs -/

/-- Plain rules keep tokens that their texts tell apart. -/
theorem Runs.lexical {w : Work} {s u : Scan} (h : Runs w s u) (hw : w.Everywhere Rule.Plain)
    (hs : s.All Token.Lexical) : u.All Token.Lexical :=
  h.all Token.lexical_spaces (hw.imp fun _ hr => hr.tokens) hs

/-- **A run is met by a run from every state alike**, and the two end alike. -/
theorem Runs.exists_alike {w : Work} {s u : Scan} (h : Runs w s u)
    (hw : w.Everywhere Rule.Plain) (hs : s.All Token.Lexical) {s' : Scan}
    (hs' : s'.All Token.Lexical) (halike : s.Alike s') : ∃ u', Runs w s' u' ∧ u.Alike u' := by
  obtain ⟨os, h⟩ := h
  induction h generalizing s' with
  | finish hrest =>
    obtain ⟨s'', hskip, hhead, -, hruns⟩ := exists_skip s'
    have hnil : s''.rest = [] := by
      cases hrest'' : s''.rest with
      | nil => rfl
      | cons t ts =>
        have ht : t.isDelimiter = false := hhead t (by rw [hrest'']; rfl)
        have heq := hskip.rest.trans halike.rest.symm
        rw [hrest'', hrest, Token.significant_cons_of_significant ht] at heq
        exact absurd heq (by simp)
    exact ⟨s'', hruns ⟨_, .finish hnil⟩, halike.trans hskip.symm⟩
  | stop hrest ht hm hdepth =>
    obtain ⟨s'', ts', hrest'', hskip, hall, hruns⟩ := halike.exists_skip_to hrest ht
    have hm' := hskip.match?_eq_none hs (hall hs') hw.1.items hm
    exact ⟨s'', hruns ⟨_, .stop hrest'' ht hm' (hskip.depth ▸ hdepth)⟩, hskip⟩
  | delimiter hrest ht _ ih =>
    exact ih hw (hs.copyDelimiter hrest) hs' ((Alike.copyDelimiter hrest ht).trans halike)
  | @significant _ _ _ _ _ _ _ depth hrest ht hm hdepth _ ih =>
    obtain ⟨s'', ts', hrest'', hskip, hall, hruns⟩ := halike.exists_skip_to hrest ht
    have hm' := hskip.match?_eq_none hs (hall hs') hw.1.items hm
    obtain ⟨u', ⟨_, hu'⟩, hend⟩ := ih hw (hs.copySignificant hrest depth)
      ((hall hs').copySignificant hrest'' depth) (hskip.copySignificant hrest hrest'' ht depth)
    exact ⟨u', hruns ⟨_, .significant hrest'' ht hm' (hskip.depth ▸ hdepth) hu'⟩, hend⟩
  | @occurrence role r _ _ _ _ _ _ _ taken b hrest ht hm follow _ ihFollow ihNext =>
    obtain ⟨s'', ts', hrest'', hskip, hall, hruns⟩ := halike.exists_skip_to hrest ht
    obtain ⟨taken', b', hm', hresult⟩ :=
      hskip.exists_match?_eq_some hs (hall hs') hw.1.items hm
    have hfollowUps : (Work.followUps r.followUps).Everywhere Rule.Plain :=
      fun f hf => Rule.Everywhere.followUp hw hf
    have hreplaced := hs.replace Token.lexical_spaces hw.1.tokens hm role
    have hreplaced' := (hall hs').replace Token.lexical_spaces hw.1.tokens hm' role
    obtain ⟨v', ⟨_, hv'⟩, hbetween⟩ :=
      ihFollow hfollowUps hreplaced hreplaced' (hskip.replace hresult role r)
    obtain ⟨u', ⟨_, hu'⟩, hend⟩ := ihNext hw (follow.runs.lexical hfollowUps hreplaced)
      (hv'.runs.lexical hfollowUps hreplaced') hbetween
    exact ⟨u', hruns ⟨_, .occurrence hrest'' ht hm' hv' hu'⟩, hend⟩
  | done => exact ⟨s', ⟨_, .done⟩, halike⟩
  | @followUp f rules _ _ _ _ _ inner _ ihInner ihNext =>
    have hf : f.Everywhere Rule.Plain := hw f List.mem_cons_self
    obtain ⟨v', ⟨_, hv'⟩, hbetween⟩ := ihInner hf (hs.inner f) (hs'.inner f) (halike.inner f)
    have hresumed := hs.resume (inner.runs.lexical hf (hs.inner f))
    have hresumed' := hs'.resume (hv'.runs.lexical hf (hs'.inner f))
    obtain ⟨u', ⟨_, hu'⟩, hend⟩ := ihNext (fun g hg => hw g (List.mem_cons_of_mem f hg)) hresumed
      hresumed' (halike.resume hbetween)
    exact ⟨u', ⟨_, .followUp hv' hu'⟩, hend⟩

end Scan

/-! ## Drafts -/

namespace Draft

/-- Two drafts with tokens from text that agree up to layout, and with the same reports. -/
structure Alike (d d' : Draft) : Prop where
  tokens : significant d.tokens = significant d'.tokens
  reports : d.reports = d'.reports
  lexical : ∀ t ∈ d.tokens, t.Lexical
  lexical' : ∀ t ∈ d'.tokens, t.Lexical

/-- A rule that comes to an end on a draft does so on every draft alike. -/
theorem Alike.exists_applyRule {d d' : Draft} (h : d.Alike d') {r : Rule}
    (hr : r.Everywhere Rule.Plain) {fuel count index : Nat} {e : Draft}
    (he : d.applyRule fuel count r index = some e) :
    ∃ fuel' e', d'.applyRule fuel' count r index = some e' ∧ e.Alike e' := by
  obtain ⟨s, hs, rfl⟩ := applyRule_eq_some_iff.1 he
  have hruns : Scan.Runs (.scan .root r) (Scan.start .empty [] d.tokens) s := Scan.runs_of_run hs
  have hstart : (Scan.start .empty [] d.tokens).All Token.Lexical :=
    Scan.all_start Bindings.all_empty h.lexical []
  have hstart' : (Scan.start .empty [] d'.tokens).All Token.Lexical :=
    Scan.all_start Bindings.all_empty h.lexical' []
  have halike : (Scan.start .empty [] d.tokens).Alike (Scan.start .empty [] d'.tokens) :=
    ⟨rfl, h.tokens, rfl, rfl, fun _ => rfl⟩
  obtain ⟨s', hruns', hend⟩ := hruns.exists_alike hr hstart hstart' halike
  obtain ⟨fuel', hs'⟩ := Scan.exists_run_of_runs hruns'
  refine ⟨fuel', _, applyRule_eq_some_iff.2 ⟨s', hs', rfl⟩, ?_⟩
  refine ⟨hend.tokens, ?_, (hruns.lexical hr hstart).tokens, (hruns'.lexical hr hstart').tokens⟩
  show d.reports ++ [_] = d'.reports ++ [_]
  rw [h.reports, hend.matchCount .root, hend.matchCount .followUp]

theorem Alike.exists_foldlM {count : Nat} : ∀ {rules : List (Rule × Nat)} {d d' : Draft},
    d.Alike d' → (∀ rule ∈ rules, rule.1.Everywhere Rule.Plain) → ∀ {fuel : Nat} {e : Draft},
      rules.foldlM (fun d (r, index) => d.applyRule fuel count r index) d = some e →
        ∃ fuel' e', rules.foldlM (fun d (r, index) => d.applyRule fuel' count r index) d' =
          some e' ∧ e.Alike e'
  | [], d, d', h, _, fuel, e, he => by
    obtain rfl : d = e := Option.some.inj he
    exact ⟨fuel, d', rfl, h⟩
  | (r, index) :: rules, d, d', h, hrules, fuel, e, he => by
    rw [List.foldlM_cons] at he
    obtain ⟨d₁, hd₁, he⟩ := Option.bind_eq_some_iff.1 he
    obtain ⟨hr, hrules⟩ := List.forall_mem_cons.1 hrules
    obtain ⟨n, d₁', hd₁', halike⟩ := h.exists_applyRule hr hd₁
    obtain ⟨m, e', he', hend⟩ := halike.exists_foldlM hrules he
    exact ⟨max n m, e', foldlM_cons_eq_some hd₁' he', hend⟩

/-- Rules that come to an end on a draft do so on every draft alike. -/
theorem Alike.exists_applyRules {d d' : Draft} (h : d.Alike d') {rules : List Rule}
    (hrules : ∀ r ∈ rules, r.FromText) {fuel : Nat} {e : Draft}
    (he : d.applyRules fuel rules = some e) :
    ∃ fuel' e', d'.applyRules fuel' rules = some e' ∧ e.Alike e' :=
  h.exists_foldlM (fun _ hrule => (hrules _ (List.fst_mem_of_mem_zipIdx hrule)).everywhere_plain) he

theorem alike_ofTokens_tokenize {source source' : List Char}
    (h : significant (tokenize source) = significant (tokenize source')) :
    (ofTokens (tokenize source)).Alike (ofTokens (tokenize source')) :=
  ⟨h, rfl, fun _ => Token.lexical_of_mem_tokenize, fun _ => Token.lexical_of_mem_tokenize⟩

/-- **Layout does not change what is rewritten.**  Let two texts have the same significant tokens.
Then rules that come from text come to an end on both or on neither; and where they do, they leave
the same significant tokens and report the same occurrences, rule by rule. -/
theorem applyRules_independent_of_layout {rules : List Rule} (hrules : ∀ r ∈ rules, r.FromText)
    {source source' : List Char}
    (h : significant (tokenize source) = significant (tokenize source')) :
    ((∃ fuel d, (ofTokens (tokenize source)).applyRules fuel rules = some d) ↔
        ∃ fuel d, (ofTokens (tokenize source')).applyRules fuel rules = some d) ∧
      ∀ {fuel fuel' : Nat} {d d' : Draft},
        (ofTokens (tokenize source)).applyRules fuel rules = some d →
          (ofTokens (tokenize source')).applyRules fuel' rules = some d' →
            significant d.tokens = significant d'.tokens ∧ d.reports = d'.reports := by
  refine ⟨⟨?_, ?_⟩, ?_⟩
  · rintro ⟨fuel, d, hd⟩
    obtain ⟨fuel', d', hd', -⟩ := (alike_ofTokens_tokenize h).exists_applyRules hrules hd
    exact ⟨fuel', d', hd'⟩
  · rintro ⟨fuel, d, hd⟩
    obtain ⟨fuel', d', hd', -⟩ := (alike_ofTokens_tokenize h.symm).exists_applyRules hrules hd
    exact ⟨fuel', d', hd'⟩
  · intro fuel fuel' d d' hd hd'
    obtain ⟨n, e, he, halike⟩ := (alike_ofTokens_tokenize h).exists_applyRules hrules hd
    obtain rfl : e = d' := applyRules_unique he hd'
    exact ⟨halike.tokens, halike.reports⟩

/-- A variable is put in for its name: the two texts differ in blanks, a comment and a line
break, and both occurrences are found in both of them. -/
theorem inlining_independent_of_layout :
    let word (text : String) : Token := ⟨.identifier, text.toList⟩
    let other (c : Char) : Token := ⟨.other, [c]⟩
    let name : Pattern := ⟨[.ident ['x']], List.cons_ne_nil _ _⟩
    let definition : Pattern := ⟨[.literal (word "let"), .ident ['x'], .literal (other '='),
      .expr ['e'] (other ';')], List.cons_ne_nil _ _⟩
    let use : Rule := ⟨name, .ofText "(e)".toList, [], 0⟩
    let define : Rule := ⟨definition, .ofText [], [], 0⟩
    let source := "let a = b+1; c(a)".toList
    let source' := "let a/*;*/=\n b + 1;c( a )".toList
    Rule.ofText "let ID x = EXPR e ;".toList [] = .ok define ∧
      Rule.ofText "ID x".toList "(e)".toList = .ok use ∧
      significant (tokenize source) = significant (tokenize source') ∧
      ∃ d d' : Draft, (∃ fuel, (ofTokens (tokenize source)).applyRules fuel
          [define.withFollowUp use] = some d) ∧
        (∃ fuel, (ofTokens (tokenize source')).applyRules fuel
          [define.withFollowUp use] = some d') ∧
        significant d.tokens = significant d'.tokens ∧ d.reports = d'.reports ∧
        d.reports.map (fun report => (report.found, report.foundBelow)) = [(1, 1)] := by
  intro word other name definition use define source source'
  have huse : Rule.ofText "ID x".toList "(e)".toList = .ok use := by
    have htokens : significant (tokenize "ID x".toList) = [word "ID", word "x"] := by
      decide +kernel
    rw [Rule.ofText, Pattern.ofText, htokens]
    rfl
  have hdefine : Rule.ofText "let ID x = EXPR e ;".toList [] = .ok define := by
    have htokens : significant (tokenize "let ID x = EXPR e ;".toList) = [word "let", word "ID",
        word "x", other '=', word "EXPR", word "e", other ';'] := by decide +kernel
    rw [Rule.ofText, Pattern.ofText, htokens]
    rfl
  have hsources : significant (tokenize source) = significant (tokenize source') := by
    decide +kernel
  have hrules : ∀ r ∈ [define.withFollowUp use], r.FromText := fun r hr =>
    List.mem_singleton.1 hr ▸ .withFollowUp (.ofText hdefine) (.ofText huse)
  obtain ⟨hends, halike⟩ := applyRules_independent_of_layout hrules hsources
  obtain ⟨d, hd, hfound⟩ : ∃ d, (ofTokens (tokenize source)).applyRules 30
      [define.withFollowUp use] = some d ∧
        d.reports.map (fun report => (report.found, report.foundBelow)) = [(1, 1)] := by
    refine Option.map_eq_some_iff.1 (?_ : Option.map _ _ = some [(1, 1)])
    decide +kernel
  obtain ⟨fuel', d', hd'⟩ := hends.1 ⟨30, d, hd⟩
  obtain ⟨htokens, hreports⟩ := halike hd hd'
  exact ⟨hdefine, huse, hsources, d, d', ⟨30, hd⟩, ⟨fuel', hd'⟩, htokens, hreports, hfound⟩

end Draft

end TokenEdit
