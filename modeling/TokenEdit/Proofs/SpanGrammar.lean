import TokenEdit.Span

/-!
# Spans by a grammar

`spanLength?` finds the end of a span in one walk, with a list of the brackets that it waits for.
What a span is can be said without a walk.  It is a sequence of single tokens and of regions; a
single token is neither the terminator nor an opening bracket, and a region is opened by a bracket
other than the terminator and encloses a span for its own closing bracket.

The walk and the grammar agree because the walk is never in doubt.  The token waited for is looked
at first, so it always ends the innermost region, and an opening bracket always begins one.  For
the same reason the grammar is unambiguous: in front of a terminator there is one span and no
other, with the same regions at the same places.

* `Span.UpTo`: the grammar.
* `spanLengthFrom?_append`: the walk passes over a span.
* `spanLength?_eq_some_iff`: the walk finds the spans of the grammar.
* `Span.UpTo.unique`: the tokens determine the span.
-/

namespace TokenEdit

/-- A sequence of single tokens and of regions, each region with its opening token, the sequence
that it encloses, and its closing token. -/
inductive Span where
  | nil
  | token (t : Token) (behind : Span)
  | region (opener : Token) (inside : Span) (closer : Token) (behind : Span)
  deriving DecidableEq

namespace Span

/-- The tokens of a span, in order. -/
def tokens : Span → List Token
  | nil => []
  | token t behind => t :: behind.tokens
  | region opener inside closer behind => opener :: (inside.tokens ++ closer :: behind.tokens)

/-- Two tokens are the brackets of a region. -/
def Encloses (opener closer : Token) : Prop :=
  opener.text = ['('] ∧ closer.text = [')'] ∨ opener.text = ['{'] ∧ closer.text = ['}']

instance (opener closer : Token) : Decidable (Encloses opener closer) :=
  inferInstanceAs (Decidable (_ ∨ _))

/-- The spans for a terminator. -/
def UpTo : (terminator : List Char) → Span → Prop
  | _, nil => True
  | terminator, token t behind =>
    t.text ≠ terminator ∧ t.text ≠ ['('] ∧ t.text ≠ ['{'] ∧ behind.UpTo terminator
  | terminator, region opener inside closer behind =>
    opener.text ≠ terminator ∧ Encloses opener closer ∧ inside.UpTo closer.text ∧
      behind.UpTo terminator

instance decidableUpTo : ∀ (terminator : List Char) (span : Span), Decidable (span.UpTo terminator)
  | _, nil => inferInstanceAs (Decidable True)
  | terminator, token _ behind =>
    have := decidableUpTo terminator behind
    inferInstanceAs (Decidable (_ ∧ _ ∧ _ ∧ _))
  | terminator, region _ inside closer behind =>
    have := decidableUpTo closer.text inside
    have := decidableUpTo terminator behind
    inferInstanceAs (Decidable (_ ∧ _ ∧ _ ∧ _))

/-! ## Brackets -/

theorem Encloses.regionEnd?_eq {opener closer : Token} (h : Encloses opener closer) :
    regionEnd? opener.text = some closer.text := by
  rcases h with ⟨ho, hc⟩ | ⟨ho, hc⟩ <;> rw [ho, hc] <;> rfl

/-- A region has one kind of closing bracket. -/
theorem Encloses.text_eq {opener closer closer' : Token} (h : Encloses opener closer)
    (h' : Encloses opener closer') : closer'.text = closer.text :=
  Option.some.inj (h'.regionEnd?_eq.symm.trans h.regionEnd?_eq)

theorem regionEnd?_eq_none_iff {text : List Char} :
    regionEnd? text = none ↔ text ≠ ['('] ∧ text ≠ ['{'] := by
  unfold regionEnd?
  split <;> simp_all

theorem encloses_of_regionEnd? {opener closer : Token}
    (h : regionEnd? opener.text = some closer.text) : Encloses opener closer := by
  unfold regionEnd? at h
  split at h
  next ho => exact .inl ⟨ho, (Option.some.inj h).symm⟩
  next ho => exact .inr ⟨ho, (Option.some.inj h).symm⟩
  · exact absurd h (by simp)

end Span

/-! ## The walk -/

/-- **The walk passes over a span** and waits for the same brackets behind it. -/
theorem spanLengthFrom?_append {span : Span} (terminator : List Char)
    (closers : List (List Char)) (h : span.UpTo (closers.headD terminator)) (passed : Nat)
    (more : List Token) :
    spanLengthFrom? terminator passed closers (span.tokens ++ more) =
      spanLengthFrom? terminator (passed + span.tokens.length) closers more := by
  induction span generalizing closers passed more with
  | nil => rfl
  | token t behind ih =>
    obtain ⟨ht, hround, hcurly, hbehind⟩ := h
    rw [Span.tokens, List.cons_append, spanLengthFrom?_other ht,
      Span.regionEnd?_eq_none_iff.2 ⟨hround, hcurly⟩, Option.toList_none, List.nil_append,
      ih closers hbehind, List.length_cons, Nat.add_right_comm, Nat.add_assoc]
  | region opener inside closer behind ihInside ihBehind =>
    obtain ⟨hopener, hpair, hinside, hbehind⟩ := h
    have hlength : passed + (Span.region opener inside closer behind).tokens.length =
        passed + 1 + inside.tokens.length + 1 + behind.tokens.length := by
      rw [Span.tokens, List.length_cons, List.length_append, List.length_cons]
      omega
    rw [Span.tokens, List.cons_append, spanLengthFrom?_other hopener, hpair.regionEnd?_eq,
      Option.toList_some, List.singleton_append, List.append_assoc, List.cons_append,
      ihInside (closer.text :: closers) hinside, spanLengthFrom?_closer rfl,
      ihBehind closers hbehind, ← hlength, Span.tokens]

/-- Where the walk comes to an end, the tokens start with a span for the token that is waited for
first, and that token. -/
theorem exists_span_of_spanLengthFrom? {terminator : List Char} {passed n : Nat}
    {closers : List (List Char)} : ∀ {ts : List Token},
      spanLengthFrom? terminator passed closers ts = some n →
        ∃ span t rest, ts = Span.tokens span ++ t :: rest ∧
          span.UpTo (closers.headD terminator) ∧ t.text = closers.headD terminator
  | [], h => absurd h (by simp)
  | t :: ts, h => by
    by_cases ht : t.text = closers.headD terminator
    · exact ⟨.nil, t, ts, rfl, trivial, ht⟩
    · rw [spanLengthFrom?_other ht] at h
      cases hregion : regionEnd? t.text with
      | none =>
        rw [hregion] at h
        obtain ⟨span, t', rest, rfl, hspan, ht'⟩ := exists_span_of_spanLengthFrom? h
        obtain ⟨hround, hcurly⟩ := Span.regionEnd?_eq_none_iff.1 hregion
        exact ⟨.token t span, t', rest, rfl, ⟨ht, hround, hcurly, hspan⟩, ht'⟩
      | some close =>
        -- the region comes first; the walk behind it waits for what it waited for before
        rw [hregion] at h
        obtain ⟨inside, closer, behind, hts, hinside, hcloser⟩ := exists_span_of_spanLengthFrom? h
        obtain rfl : closer.text = close := hcloser
        have hshorter : behind.length < ts.length := by
          rw [hts, List.length_append, List.length_cons]
          omega
        rw [hts, Option.toList_some, List.singleton_append,
          spanLengthFrom?_append terminator (closer.text :: closers) hinside,
          spanLengthFrom?_closer rfl] at h
        obtain ⟨span, t', rest, rfl, hspan, ht'⟩ := exists_span_of_spanLengthFrom? h
        refine ⟨.region t inside closer span, t', rest, ?_,
          ⟨ht, Span.encloses_of_regionEnd? hregion, hinside, hspan⟩, ht'⟩
        rw [hts, Span.tokens, List.cons_append, List.append_assoc, List.cons_append]
termination_by ts => ts.length
decreasing_by
  · exact Nat.lt_succ_self _
  · exact Nat.lt_succ_self _
  · exact Nat.lt_succ_of_lt hshorter

/-- **The walk finds the spans of the grammar.** -/
theorem spanLength?_eq_some_iff {terminator : List Char} {ts : List Token} {n : Nat} :
    spanLength? terminator ts = some n ↔ ∃ span t rest, ts = Span.tokens span ++ t :: rest ∧
      span.UpTo terminator ∧ t.text = terminator ∧ n = span.tokens.length := by
  rw [spanLength?]
  constructor
  · intro h
    obtain ⟨span, t, rest, rfl, hspan, ht⟩ := exists_span_of_spanLengthFrom? h
    replace ht : t.text = terminator := ht
    rw [spanLengthFrom?_append terminator [] hspan, spanLengthFrom?_terminator ht,
      Nat.zero_add] at h
    exact ⟨span, t, rest, rfl, hspan, ht, (Option.some.inj h).symm⟩
  · rintro ⟨span, t, rest, rfl, hspan, ht, rfl⟩
    rw [spanLengthFrom?_append terminator [] hspan, spanLengthFrom?_terminator ht, Nat.zero_add]

/-! ## One span in front of a terminator -/

/-- **The tokens determine the span**: where it ends, and where its regions are. -/
theorem Span.UpTo.unique {span span' : Span} {terminator : List Char} {t t' : Token}
    {rest rest' : List Token} (h : span.UpTo terminator) (h' : span'.UpTo terminator)
    (ht : t.text = terminator) (ht' : t'.text = terminator)
    (heq : span.tokens ++ t :: rest = span'.tokens ++ t' :: rest') :
    span = span' ∧ t = t' ∧ rest = rest' := by
  induction span generalizing span' terminator t t' rest rest' with
  | nil =>
    cases span' with
    | nil =>
      obtain ⟨rfl, rfl⟩ := List.cons.inj heq
      exact ⟨rfl, rfl, rfl⟩
    | token u behind' =>
      obtain ⟨rfl, -⟩ := List.cons.inj heq
      exact absurd ht h'.1
    | region opener' inside' closer' behind' =>
      obtain ⟨rfl, -⟩ := List.cons.inj heq
      exact absurd ht h'.1
  | token u behind ih =>
    cases span' with
    | nil =>
      obtain ⟨rfl, -⟩ := List.cons.inj heq
      exact absurd ht' h.1
    | token u' behind' =>
      obtain ⟨rfl, hbehind⟩ := List.cons.inj heq
      obtain ⟨rfl, rest_eq⟩ := ih h.2.2.2 h'.2.2.2 ht ht' hbehind
      exact ⟨rfl, rest_eq⟩
    | region opener' inside' closer' behind' =>
      obtain ⟨rfl, -⟩ := List.cons.inj heq
      have hnone := regionEnd?_eq_none_iff.2 ⟨h.2.1, h.2.2.1⟩
      rw [h'.2.1.regionEnd?_eq] at hnone
      exact absurd hnone (by simp)
  | region opener inside closer behind ihInside ihBehind =>
    cases span' with
    | nil =>
      obtain ⟨rfl, -⟩ := List.cons.inj heq
      exact absurd ht' h.1
    | token u' behind' =>
      obtain ⟨rfl, -⟩ := List.cons.inj heq
      have hnone := regionEnd?_eq_none_iff.2 ⟨h'.2.1, h'.2.2.1⟩
      rw [h.2.1.regionEnd?_eq] at hnone
      exact absurd hnone (by simp)
    | region opener' inside' closer' behind' =>
      obtain ⟨-, hpair, hinside, hbehind⟩ := h
      obtain ⟨-, hpair', hinside', hbehind'⟩ := h'
      rw [tokens, tokens, List.cons_append, List.append_assoc, List.cons_append,
        List.cons_append, List.append_assoc, List.cons_append] at heq
      obtain ⟨rfl, htokens⟩ := List.cons.inj heq
      have hclose := hpair.text_eq hpair'
      obtain ⟨rfl, rfl, hmore⟩ := ihInside hinside (hclose ▸ hinside') rfl hclose htokens
      obtain ⟨rfl, rest_eq⟩ := ihBehind hbehind hbehind' ht ht' hmore
      exact ⟨rfl, rest_eq⟩

end TokenEdit
