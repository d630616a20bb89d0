import TokenEdit.Proofs.LayoutMatch
import TokenEdit.Proofs.SpanGrammar

/-!
# Skipping regions

The end of a span is most easily said by recursion.  Look at the tokens one by one; an opening
bracket is skipped together with everything up to its closing bracket, and the closing bracket is
found in the same way.  The recursion is as deep as the regions are nested, so `spanLengthFrom?`
does not follow it: it walks over the tokens once and keeps a list of the brackets that it waits
for.

The list holds what the recursion still has to do.  Where the walk waits for some brackets, it goes
on as if it searched for the innermost of them by recursion, behind that for the next, and behind
the last for the terminator.  So the search for a bracket is never ended by another one, and a
closing bracket that nothing waits for is passed like any other token.

* `skipTo?`: the search by recursion, and `skipTo?_eq`, its equation.
* `skipPast?`: the searches for brackets that are waited for.
* `spanLengthFrom?_eq_bind_skipTo?`: the walk comes to the token that the recursion finds.
* `spanLengthFrom?_eq_bind_skipPast?`: the list of brackets as searches that are still to be made.
* `span_ends_by_skipping_regions`: all together.
-/

namespace TokenEdit

/-! ## The search by recursion -/

/-- The first token from `i` on whose text is `terminator`.  A round or curly opening bracket that
is not the terminator is skipped, together with everything up to the token that the same search
finds for its closing bracket.  There is no result where a region does not end or the tokens run
out.

The token found is not in front of `i`, so the search goes on with fewer tokens behind a region. -/
def skipTo (ts : List Token) (terminator : List Char) (i : Nat) : Option {j // i ≤ j} :=
  if h : i < ts.length then
    if ts[i].text = terminator then
      some ⟨i, Nat.le_refl i⟩
    else if ts[i].text = ['('] then do
      let ⟨close, _⟩ ← skipTo ts [')'] (i + 1)
      let ⟨j, _⟩ ← skipTo ts terminator (close + 1)
      return ⟨j, by omega⟩
    else if ts[i].text = ['{'] then do
      let ⟨close, _⟩ ← skipTo ts ['}'] (i + 1)
      let ⟨j, _⟩ ← skipTo ts terminator (close + 1)
      return ⟨j, by omega⟩
    else do
      let ⟨j, _⟩ ← skipTo ts terminator (i + 1)
      return ⟨j, by omega⟩
  else
    none
termination_by ts.length - i

/-- The index of the first token from `i` on whose text is `terminator`, when regions are
skipped. -/
def skipTo? (ts : List Token) (terminator : List Char) (i : Nat) : Option Nat :=
  (skipTo ts terminator i).map Subtype.val

/-- The index behind the brackets `closers`, when each of them is searched for behind the one
before it. -/
def skipPast? (ts : List Token) : (closers : List (List Char)) → (i : Nat) → Option Nat
  | [], i => some i
  | closer :: outer, i => (skipTo? ts closer i).bind fun close => skipPast? ts outer (close + 1)

variable {ts : List Token} {terminator closer : List Char} {i j : Nat}

/-- **The recursion**, without the bound on its result. -/
theorem skipTo?_eq (ts : List Token) (terminator : List Char) (i : Nat) :
    skipTo? ts terminator i =
      if h : i < ts.length then
        if ts[i].text = terminator then some i
        else if ts[i].text = ['('] then
          (skipTo? ts [')'] (i + 1)).bind fun close => skipTo? ts terminator (close + 1)
        else if ts[i].text = ['{'] then
          (skipTo? ts ['}'] (i + 1)).bind fun close => skipTo? ts terminator (close + 1)
        else skipTo? ts terminator (i + 1)
      else none := by
  rw [skipTo?, skipTo]
  split
  · simp only [skipTo?, apply_ite (Option.map Subtype.val), Option.map_eq_bind, Option.bind_eq_bind,
      Option.pure_def, Option.bind_assoc, Option.bind_some, Function.comp_def]
  · rfl

/-- A terminator that is an opening bracket ends the search and opens no region. -/
example : skipTo? (tokenize "a b ( c )".toList) ['('] 0 = some 4 := by decide +kernel

theorem skipTo?_of_length_le (h : ts.length ≤ i) : skipTo? ts terminator i = none := by
  rw [skipTo?_eq, dif_neg (Nat.not_lt.2 h)]

theorem skipTo?_terminator (h : i < ts.length) (ht : ts[i].text = terminator) :
    skipTo? ts terminator i = some i := by
  rw [skipTo?_eq, dif_pos h, if_pos ht]

/-- A region is skipped. -/
theorem skipTo?_region (h : i < ts.length) (ht : ts[i].text ≠ terminator)
    (hregion : regionEnd? ts[i].text = some closer) :
    skipTo? ts terminator i =
      (skipTo? ts closer (i + 1)).bind fun close => skipTo? ts terminator (close + 1) := by
  rw [skipTo?_eq, dif_pos h, if_neg ht]
  unfold regionEnd? at hregion
  split at hregion
  next hround =>
    obtain rfl := Option.some.inj hregion
    rw [if_pos hround]
  next hcurly =>
    obtain rfl := Option.some.inj hregion
    rw [if_neg (by simp [hcurly]), if_pos hcurly]
  · exact absurd hregion (by simp)

/-- A token that is not the terminator and opens no region is passed. -/
theorem skipTo?_other (h : i < ts.length) (ht : ts[i].text ≠ terminator)
    (hregion : regionEnd? ts[i].text = none) :
    skipTo? ts terminator i = skipTo? ts terminator (i + 1) := by
  obtain ⟨hround, hcurly⟩ := Span.regionEnd?_eq_none_iff.1 hregion
  rw [skipTo?_eq, dif_pos h, if_neg ht, if_neg hround, if_neg hcurly]

theorem le_of_skipTo? (h : skipTo? ts terminator i = some j) : i ≤ j := by
  obtain ⟨found, -, rfl⟩ := Option.map_eq_some_iff.1 h
  exact found.2

/-- The token found is a terminator. -/
theorem text_of_skipTo? (h : skipTo? ts terminator i = some j) :
    ∃ hj : j < ts.length, ts[j].text = terminator := by
  induction terminator, i using skipTo.induct ts generalizing j with
  | case1 i hi =>
    rw [skipTo?_terminator hi rfl] at h
    obtain rfl := Option.some.inj h
    exact ⟨hi, rfl⟩
  | case2 terminator i hi ht hopener _ ih | case3 terminator i hi ht _ hopener _ ih =>
    -- the token is found by the search behind the region
    rw [skipTo?_region hi ht (by rw [hopener, regionEnd?])] at h
    obtain ⟨close, hclose, h⟩ := Option.bind_eq_some_iff.1 h
    exact ih close (le_of_skipTo? hclose) h
  | case4 terminator i hi ht hround hcurly ih =>
    rw [skipTo?_other hi ht (Span.regionEnd?_eq_none_iff.2 ⟨hround, hcurly⟩)] at h
    exact ih h
  | case5 terminator i hi =>
    rw [skipTo?_of_length_le (Nat.not_lt.1 hi)] at h
    exact absurd h (by simp)

/-! ## The walk -/

/-- **The walk comes to the token that the recursion finds** for what is waited for first, and waits
for the same brackets there. -/
theorem spanLengthFrom?_eq_bind_skipTo? (ts : List Token) (terminator : List Char)
    (closers : List (List Char)) (i : Nat) :
    spanLengthFrom? terminator i closers (ts.drop i) =
      (skipTo? ts (closers.headD terminator) i).bind fun j =>
        spanLengthFrom? terminator j closers (ts.drop j) := by
  by_cases h : i < ts.length
  · by_cases ht : ts[i].text = closers.headD terminator
    · rw [skipTo?_terminator h ht, Option.bind_some]
    · rw [List.drop_eq_getElem_cons h, spanLengthFrom?_other ht]
      cases hregion : regionEnd? ts[i].text with
      | none =>
        rw [skipTo?_other h ht hregion]
        exact spanLengthFrom?_eq_bind_skipTo? ts terminator closers (i + 1)
      | some closer =>
        -- first the search for the closing bracket, then the one that the region interrupted
        rw [skipTo?_region h ht hregion, Option.toList_some, List.singleton_append,
          spanLengthFrom?_eq_bind_skipTo? ts terminator (closer :: closers) (i + 1),
          List.headD_cons]
        cases hclose : skipTo? ts closer (i + 1) with
        | none => rfl
        | some close =>
          have hle := le_of_skipTo? hclose
          obtain ⟨hlt, htext⟩ := text_of_skipTo? hclose
          rw [Option.bind_some, Option.bind_some, List.drop_eq_getElem_cons hlt,
            spanLengthFrom?_closer htext,
            spanLengthFrom?_eq_bind_skipTo? ts terminator closers (close + 1)]
  · have hle := Nat.not_lt.1 h
    rw [List.drop_eq_nil_of_le hle, spanLengthFrom?_nil, skipTo?_of_length_le hle, Option.bind_none]
termination_by ts.length - i

/-- Where no bracket is waited for, the walk ends at the token that the recursion finds. -/
theorem spanLengthFrom?_nil_eq_skipTo? (ts : List Token) (terminator : List Char) (i : Nat) :
    spanLengthFrom? terminator i [] (ts.drop i) = skipTo? ts terminator i := by
  rw [spanLengthFrom?_eq_bind_skipTo?, List.headD_nil]
  cases hfound : skipTo? ts terminator i with
  | none => rfl
  | some j =>
    obtain ⟨hlt, htext⟩ := text_of_skipTo? hfound
    rw [Option.bind_some, List.drop_eq_getElem_cons hlt, spanLengthFrom?_terminator htext]

/-- **The brackets waited for are searches that are still to be made**, the innermost first and the
one for the terminator last. -/
theorem spanLengthFrom?_eq_bind_skipPast? (ts : List Token) (terminator : List Char)
    (closers : List (List Char)) (i : Nat) :
    spanLengthFrom? terminator i closers (ts.drop i) =
      (skipPast? ts closers i).bind (skipTo? ts terminator) := by
  induction closers generalizing i with
  | nil => rw [spanLengthFrom?_nil_eq_skipTo?, skipPast?, Option.bind_some]
  | cons closer outer ih =>
    rw [spanLengthFrom?_eq_bind_skipTo?, List.headD_cons, skipPast?]
    cases hclose : skipTo? ts closer i with
    | none => rfl
    | some close =>
      obtain ⟨hlt, htext⟩ := text_of_skipTo? hclose
      rw [Option.bind_some, Option.bind_some, List.drop_eq_getElem_cons hlt,
        spanLengthFrom?_closer htext, ih]

/-- **Spans end where the recursion does.**  The terminator that `spanLength?` finds from a position
on is the one that the search by recursion finds, and if there is none for the one, there is none
for the other.  Wherever the walk is and whatever brackets it waits for, what it finds is found by
searches for these brackets, one behind the other, and for the terminator behind them.  A closing
bracket that is not the one waited for is passed, and the same brackets are waited for behind it. -/
theorem span_ends_by_skipping_regions (ts : List Token) (start : Nat) (terminator : List Char) :
    (spanLength? terminator (ts.drop start)).map (start + ·) = skipTo? ts terminator start ∧
      (∀ i closers, spanLengthFrom? terminator i closers (ts.drop i) =
        (skipPast? ts closers i).bind (skipTo? ts terminator)) ∧
      ∀ i closers stray, ts[i]? = some stray → stray.text = [')'] ∨ stray.text = ['}'] →
        stray.text ≠ closers.headD terminator →
        spanLengthFrom? terminator i closers (ts.drop i) =
          spanLengthFrom? terminator (i + 1) closers (ts.drop (i + 1)) := by
  refine ⟨?_, fun i closers => spanLengthFrom?_eq_bind_skipPast? ts terminator closers i, ?_⟩
  · rw [spanLength?, ← spanLengthFrom?_passed, spanLengthFrom?_nil_eq_skipTo?]
  · intro i closers stray hstray hclosing hother
    obtain ⟨hlt, rfl⟩ := List.getElem?_eq_some_iff.1 hstray
    have hregion : regionEnd? ts[i].text = none := by
      rcases hclosing with htext | htext <;> rw [htext] <;> rfl
    rw [List.drop_eq_getElem_cons hlt, spanLengthFrom?_other hother, hregion, Option.toList_none,
      List.nil_append]

/-- Two regions whose brackets interleave.  The round bracket inside the curly ones is waited for
further out, and is passed all the same. -/
theorem span_ends_behind_interleaved_brackets :
    let ts := tokenize "g = f(a, {b); }; c); d;".toList
    let closers := [['}'], [')']]
    ts[11]? = some ⟨.bracket, [')']⟩ ∧ [')'] ≠ closers.headD [';'] ∧
      skipTo? ts [';'] 4 = some 19 ∧
      (skipPast? ts closers 11).bind (skipTo? ts [';']) = some 19 ∧
      spanLengthFrom? [';'] 12 closers (ts.drop 12) = some 19 := by
  intro ts closers
  have hstray : ts[11]? = some ⟨.bracket, [')']⟩ := by decide +kernel
  have hother : [')'] ≠ closers.headD [';'] := by decide
  have hspan : spanLength? [';'] (ts.drop 4) = some 15 := by decide +kernel
  have hwalk : spanLengthFrom? [';'] 11 closers (ts.drop 11) = some 19 := by decide +kernel
  obtain ⟨hsearch, hwaiting, hpassed⟩ := span_ends_by_skipping_regions ts 4 [';']
  refine ⟨hstray, hother, ?_, ?_, ?_⟩
  · rw [← hsearch, hspan, Option.map_some]
  · rw [← hwaiting, hwalk]
  · rw [← hpassed 11 closers _ hstray (.inl rfl) hother, hwalk]

end TokenEdit
