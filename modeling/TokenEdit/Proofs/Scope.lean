import TokenEdit.Draft
import TokenEdit.Proofs.CurlyFree

/-!
# What a scan leaves outside of its scope

The list of a scan may start inside a scope and reach beyond its end: tokens with all brackets in
pairs, the bracket that closes the scope, and whatever comes behind it.  The scan stops at that
bracket, if it comes there with no bracket open and without having taken it.

Whether it does depends on its occurrences.  A scan counts the brackets that it copies and no
others, so an occurrence that takes an opening bracket without its partner, or a closing one, makes
the count wrong; a template may put in such brackets for the scan around it; and an expression may
run past the end of the scope to a terminator behind it.  As long as all occurrences take and put
in brackets in pairs, none of this happens: the run is the run over the inside of the scope alone,
with the rest of the list behind it.

* `Scan.Within`: the brackets on both sides of a scan, inside a scope.
* `Scan.Traced.exists_runs_inside`: a run is the run over the inside, if its occurrences take and
  put in brackets in pairs.
* `outside_unchanged_of_balanced_occurrences`: what this says of the result of a follow-up.
* `follow_up_changes_outside_of_scope`: an expression that runs past the end of the scope.
-/

namespace TokenEdit

theorem Token.closes_iff {t : Token} :
    t.closes = true ↔ t.isDelimiter = false ∧ t.text = ['}'] := by
  simp [closes]

/-- A closing bracket has no partner where no bracket is open. -/
theorem openAfter?_zero_cons_of_closes {t : Token} (ht : t.closes = true) (ts : List Token) :
    openAfter? 0 (t :: ts) = none := by
  obtain ⟨hsignificant, htext⟩ := Token.closes_iff.1 ht
  rw [openAfter?_cons_of_significant hsignificant, depthAfter_eq_none_iff.2 ⟨htext, rfl⟩,
    Option.bind_none]

namespace Scan

/-! ## More tokens behind a scan -/

/-- The state with more tokens behind those not yet read. -/
def extend (tail : List Token) (s : Scan) : Scan :=
  { s with rest := s.rest ++ tail }

theorem tokens_extend (tail : List Token) (s : Scan) :
    (s.extend tail).tokens = s.tokens ++ tail :=
  (List.append_assoc ..).symm

theorem replace_extend {s : Scan} {taken : Nat} (h : taken ≤ s.rest.length) (tail : List Token)
    (role : Role) (r : Rule) (b : Bindings) :
    (s.extend tail).replace role r taken b = (s.replace role r taken b).extend tail := by
  simp only [replace, extend, List.drop_append_of_le_length h]

theorem resume_extend (s u : Scan) (tail : List Token) :
    (s.extend tail).resume (u.extend tail) = (s.resume u).extend tail := by
  rw [resume, tokens_extend]
  rfl

/-- The next token stands in front of the tail, or it is the first token of the tail. -/
theorem rest_extend_cases {s : Scan} {closer t : Token} {behind ts : List Token}
    (h : (s.extend (closer :: behind)).rest = t :: ts) :
    (s.rest = [] ∧ t = closer) ∨ ∃ ts', s.rest = t :: ts' ∧ ts = ts' ++ closer :: behind := by
  cases hrest : s.rest with
  | nil =>
    simp only [extend, hrest, List.nil_append, List.cons.injEq] at h
    exact .inl ⟨rfl, h.1.symm⟩
  | cons t' ts' =>
    simp only [extend, hrest, List.cons_append, List.cons.injEq] at h
    exact .inr ⟨ts', by rw [h.1], h.2.symm⟩

/-! ## Brackets on both sides of a scan -/

/-- A scan inside a scope: `outer` brackets are open in front of its list and closed in it.  The
brackets written, besides those in pairs, are the open ones that are counted. -/
structure Within (outer : Nat) (s : Scan) : Prop where
  written : openAfter? 0 s.written.reverse = some s.depth
  rest : openAfter? (outer + s.depth) s.rest = some 0

namespace Within

variable {outer : Nat} {s u : Scan} {t : Token} {ts : List Token}

theorem start {ts : List Token} (h : openAfter? outer ts = some 0) (b : Bindings)
    (events : List Event) : (Scan.start b events ts).Within outer :=
  ⟨rfl, h⟩

theorem tokens (h : s.Within outer) : openAfter? outer s.tokens = some 0 := by
  have hwritten : openAfter? outer s.written.reverse = some (outer + s.depth) :=
    openAfter?_add h.written outer
  rw [Scan.tokens, openAfter?_append, hwritten, Option.bind_some, h.rest]

theorem copyDelimiter (h : s.Within outer) (hrest : s.rest = t :: ts)
    (ht : t.isDelimiter = true) : (s.copyDelimiter t ts).Within outer where
  written := by
    show openAfter? 0 (t :: s.written).reverse = some s.depth
    rw [List.reverse_cons, openAfter?_append, h.written, Option.bind_some,
      openAfter?_cons_of_isDelimiter ht, openAfter?_nil]
  rest := by
    have hall := h.rest
    rwa [hrest, openAfter?_cons_of_isDelimiter ht] at hall

theorem copySignificant (h : s.Within outer) (hrest : s.rest = t :: ts)
    (ht : t.isDelimiter = false) {depth : Nat} (hdepth : depthAfter s.depth t.text = some depth) :
    (s.copySignificant t ts depth).Within outer where
  written := by
    show openAfter? 0 (t :: s.written).reverse = some depth
    rw [List.reverse_cons, openAfter?_append, h.written, Option.bind_some,
      openAfter?_cons_of_significant ht, hdepth, Option.bind_some, openAfter?_nil]
  rest := by
    have hall := h.rest
    rwa [hrest, openAfter?_cons_of_significant ht, depthAfter_add hdepth,
      Option.bind_some] at hall

/-- An occurrence that takes and puts in brackets in pairs. -/
theorem replace (h : s.Within outer) {taken : Nat} {b : Bindings} {r : Rule}
    (hused : Balanced (s.rest.take taken)) (hput : Balanced (r.template.expand b s.column))
    (role : Role) : (s.replace role r taken b).Within outer where
  written := by
    show openAfter? 0 ((r.template.expand b s.column).reverse ++ s.written).reverse = some s.depth
    rw [List.reverse_append, List.reverse_reverse, openAfter?_append, h.written, Option.bind_some,
      hput.openAfter?]
  rest := by
    have hall := h.rest
    rwa [← List.take_append_drop taken s.rest, openAfter?_append, hused.openAfter?,
      Option.bind_some] at hall

/-- A follow-up starts to count anew, with the brackets around it further out. -/
theorem inner (h : s.Within outer) (f : Rule) : (s.inner f).Within (outer + s.depth) :=
  .start h.rest s.bindings _

theorem resume (h : s.Within outer) (hu : u.Within (outer + s.depth)) :
    (s.resume u).Within outer :=
  ⟨h.written, hu.tokens⟩

/-- At the end of the inside no bracket is open. -/
theorem depth_eq_zero (h : s.Within outer) (hrest : s.rest = []) : s.depth = 0 := by
  have hall := h.rest
  rw [hrest, openAfter?_nil, Option.some.injEq] at hall
  omega

/-- Tokens with their brackets in pairs do not reach beyond the end of the inside. -/
theorem length_le_of_balanced (h : s.Within outer) {closer : Token} (hcloser : closer.closes = true)
    {behind : List Token} {taken : Nat}
    (hused : Balanced ((s.rest ++ closer :: behind).take taken)) : taken ≤ s.rest.length := by
  refine Nat.le_of_not_lt fun hlt => ?_
  obtain ⟨n, rfl⟩ : ∃ n, taken = s.rest.length + (n + 1) :=
    ⟨taken - s.rest.length - 1, by omega⟩
  have hopen := hused.openAfter? (outer + s.depth)
  rw [List.take_length_add_append, List.take_succ_cons, openAfter?_append, h.rest,
    Option.bind_some, openAfter?_zero_cons_of_closes hcloser] at hopen
  exact absurd hopen (by simp)

end Within

/-! ## Runs inside a scope -/

/-- **A run is the run over the inside of the scope**, if its occurrences take and put in brackets
in pairs.  Follow-ups are runs inside a scope too, with more brackets around them. -/
theorem Traced.exists_runs_inside {closer : Token} (hcloser : closer.closes = true)
    {behind : List Token} {w : Work} {s' v : Scan} {os : List Occurrence} (h : Traced w s' os v)
    (hos : ∀ o ∈ os, Balanced o.used ∧ Balanced o.put) {outer : Nat} {s : Scan}
    (hs : s' = s.extend (closer :: behind)) (hwithin : s.Within outer) :
    ∃ u, v = u.extend (closer :: behind) ∧ Runs w s u ∧ u.Within outer := by
  induction h generalizing s outer with
  | finish hrest =>
    rw [hs] at hrest
    exact absurd hrest (by simp [extend])
  | stop hrest ht hm hdepth =>
    subst hs
    refine ⟨s, rfl, ?_, hwithin⟩
    rcases rest_extend_cases hrest with ⟨hnil, -⟩ | ⟨ts', hrest', -⟩
    · exact ⟨_, .finish hnil⟩
    · exact ⟨_, .stop hrest' ht (Pattern.match?_eq_none_of_append hm) hdepth⟩
  | delimiter hrest ht _ ih =>
    subst hs
    rcases rest_extend_cases hrest with ⟨-, rfl⟩ | ⟨ts', hrest', rfl⟩
    · rw [(Token.closes_iff.1 hcloser).1] at ht
      exact absurd ht (by simp)
    · obtain ⟨u, hv, ⟨_, hruns⟩, hu⟩ := ih hos rfl (hwithin.copyDelimiter hrest' ht)
      exact ⟨u, hv, ⟨_, .delimiter hrest' ht hruns⟩, hu⟩
  | significant hrest ht hm hdepth _ ih =>
    subst hs
    rcases rest_extend_cases hrest with ⟨hnil, rfl⟩ | ⟨ts', hrest', rfl⟩
    · -- the bracket that closes the scope would have to have a partner
      have hnone := depthAfter_eq_none_iff.2
        ⟨(Token.closes_iff.1 hcloser).2, hwithin.depth_eq_zero hnil⟩
      exact absurd (hnone.symm.trans hdepth) (by simp)
    · obtain ⟨u, hv, ⟨_, hruns⟩, hu⟩ := ih hos rfl (hwithin.copySignificant hrest' ht hdepth)
      have hm' := Pattern.match?_eq_none_of_append hm
      exact ⟨u, hv, ⟨_, .significant hrest' ht hm' hdepth hruns⟩, hu⟩
  | @occurrence role r _ _ _ _ _ _ _ taken b hrest ht hm follow _ ihFollow ihNext =>
    subst hs
    obtain ⟨⟨hused, hput⟩, hos⟩ := List.forall_mem_cons.1 hos
    obtain ⟨hosFollow, hosNext⟩ := List.forall_mem_append.1 hos
    have hle : taken ≤ s.rest.length := hwithin.length_le_of_balanced hcloser hused
    have htake : (s.extend (closer :: behind)).rest.take taken = s.rest.take taken :=
      List.take_append_of_le_length hle
    have hm' : r.pattern.match? s.bindings s.rest = some (taken, b) :=
      Pattern.match?_of_append hm hle
    obtain ⟨u, rfl, ⟨_, hfollow⟩, hu⟩ := ihFollow hosFollow (replace_extend hle _ role r b)
      (hwithin.replace (htake ▸ hused) hput role)
    obtain ⟨v, hv, ⟨_, hnext⟩, hvWithin⟩ := ihNext hosNext rfl hu
    rcases rest_extend_cases hrest with ⟨hnil, -⟩ | ⟨ts', hrest', -⟩
    · rw [hnil] at hm'
      exact absurd hm' (by simp)
    · exact ⟨v, hv, ⟨_, .occurrence hrest' ht hm' hfollow hnext⟩, hvWithin⟩
  | done => exact ⟨s, hs, ⟨_, .done⟩, hwithin⟩
  | @followUp f rules _ _ _ _ _ _ _ ihInner ihNext =>
    subst hs
    obtain ⟨hosInner, hosNext⟩ := List.forall_mem_append.1 hos
    obtain ⟨u, rfl, ⟨_, hinner⟩, hu⟩ := ihInner hosInner rfl (hwithin.inner f)
    obtain ⟨v, hv, ⟨_, hnext⟩, hvWithin⟩ :=
      ihNext hosNext (resume_extend s u _) (hwithin.resume hu)
    exact ⟨v, hv, ⟨_, .followUp hinner hnext⟩, hvWithin⟩

end Scan

/-- **A follow-up leaves alone what stands behind its scope, if its occurrences have their brackets
in pairs.**

Let a follow-up be run over the inside of a scope, with all brackets in pairs, the bracket that
closes the scope, and more tokens behind it, and let it come to an end.  If all occurrences that it
finds, its own and those of the rules below it, take and put in brackets in pairs, then it has done
what it does with the inside alone, and the closing bracket and all tokens behind it stand as they
were.  The pattern may be any pattern, and the tokens may be any tokens. -/
theorem outside_unchanged_of_balanced_occurrences {f : Rule} {b : Bindings} {events : List Event}
    {inside behind : List Token} {closer : Token} (hinside : Balanced inside)
    (hcloser : closer.closes = true) {fuel : Nat} {s : Scan}
    (h : Scan.run fuel .followUp f (Scan.start b events (inside ++ closer :: behind)) = some s) :
    (∃ os, Scan.Traced (.scan .followUp f)
      (Scan.start b events (inside ++ closer :: behind)) os s) ∧
    ∀ os, Scan.Traced (.scan .followUp f)
        (Scan.start b events (inside ++ closer :: behind)) os s →
      (∀ o ∈ os, Balanced o.used ∧ Balanced o.put) →
      ∃ fuel' u, Scan.run fuel' .followUp f (Scan.start b events inside) = some u ∧
        Balanced u.tokens ∧ s.tokens = u.tokens ++ closer :: behind ∧
          s.bindings = u.bindings ∧ s.events = u.events := by
  refine ⟨Scan.runs_of_run h, fun os hos hbalanced => ?_⟩
  have hwithin : (Scan.start b events inside).Within 0 :=
    .start (nested_and_closed_iff.1 hinside) b events
  obtain ⟨u, rfl, hruns, hu⟩ := hos.exists_runs_inside hcloser hbalanced rfl hwithin
  obtain ⟨fuel', hfuel'⟩ := Scan.exists_run_of_runs hruns
  exact ⟨fuel', u, hfuel', nested_and_closed_iff.2 hu.tokens, Scan.tokens_extend _ u, rfl, rfl⟩

/-- A rule with a follow-up of its own, run over the end of a scope.  Both occur inside, where a
scope lies in it; neither is found behind the closing bracket. -/
theorem outside_unchanged_behind_inner_scope :
    let token (kind : Kind) (c : Char) : Token := ⟨kind, [c]⟩
    let word (c : Char) : Pattern := ⟨[.literal (token .identifier c)], List.cons_ne_nil _ _⟩
    let f : Rule := ⟨word 'x', .ofText "y".toList, [⟨word 'v', .ofText "w".toList, [], 0⟩], 0⟩
    let inside := tokenize "x { v x } v ".toList
    let behind := tokenize " x v".toList
    Balanced inside ∧ (token .bracket '}').closes = true ∧
      ∃ s os, Scan.run 30 .followUp f
          (Scan.start .empty [] (inside ++ token .bracket '}' :: behind)) = some s ∧
        Scan.Traced (.scan .followUp f)
          (Scan.start .empty [] (inside ++ token .bracket '}' :: behind)) os s ∧
        s.matchCount .followUp = 4 ∧ (∀ o ∈ os, Balanced o.used ∧ Balanced o.put) ∧
        ∃ fuel u, Scan.run fuel .followUp f (Scan.start .empty [] inside) = some u ∧
          Balanced u.tokens ∧ s.tokens = u.tokens ++ token .bracket '}' :: behind ∧
            Token.render s.tokens = "y { w y } w ".toList ++ '}' :: " x v".toList := by
  intro token word f inside behind
  have hinside : Balanced inside := by decide +kernel
  have hlexed : inside ++ token .bracket '}' :: behind =
      tokenize ("x { v x } v ".toList ++ '}' :: " x v".toList) := by decide +kernel
  have hfree : f.Everywhere Rule.CurlyFree := by
    refine Rule.everywhere_iff.2 ⟨by decide +kernel, List.forall_mem_singleton.2 ?_⟩
    exact Rule.everywhere_iff.2 ⟨by decide +kernel, List.forall_mem_nil _⟩
  have hstart : (Scan.start .empty [] (inside ++ token .bracket '}' :: behind)).CurlyFree :=
    .start Bindings.all_empty (fun t ht => (Token.classified_of_mem_tokenize (hlexed ▸ ht)).tame) []
  obtain ⟨s, hs, heq⟩ : ∃ s, Scan.run 30 .followUp f
      (Scan.start .empty [] (inside ++ token .bracket '}' :: behind)) = some s ∧
        (Token.render s.tokens, s.matchCount .followUp) =
          ("y { w y } w ".toList ++ '}' :: " x v".toList, 4) := by
    refine Option.map_eq_some_iff.1 (?_ : Option.map _ _ = some _)
    decide +kernel
  obtain ⟨htext, hcount⟩ := Prod.mk.inj heq
  obtain ⟨⟨os, hos⟩, hall⟩ := outside_unchanged_of_balanced_occurrences hinside rfl hs
  have hbalanced := (hos.curlyFree hfree hstart).2
  obtain ⟨fuel, u, hu, htokens, hbehind, -, -⟩ := hall os hos hbalanced
  exact ⟨hinside, rfl, s, os, hs, hos, hcount, hbalanced, fuel, u, hu, htokens, hbehind, htext⟩

/-- An expression may run past the end of the scope: its terminator is looked for in the whole
rest of the list.  Here the follow-up takes the bracket that closes the scope, and tokens behind
it. -/
theorem follow_up_changes_outside_of_scope :
    let token (kind : Kind) (c : Char) : Token := ⟨kind, [c]⟩
    let semicolon := token .other ';'
    let f : Rule := ⟨⟨[.literal (token .identifier 'x'), .expr ['e'] semicolon],
      List.cons_ne_nil _ _⟩, .ofText "y;".toList, [], 0⟩
    let r : Rule := ⟨⟨[.literal ⟨.identifier, "begin".toList⟩, .literal semicolon],
      List.cons_ne_nil _ _⟩, .ofText "begin;".toList, [f], 0⟩
    let inside := tokenize " x ".toList
    let behind := tokenize " b; c".toList
    Balanced inside ∧ (token .bracket '}').closes = true ∧
      (∃ s, Scan.run 30 .followUp f
          (Scan.start .empty [] (inside ++ token .bracket '}' :: behind)) = some s ∧
        Token.render s.tokens = " y; c".toList ∧
        ¬ (token .bracket '}' :: behind) <:+ s.tokens) ∧
      editText 30 [r] "{ begin; x } b; c".toList = some ('{' :: " begin; y; c".toList) := by
  intro token semicolon f r inside behind
  refine ⟨by decide +kernel, rfl, ?_, by decide +kernel⟩
  obtain ⟨s, hs, heq⟩ : ∃ s, Scan.run 30 .followUp f
      (Scan.start .empty [] (inside ++ token .bracket '}' :: behind)) = some s ∧
        (Token.render s.tokens, decide ((token .bracket '}' :: behind) <:+ s.tokens)) =
          (" y; c".toList, false) := by
    refine Option.map_eq_some_iff.1 (?_ : Option.map _ _ = some _)
    decide +kernel
  obtain ⟨htext, hsuffix⟩ := Prod.mk.inj heq
  exact ⟨s, hs, htext, of_decide_eq_false hsuffix⟩

end TokenEdit
