import TokenEdit.Proofs.Scope

/-!
# Scopes that rules without brackets keep apart

Let the list of a scan be the inside of a scope, with all brackets in pairs, the bracket that
closes the scope, and more tokens behind it.  Rules without curly brackets see nothing of what
stands behind: the scan goes step by step as it goes over the inside alone, it needs as many steps,
and it finds the same occurrences.

The reason is that no occurrence reaches as far as the closing bracket.  An item takes a token that
it names or an identifier, and the closing bracket is neither, so the pattern occurs in the whole
list where it occurs in the inside (`Pattern.match?_append_closeCurly`).  The rest is a comparison
of two runs.  What is compared are not only final states but also the runs that do not come to an
end within the given number of steps.

* `Scan.Inside`: what is kept from step to step.
* `Scan.step_extend`: one step, with and without the tokens behind the scope.
* `Scan.parallel_run`: whole runs, with follow-ups of any depth.
* `scope_isolated_of_curlyFree`: the statement for the application of a rule.
-/

namespace TokenEdit

/-- The bracket that closes a scope. -/
def Token.closeCurly : Token :=
  ⟨.bracket, ['}']⟩

/-- No pattern without brackets reaches as far as a closing bracket. -/
theorem Pattern.match?_append_closeCurly {p : Pattern} (hp : ∀ item ∈ p.items, item.CurlyFree)
    (b : Bindings) (ts behind : List Token) :
    p.match? b (ts ++ Token.closeCurly :: behind) = p.match? b ts := by
  cases hm : p.match? b (ts ++ Token.closeCurly :: behind) with
  | none => exact (match?_eq_none_of_append hm).symm
  | some result =>
    obtain ⟨taken, b'⟩ := result
    have hle : taken ≤ ts.length := by
      refine Nat.le_of_not_lt fun hlt => ?_
      obtain ⟨n, rfl⟩ : ∃ n, taken = ts.length + (n + 1) := ⟨taken - ts.length - 1, by omega⟩
      have htaken : Token.closeCurly ∈
          (ts ++ Token.closeCurly :: behind).take (ts.length + (n + 1)) := by
        rw [List.take_length_add_append]
        exact List.mem_append_right ts List.mem_cons_self
      exact absurd (isDelimiter_or_identifier_of_match? hp hm _ htaken (.inr rfl)) (by decide)
    exact (match?_of_append hm hle).symm

namespace Scan

/-! ## One step -/

/-- What is kept from step to step: the scan is inside a scope, with `outer` brackets around it,
and no identifier and no binding is a bracket. -/
structure Inside (outer : Nat) (s : Scan) : Prop where
  curlyFree : s.CurlyFree
  within : s.Within outer

theorem Inside.inner {outer : Nat} {s : Scan} (h : s.Inside outer) (f : Rule) :
    (s.inner f).Inside (outer + s.depth) :=
  ⟨h.curlyFree.inner f, h.within.inner f⟩

theorem Inside.resume {outer : Nat} {s u : Scan} (h : s.Inside outer)
    (hu : u.Inside (outer + s.depth)) : (s.resume u).Inside outer :=
  ⟨h.curlyFree.resume hu.curlyFree, h.within.resume hu.within⟩

/-- **One step, with and without the tokens behind the scope.**  Both scans halt, or both copy the
same token, or both replace the same occurrence; and they stay inside the scope. -/
theorem step_extend {outer : Nat} {s : Scan} (hs : s.Inside outer) {r : Rule} (hr : r.CurlyFree)
    (role : Role) (behind : List Token) :
    (s.step role r = .halt ∧ (s.extend (.closeCurly :: behind)).step role r = .halt) ∨
    (∃ u, u.Inside outer ∧ s.step role r = .copy u ∧
      (s.extend (.closeCurly :: behind)).step role r = .copy (u.extend (.closeCurly :: behind))) ∨
    (∃ u, u.Inside outer ∧ s.step role r = .replace u ∧
      (s.extend (.closeCurly :: behind)).step role r =
        .replace (u.extend (.closeCurly :: behind))) := by
  have hmatch := Pattern.match?_append_closeCurly hr.items s.bindings s.rest behind
  cases hrest : s.rest with
  | nil =>
    -- at the closing bracket no bracket is open
    have hrest' : (s.extend (.closeCurly :: behind)).rest = .closeCurly :: behind := by
      rw [extend, hrest]
      rfl
    have hm : r.pattern.match? s.bindings (s.extend (.closeCurly :: behind)).rest = none := by
      rw [extend, hmatch, hrest, Pattern.match?_nil]
    have hdepth : depthAfter s.depth Token.closeCurly.text = none :=
      depthAfter_eq_none_iff.2 ⟨rfl, hs.within.depth_eq_zero hrest⟩
    exact .inl ⟨step_of_rest_eq_nil hrest,
      (step_of_match?_eq_none hrest' rfl hm).trans (pass_of_depthAfter_eq_none hdepth behind)⟩
  | cons t ts =>
    have hrest' : (s.extend (.closeCurly :: behind)).rest = t :: (ts ++ .closeCurly :: behind) := by
      rw [extend, hrest]
      rfl
    cases ht : t.isDelimiter with
    | true =>
      have hu : (s.copyDelimiter t ts).Inside outer :=
        ⟨hs.curlyFree.copyDelimiter hrest, hs.within.copyDelimiter hrest ht⟩
      exact .inr (.inl ⟨_, hu, step_of_isDelimiter hrest ht, step_of_isDelimiter hrest' ht⟩)
    | false =>
      cases hm : r.pattern.match? s.bindings s.rest with
      | none =>
        have hstep : s.step role r = s.pass t ts := step_of_match?_eq_none hrest ht hm
        have hstep' : (s.extend (.closeCurly :: behind)).step role r =
            (s.extend (.closeCurly :: behind)).pass t (ts ++ .closeCurly :: behind) :=
          step_of_match?_eq_none hrest' ht (hmatch.trans hm)
        cases hdepth : depthAfter s.depth t.text with
        | none =>
          exact .inl ⟨hstep.trans (pass_of_depthAfter_eq_none hdepth _),
            hstep'.trans (pass_of_depthAfter_eq_none hdepth _)⟩
        | some depth =>
          have hu : (s.copySignificant t ts depth).Inside outer :=
            ⟨hs.curlyFree.copySignificant hrest depth, hs.within.copySignificant hrest ht hdepth⟩
          exact .inr (.inl ⟨_, hu, hstep.trans (pass_of_depthAfter_eq_some hdepth _),
            hstep'.trans (pass_of_depthAfter_eq_some hdepth _)⟩)
      | some result =>
        obtain ⟨taken, b⟩ := result
        have hused := hs.curlyFree.balanced_used hr hm
        have hput := hs.curlyFree.balanced_put hr hm s.column
        have hu : (s.replace role r taken b).Inside outer :=
          ⟨hs.curlyFree.replace hr hm role, hs.within.replace hused hput role⟩
        refine .inr (.inr ⟨_, hu, step_of_match?_eq_some hrest ht hm, ?_⟩)
        rw [step_of_match?_eq_some hrest' ht (hmatch.trans hm),
          replace_extend (Pattern.match?_le_length hm)]

/-! ## Whole runs -/

/-- The answer of a run over the inside of a scope, and that of the run over the longer list: both
or none have come to an end, inside the scope and with the same state but for the tail. -/
def Parallel (outer : Nat) (tail : List Token) (answer answer' : Option Scan) : Prop :=
  answer' = answer.map (extend tail) ∧ ∀ u, answer = some u → u.Inside outer

theorem Parallel.some {outer : Nat} {s : Scan} (hs : s.Inside outer) (tail : List Token) :
    Parallel outer tail (some s) (some (s.extend tail)) :=
  ⟨rfl, fun _ hu => Option.some.inj hu ▸ hs⟩

theorem Parallel.bind {outer : Nat} {tail : List Token} {answer answer' : Option Scan}
    (h : Parallel outer tail answer answer') {next : Scan → Option Scan}
    (hnext : ∀ u, u.Inside outer → Parallel outer tail (next u) (next (u.extend tail))) :
    Parallel outer tail (answer.bind next) (answer'.bind next) := by
  obtain ⟨rfl, hinside⟩ := h
  cases answer with
  | none => exact ⟨rfl, fun u hu => absurd hu (by simp)⟩
  | some u => exact hnext u (hinside u rfl)

theorem Parallel.resume {outer : Nat} {tail : List Token} {s : Scan} (hs : s.Inside outer)
    {answer answer' : Option Scan} (h : Parallel (outer + s.depth) tail answer answer') :
    Parallel outer tail (answer.map s.resume) (answer'.map (s.extend tail).resume) := by
  obtain ⟨rfl, hinside⟩ := h
  cases answer with
  | none => exact ⟨rfl, fun u hu => absurd hu (by simp)⟩
  | some u =>
    refine ⟨congrArg Option.some (resume_extend s u tail), fun v hv => ?_⟩
    rw [← Option.some.inj hv]
    exact hs.resume (hinside u rfl)

/-- The follow-ups run in parallel when each of them does. -/
theorem parallel_followUps {fuel : Nat} {tail : List Token}
    (hscan : ∀ {f : Rule} {s : Scan} {outer : Nat}, f.Everywhere Rule.CurlyFree →
      s.Inside outer →
        Parallel outer tail (run fuel .followUp f s) (run fuel .followUp f (s.extend tail))) :
    ∀ {rules : List Rule} {s : Scan} {outer : Nat}, (∀ f ∈ rules, f.Everywhere Rule.CurlyFree) →
      s.Inside outer → Parallel outer tail ((Work.followUps rules).run fuel s)
        ((Work.followUps rules).run fuel (s.extend tail))
  | [], s, outer, _, hs => .some hs tail
  | f :: rules, s, outer, hrules, hs => by
    obtain ⟨hf, hrules⟩ := List.forall_mem_cons.1 hrules
    rw [Work.run, Work.run, List.foldlM_cons, List.foldlM_cons]
    exact (Parallel.resume hs (hscan hf (hs.inner f))).bind
      fun u hu => parallel_followUps hscan hrules hu

/-- **Runs with and without the tokens behind the scope are parallel**, whatever the bound on
their steps.  The induction is on the bound: a follow-up runs with a smaller one. -/
theorem parallel_run {fuel : Nat} {role : Role} {r : Rule} (hr : r.Everywhere Rule.CurlyFree)
    {s : Scan} {outer : Nat} (hs : s.Inside outer) (behind : List Token) :
    Parallel outer (.closeCurly :: behind) (run fuel role r s)
      (run fuel role r (s.extend (.closeCurly :: behind))) := by
  induction fuel generalizing role r s outer with
  | zero => exact ⟨rfl, fun u hu => absurd hu (by simp [run])⟩
  | succ fuel ih =>
    rw [run, run]
    rcases step_extend hs hr.1 role behind with
      ⟨hstep, hstep'⟩ | ⟨u, hu, hstep, hstep'⟩ | ⟨u, hu, hstep, hstep'⟩
    · rw [hstep, hstep']
      exact .some hs _
    · rw [hstep, hstep']
      exact ih hr hu
    · rw [hstep, hstep']
      have hfollow := parallel_followUps (fun hf hs => ih hf hs)
        (fun f hf => hr.followUp hf) hu
      exact hfollow.bind fun v hv => ih hr hv

end Scan

/-- **What stands behind a scope has no influence on how the scope is rewritten.**

Let a rule and all rules below it be without curly brackets and without captures of whole
expressions, and let no name be bound to a bracket.  Then for all tokens cut from texts, with their
brackets in pairs, and for all tokens behind a bracket that closes their scope, the application of
the rule comes to an end if and only if its application to the inside alone does.  It then leaves
what that application leaves, the closing bracket and the tokens behind it, with the same bindings
and the same events; in particular it finds as many occurrences. -/
theorem scope_isolated_of_curlyFree {r : Rule} (hr : r.Everywhere Rule.CurlyFree) {b : Bindings}
    (hb : b.All fun t => ¬ t.IsCurly) {inside : List Token} (hlexed : ∀ t ∈ inside, t.Lexed)
    (hinside : Balanced inside) (behind : List Token) :
    ((∃ fuel s', r.apply fuel b (inside ++ .closeCurly :: behind) = some s') ↔
      ∃ fuel s, r.apply fuel b inside = some s) ∧
    ∀ {fuel fuel' : Nat} {s s' : Scan}, r.apply fuel b inside = some s →
      r.apply fuel' b (inside ++ .closeCurly :: behind) = some s' →
        s'.tokens = s.tokens ++ .closeCurly :: behind ∧ s'.bindings = s.bindings ∧
          s'.events = s.events ∧ ∀ role, s'.matchCount role = s.matchCount role := by
  have hstart : (Scan.start b [] inside).Inside 0 :=
    ⟨.start hb (fun t ht => (hlexed t ht).classified.tame) [],
      .start (nested_and_closed_iff.1 hinside) b []⟩
  have hparallel (fuel : Nat) : r.apply fuel b (inside ++ .closeCurly :: behind) =
      (r.apply fuel b inside).map (Scan.extend (.closeCurly :: behind)) :=
    (Scan.parallel_run hr hstart behind).1
  refine ⟨⟨?_, ?_⟩, ?_⟩
  · rintro ⟨fuel, s', h⟩
    rw [hparallel] at h
    obtain ⟨s, hs, -⟩ := Option.map_eq_some_iff.1 h
    exact ⟨fuel, s, hs⟩
  · rintro ⟨fuel, s, h⟩
    exact ⟨fuel, _, by rw [hparallel, h, Option.map_some]⟩
  · intro fuel fuel' s s' hs hs'
    rw [hparallel] at hs'
    obtain ⟨u, hu, rfl⟩ := Option.map_eq_some_iff.1 hs'
    obtain rfl : s = u := Scan.run_unique hs hu
    exact ⟨Scan.tokens_extend _ s, rfl, rfl, fun _ => rfl⟩

/-- Two follow-ups, the second of which finds what the first one leaves.  Neither sees the tokens
behind the closing bracket, although one of those is an identifier with the text of a bracket. -/
theorem scope_isolated_with_follow_ups :
    let word (text : String) : Token := ⟨.identifier, text.toList⟩
    let rename (x y : String) (followUps : List Rule) : Rule :=
      ⟨⟨[.literal (word x)], List.cons_ne_nil _ _⟩, .ofText y.toList, followUps, 0⟩
    let r := rename "begin" "start" [rename "x" "y" [], rename "y" "z" []]
    let inside := tokenize "begin { x } y ".toList
    let behind := [⟨.identifier, ['}']⟩, word "x", word "begin"]
    r.Everywhere Rule.CurlyFree ∧ (∀ t ∈ inside, t.Lexed) ∧ Balanced inside ∧
      ∃ fuel s s', r.apply 30 .empty inside = some s ∧
        r.apply fuel .empty (inside ++ .closeCurly :: behind) = some s' ∧
        Token.render s.tokens = "start { z } z ".toList ∧ s.matchCount .followUp = 3 ∧
        s'.tokens = s.tokens ++ .closeCurly :: behind ∧ s'.events = s.events := by
  intro word rename r inside behind
  have hr : r.Everywhere Rule.CurlyFree := by
    refine Rule.everywhere_iff.2 ⟨by decide +kernel, List.forall_mem_cons.2 ⟨?_,
      List.forall_mem_singleton.2 ?_⟩⟩
    all_goals exact Rule.everywhere_iff.2 ⟨by decide +kernel, List.forall_mem_nil _⟩
  have hlexed : ∀ t ∈ inside, t.Lexed := fun t ht => ⟨_, ht⟩
  have hinside : Balanced inside := by decide +kernel
  obtain ⟨s, hs, heq⟩ : ∃ s, r.apply 30 .empty inside = some s ∧
      (Token.render s.tokens, s.matchCount .followUp) = ("start { z } z ".toList, 3) := by
    refine Option.map_eq_some_iff.1 (?_ : Option.map _ _ = some _)
    decide +kernel
  obtain ⟨htext, hcount⟩ := Prod.mk.inj heq
  obtain ⟨hends, hsame⟩ :=
    scope_isolated_of_curlyFree hr Bindings.all_empty hlexed hinside behind
  obtain ⟨fuel, s', hs'⟩ := hends.2 ⟨30, s, hs⟩
  obtain ⟨htokens, -, hevents, -⟩ := hsame hs hs'
  exact ⟨hr, hlexed, hinside, fuel, s, s', hs, hs', htext, hcount, htokens, hevents⟩

end TokenEdit
