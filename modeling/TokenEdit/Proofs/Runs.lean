import TokenEdit.Proofs.Rollback
import TokenEdit.Scan

/-!
# Runs as a relation

`Scan.run` counts its steps, and it runs the follow-ups of an occurrence by a fold.  Neither is of
interest to a statement about a run that has come to an end.  `Traced` says what such a run is: a
scan goes from step to step, an occurrence is followed by the scans of the follow-ups, one behind
the other, and the last state is where nothing is left to do.  The occurrences are listed as they
are found.

There are two kinds of work, the scan with a rule and the follow-ups of an occurrence, and each is
part of the other.  They are one relation, indexed by the work, so that one induction covers both:
every constructor is one thing that can happen, with everything that is known when it happens.

* `Scan.depthAfter`: what copying a significant token does to the number of open brackets.
* `Scan.Traced`: the relation.
* `Scan.Runs`: the relation, with whatever occurrences.
* `Scan.runs_iff_exists_run`: it holds exactly of the runs that come to an end.
-/

namespace TokenEdit

/-- An occurrence found in the course of a run. -/
structure Occurrence where
  role : Role
  rule : Rule
  /-- The state of the scan in which the rule is tried. -/
  state : Scan
  /-- The number of tokens taken. -/
  taken : Nat
  /-- The bindings with the captures of the occurrence. -/
  bindings : Bindings

namespace Scan

/-! ## Steps -/

/-- The number of open brackets after a significant token has been copied; `none` for a closing
bracket without a partner. -/
def depthAfter (depth : Nat) (text : List Char) : Option Nat :=
  if text = ['{'] then some (depth + 1)
  else if text = ['}'] then if depth = 0 then none else some (depth - 1)
  else some depth

/-- Copies a significant token, which leaves `depth` brackets open. -/
def copySignificant (s : Scan) (t : Token) (ts : List Token) (depth : Nat) : Scan :=
  { s.copy t ts with depth }

/-- Copies a delimiter. -/
def copyDelimiter (s : Scan) (t : Token) (ts : List Token) : Scan :=
  { s.copy t ts with column := columnAfter s.column t.text }

theorem pass_of_depthAfter_eq_some {s : Scan} {t : Token} {depth : Nat}
    (h : depthAfter s.depth t.text = some depth) (ts : List Token) :
    s.pass t ts = .copy (s.copySignificant t ts depth) := by
  unfold depthAfter at h
  unfold pass
  split at h
  · rw [if_pos ‹_›, copySignificant, Option.some.inj h]
  · rw [if_neg ‹_›]
    split at h
    · rw [if_pos ‹_›]
      split at h
      · exact absurd h (by simp)
      · rw [if_neg ‹_›, copySignificant, Option.some.inj h]
    · rw [if_neg ‹_›, copySignificant, ← Option.some.inj h]
      rfl

theorem pass_of_depthAfter_eq_none {s : Scan} {t : Token}
    (h : depthAfter s.depth t.text = none) (ts : List Token) : s.pass t ts = .halt := by
  unfold depthAfter at h
  unfold pass
  split at h
  · exact absurd h (by simp)
  · rw [if_neg ‹_›]
    split at h
    · rw [if_pos ‹_›]
      split at h
      · rw [if_pos ‹_›]
      · exact absurd h (by simp)
    · exact absurd h (by simp)

section Step

variable {s : Scan} {role : Role} {r : Rule} {t : Token} {ts : List Token}

theorem step_of_rest_eq_nil (h : s.rest = []) : s.step role r = .halt := by
  rw [step, h]

theorem step_of_isDelimiter (h : s.rest = t :: ts) (ht : t.isDelimiter = true) :
    s.step role r = .copy (s.copyDelimiter t ts) := by
  simp only [step, h, ht, if_true]
  rfl

theorem step_of_match?_eq_some {taken : Nat} {b : Bindings} (h : s.rest = t :: ts)
    (ht : t.isDelimiter = false) (hm : r.pattern.match? s.bindings s.rest = some (taken, b)) :
    s.step role r = .replace (s.replace role r taken b) := by
  rw [h] at hm
  simp only [step, h, ht, Bool.false_eq_true, if_false, Pattern.attempt_of_match?_eq_some hm]

/-- Where the pattern does not occur, the attempt leaves no trace in the scan. -/
theorem step_of_match?_eq_none (h : s.rest = t :: ts) (ht : t.isDelimiter = false)
    (hm : r.pattern.match? s.bindings s.rest = none) : s.step role r = s.pass t ts := by
  rw [h] at hm
  simp only [step, h, ht, Bool.false_eq_true, if_false, Pattern.attempt_of_match?_eq_none hm]
  rw [← h]

end Step

/-! ## Occurrences counted -/

/-- An occurrence counts once, in its own role. -/
theorem matchCount_replace (s : Scan) (role : Role) (r : Rule) (taken : Nat) (b : Bindings)
    (role' : Role) :
    (s.replace role r taken b).matchCount role' =
      s.matchCount role' + if role = role' then 1 else 0 := by
  simp [matchCount, replace, Event.isMatchOf, List.countP_cons]

/-- A follow-up goes on counting. -/
theorem matchCount_inner (s : Scan) (f : Rule) (role : Role) :
    (s.inner f).matchCount role = s.matchCount role := by
  simp [matchCount, inner, start, Event.isMatchOf]

/-! ## Runs -/

/-- What is to be done: a scan with a rule, or the follow-ups of an occurrence. -/
inductive Work where
  | scan (role : Role) (r : Rule)
  | followUps (rules : List Rule)

/-- Does the work in at most `fuel` steps for every scan; a follow-up has its scan to itself. -/
def Work.run (fuel : Nat) : Work → Scan → Option Scan
  | scan role r, s => Scan.run fuel role r s
  | followUps rules, s => rules.foldlM
      (fun s followUp => (Scan.run fuel .followUp followUp (s.inner followUp)).map s.resume) s

/-- The work, started in the first state, comes to an end in the second, and finds the occurrences
listed. -/
inductive Traced : Work → Scan → List Occurrence → Scan → Prop
  /-- All tokens are read. -/
  | finish {role : Role} {r : Rule} {s : Scan} (hrest : s.rest = []) : Traced (.scan role r) s [] s
  /-- A closing bracket has no partner. -/
  | stop {role : Role} {r : Rule} {s : Scan} {t : Token} {ts : List Token}
      (hrest : s.rest = t :: ts) (ht : t.isDelimiter = false)
      (hm : r.pattern.match? s.bindings s.rest = none)
      (hdepth : depthAfter s.depth t.text = none) : Traced (.scan role r) s [] s
  /-- A delimiter is copied. -/
  | delimiter {role : Role} {r : Rule} {s u : Scan} {os : List Occurrence} {t : Token}
      {ts : List Token} (hrest : s.rest = t :: ts) (ht : t.isDelimiter = true)
      (next : Traced (.scan role r) (s.copyDelimiter t ts) os u) : Traced (.scan role r) s os u
  /-- A significant token is copied. -/
  | significant {role : Role} {r : Rule} {s u : Scan} {os : List Occurrence} {t : Token}
      {ts : List Token} {depth : Nat} (hrest : s.rest = t :: ts) (ht : t.isDelimiter = false)
      (hm : r.pattern.match? s.bindings s.rest = none)
      (hdepth : depthAfter s.depth t.text = some depth)
      (next : Traced (.scan role r) (s.copySignificant t ts depth) os u) :
      Traced (.scan role r) s os u
  /-- An occurrence is replaced, and the follow-ups run. -/
  | occurrence {role : Role} {r : Rule} {s u v : Scan} {os os' : List Occurrence} {t : Token}
      {ts : List Token} {taken : Nat} {b : Bindings} (hrest : s.rest = t :: ts)
      (ht : t.isDelimiter = false) (hm : r.pattern.match? s.bindings s.rest = some (taken, b))
      (follow : Traced (.followUps r.followUps) (s.replace role r taken b) os u)
      (next : Traced (.scan role r) u os' v) :
      Traced (.scan role r) s (⟨role, r, s, taken, b⟩ :: (os ++ os')) v
  /-- No follow-up is left. -/
  | done {s : Scan} : Traced (.followUps []) s [] s
  /-- The next follow-up scans what is not yet read. -/
  | followUp {followUp : Rule} {rules : List Rule} {s u v : Scan} {os os' : List Occurrence}
      (inner : Traced (.scan .followUp followUp) (s.inner followUp) os u)
      (next : Traced (.followUps rules) (s.resume u) os' v) :
      Traced (.followUps (followUp :: rules)) s (os ++ os') v

/-- The work, started in the first state, comes to an end in the second. -/
abbrev Runs (w : Work) (s u : Scan) : Prop :=
  ∃ os, Traced w s os u

theorem Traced.runs {w : Work} {s u : Scan} {os : List Occurrence} (h : Traced w s os u) :
    Runs w s u :=
  ⟨os, h⟩

theorem Work.run_mono {fuel fuel' : Nat} (hle : fuel ≤ fuel') {w : Work} {s u : Scan}
    (h : w.run fuel s = some u) : w.run fuel' s = some u := by
  cases w with
  | scan role r => exact Scan.run_mono hle h
  | followUps rules =>
    refine foldlM_eq_some_of_imp (fun s followUp s' hs => ?_) h
    obtain ⟨c, hc, rfl⟩ := Option.map_eq_some_iff.1 hs
    exact Option.map_eq_some_iff.2 ⟨c, Scan.run_mono hle hc, rfl⟩

/-- A run of two parts, with enough steps for the longer of them. -/
theorem Work.exists_run_both {w w' : Work} {s u s' u' : Scan}
    (h : ∃ fuel, w.run fuel s = some u) (h' : ∃ fuel, w'.run fuel s' = some u') :
    ∃ fuel, w.run fuel s = some u ∧ w'.run fuel s' = some u' := by
  obtain ⟨n, hn⟩ := h
  obtain ⟨m, hm⟩ := h'
  exact ⟨max n m, run_mono (Nat.le_max_left n m) hn, run_mono (Nat.le_max_right n m) hm⟩

theorem exists_run_of_runs {w : Work} {s u : Scan} (h : Runs w s u) :
    ∃ fuel, w.run fuel s = some u := by
  obtain ⟨os, h⟩ := h
  induction h with
  | finish hrest => exact ⟨1, by simp only [Work.run, run, step_of_rest_eq_nil hrest]⟩
  | stop hrest ht hm hdepth =>
    refine ⟨1, ?_⟩
    simp only [Work.run, run, step_of_match?_eq_none hrest ht hm,
      pass_of_depthAfter_eq_none hdepth]
  | delimiter hrest ht _ ih =>
    obtain ⟨fuel, hfuel⟩ := ih
    refine ⟨fuel + 1, ?_⟩
    simp only [Work.run, run, step_of_isDelimiter hrest ht]
    exact hfuel
  | significant hrest ht hm hdepth _ ih =>
    obtain ⟨fuel, hfuel⟩ := ih
    refine ⟨fuel + 1, ?_⟩
    simp only [Work.run, run, step_of_match?_eq_none hrest ht hm,
      pass_of_depthAfter_eq_some hdepth]
    exact hfuel
  | occurrence hrest ht hm _ _ ihFollow ihNext =>
    obtain ⟨fuel, hfollow, hnext⟩ := Work.exists_run_both ihFollow ihNext
    refine ⟨fuel + 1, ?_⟩
    simp only [Work.run, run, step_of_match?_eq_some hrest ht hm]
    exact Option.bind_eq_some_iff.2 ⟨_, hfollow, hnext⟩
  | done => exact ⟨0, rfl⟩
  | followUp _ _ ihInner ihNext =>
    obtain ⟨fuel, hinner, hnext⟩ := Work.exists_run_both ihInner ihNext
    refine ⟨fuel, ?_⟩
    rw [Work.run, List.foldlM_cons]
    exact Option.bind_eq_some_iff.2 ⟨_, Option.map_eq_some_iff.2 ⟨_, hinner, rfl⟩, hnext⟩

/-- The follow-ups run when each of them does. -/
theorem runs_followUps {fuel : Nat}
    (hscan : ∀ {role : Role} {r : Rule} {s u : Scan}, run fuel role r s = some u →
      Runs (.scan role r) s u) :
    ∀ {rules : List Rule} {s u : Scan}, (Work.followUps rules).run fuel s = some u →
      Runs (.followUps rules) s u
  | [], s, u, h => by
    obtain rfl : s = u := Option.some.inj h
    exact ⟨_, .done⟩
  | followUp :: rules, s, u, h => by
    rw [Work.run, List.foldlM_cons] at h
    obtain ⟨s', hs', h⟩ := Option.bind_eq_some_iff.1 h
    obtain ⟨c, hc, rfl⟩ := Option.map_eq_some_iff.1 hs'
    obtain ⟨_, hinner⟩ := hscan hc
    obtain ⟨_, hnext⟩ := runs_followUps hscan h
    exact ⟨_, .followUp hinner hnext⟩

theorem runs_of_run {fuel : Nat} {role : Role} {r : Rule} {s u : Scan}
    (h : run fuel role r s = some u) : Runs (.scan role r) s u := by
  induction fuel generalizing role r s u with
  | zero => simp [run] at h
  | succ fuel ih =>
    rw [run] at h
    cases hrest : s.rest with
    | nil =>
      rw [step_of_rest_eq_nil hrest] at h
      rw [← Option.some.inj h]
      exact ⟨_, .finish hrest⟩
    | cons t ts =>
      cases ht : t.isDelimiter with
      | true =>
        rw [step_of_isDelimiter hrest ht] at h
        obtain ⟨_, hnext⟩ := ih h
        exact ⟨_, .delimiter hrest ht hnext⟩
      | false =>
        cases hm : r.pattern.match? s.bindings s.rest with
        | some result =>
          rw [step_of_match?_eq_some hrest ht hm] at h
          obtain ⟨s', hs', h⟩ := Option.bind_eq_some_iff.1 h
          obtain ⟨_, hfollow⟩ := runs_followUps ih hs'
          obtain ⟨_, hnext⟩ := ih h
          exact ⟨_, .occurrence hrest ht hm hfollow hnext⟩
        | none =>
          rw [step_of_match?_eq_none hrest ht hm] at h
          cases hdepth : depthAfter s.depth t.text with
          | none =>
            rw [pass_of_depthAfter_eq_none hdepth] at h
            rw [← Option.some.inj h]
            exact ⟨_, .stop hrest ht hm hdepth⟩
          | some depth =>
            rw [pass_of_depthAfter_eq_some hdepth] at h
            obtain ⟨_, hnext⟩ := ih h
            exact ⟨_, .significant hrest ht hm hdepth hnext⟩

/-- Follow-ups change what is not yet read and nothing else of the scan that they interrupt. -/
theorem Runs.eq_of_followUps : ∀ {rules : List Rule} {s u : Scan}, Runs (.followUps rules) s u →
    u = { s with rest := u.rest, position := u.position, events := u.events }
  | [], _, _, ⟨_, .done⟩ => rfl
  | _ :: _, _, _, ⟨_, .followUp _ next⟩ => (eq_of_followUps next.runs :)

/-- Follow-ups leave the bindings of the occurrence. -/
theorem Runs.bindings_of_followUps {rules : List Rule} {s u : Scan}
    (h : Runs (.followUps rules) s u) : u.bindings = s.bindings := by
  rw [h.eq_of_followUps]

/-- **Runs are the runs that come to an end.** -/
theorem runs_iff_exists_run {role : Role} {r : Rule} {s u : Scan} :
    Runs (.scan role r) s u ↔ ∃ fuel, run fuel role r s = some u :=
  ⟨exists_run_of_runs, fun ⟨_, h⟩ => runs_of_run h⟩

end Scan

/-- A rule applied to a list of tokens, without a bound on the steps. -/
theorem Rule.exists_apply_iff_runs {r : Rule} {b : Bindings} {ts : List Token} {s : Scan} :
    (∃ fuel, r.apply fuel b ts = some s) ↔ Scan.Runs (.scan .root r) (Scan.start b [] ts) s :=
  Scan.runs_iff_exists_run.symm

end TokenEdit
