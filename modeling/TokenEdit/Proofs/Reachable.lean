import Mathlib.Data.List.Nodup
import TokenEdit.Proofs.Runs

/-!
# The bindings that can be reached

Bindings are kept twice, and only the operations keep the two in step: the table says what a name
stands for, the journal says which names to forget when captures are taken back.  Here it is shown
that the two agree in all bindings that the operations can produce, and that an attempt at a
pattern is all or nothing on them.

Every operation does the same thing to bindings: it binds names that were not bound.  This holds
of a capture, of an attempt, whether it fails or not, and of a whole application of a rule, whose
follow-ups work on copies that are thrown away (`Scan.Runs.extends`).  So bindings that can be
reached are bindings that extend the empty ones, and what has to be shown is shown once, for
binding one new name.

* `Bindings.Reachable`: what the operations produce.
* `Bindings.Consistent`: the journal and the table agree.
* `Bindings.journal_exact_and_failed_attempt_atomic`: both statements together.
-/

namespace TokenEdit

/-! ## Operations extend -/

theorem Bindings.extends_capture (b : Bindings) (name : List Char) (span : List Token) :
    b.Extends (b.capture name span).2 := by
  unfold capture
  split
  next h => exact .of_bind? h
  · exact .refl

theorem Pattern.extends_of_match? {b b' : Bindings} {p : Pattern} {ts : List Token} {taken : Nat}
    (h : p.match? b ts = some (taken, b')) : b.Extends b' := by
  have hext := Item.extends_matchAll b p.items ts
  rw [match?, Item.matchAll?_eq] at h
  obtain ⟨_, _, heq⟩ := Option.map_eq_some_iff.1 h
  rwa [(Prod.mk.inj heq).2] at hext

theorem Pattern.extends_attempt (b : Bindings) (p : Pattern) (ts : List Token) :
    b.Extends (p.attempt b ts).2 := by
  cases hm : p.match? b ts with
  | none =>
    rw [attempt_of_match?_eq_none hm]
    exact .refl
  | some result =>
    rw [attempt_of_match?_eq_some hm]
    exact extends_of_match? hm

/-- A run only binds new names, and follow-ups bind none. -/
theorem Scan.Runs.extends {w : Work} {s u : Scan} (h : Runs w s u) :
    s.bindings.Extends u.bindings := by
  obtain ⟨os, h⟩ := h
  induction h with
  | finish | stop | done => exact .refl
  | delimiter _ _ _ ih | significant _ _ _ _ _ ih => exact ih
  | occurrence _ _ hm _ _ ihFollow ihNext =>
    exact (Pattern.extends_of_match? hm).trans (ihFollow.trans ihNext)
  | followUp _ _ _ ihNext => exact ihNext

/-! ## The journal and the table -/

namespace Bindings

/-- The journal and the table agree. -/
structure Consistent (b : Bindings) : Prop where
  /-- No name is entered twice. -/
  nodup : b.journal.Nodup
  /-- The names entered are the names bound. -/
  mem_journal_iff : ∀ x, x ∈ b.journal ↔ (b.get? x).isSome

theorem consistent_empty : empty.Consistent where
  nodup := List.nodup_nil
  mem_journal_iff x := by simp [empty, get?]

/-- Binding a new name keeps the journal and the table in step. -/
theorem Consistent.insert {b : Bindings} (h : b.Consistent) {name : List Char}
    (hnone : b.get? name = none) (span : List Token) : (b.insert name span).Consistent where
  nodup := by
    have hnew : name ∉ b.journal := by
      rw [h.mem_journal_iff, hnone]
      simp
    refine List.nodup_append.2 ⟨h.nodup, List.nodup_singleton name, ?_⟩
    intro x hx y hy
    rw [List.mem_singleton.1 hy]
    rintro rfl
    exact hnew hx
  mem_journal_iff x := by
    rw [get?_insert, Bindings.insert, List.mem_append, h.mem_journal_iff, List.mem_singleton]
    by_cases hx : x = name <;> simp [hx]

theorem Consistent.of_extends {b b' : Bindings} (h : b.Consistent) (hext : b.Extends b') :
    b'.Consistent := by
  induction hext with
  | refl => exact h
  | insert _ hnone span ih => exact ih.insert hnone span

/-! ## Reaching bindings -/

/-- The bindings that the operations produce.  A copy of bindings is the bindings themselves, so
copying is not among the operations. -/
inductive Reachable : Bindings → Prop
  | empty : Reachable empty
  | capture {b : Bindings} (h : Reachable b) (name : List Char) (span : List Token) :
      Reachable (b.capture name span).2
  | attempt {b : Bindings} (h : Reachable b) (p : Pattern) (ts : List Token) :
      Reachable (p.attempt b ts).2
  | apply {b : Bindings} (h : Reachable b) {fuel : Nat} {r : Rule} {ts : List Token} {s : Scan}
      (hs : r.apply fuel b ts = some s) : Reachable s.bindings

theorem Reachable.extends_empty {b : Bindings} (h : b.Reachable) : Bindings.empty.Extends b := by
  induction h with
  | empty => exact .refl
  | capture _ name span ih => exact ih.trans (extends_capture _ name span)
  | attempt _ p ts ih => exact ih.trans (Pattern.extends_attempt _ p ts)
  | apply _ hs ih => exact ih.trans (Scan.runs_of_run hs).extends

theorem Reachable.consistent {b : Bindings} (h : b.Reachable) : b.Consistent :=
  consistent_empty.of_extends h.extends_empty

/-- **Failed attempts are atomic.**  In all bindings that can be reached the journal has no name
twice and lists exactly the names bound; and an attempt that fails leaves these very bindings, the
table and the journal alike, at whichever item it has failed. -/
theorem journal_exact_and_failed_attempt_atomic {b : Bindings} (h : b.Reachable) :
    b.journal.Nodup ∧ (∀ x, x ∈ b.journal ↔ (b.get? x).isSome) ∧
      ∀ (p : Pattern) (ts : List Token), (p.attempt b ts).1 = none → (p.attempt b ts).2 = b := by
  refine ⟨h.consistent.nodup, h.consistent.mem_journal_iff, fun p ts hfail => ?_⟩
  rw [Pattern.attempt_of_match?_eq_none (Pattern.attempt_fst_eq_none_iff.1 hfail)]

/-- An attempt that has bound `x` and checked `a` when it fails at its third item. -/
theorem failed_attempt_at_third_item :
    let word (c : Char) : Token := ⟨.identifier, [c]⟩
    let b := (empty.capture ['a'] [word 'v']).2
    let p : Pattern := ⟨[.ident ['x'], .ident ['a'], .literal (word 'w')], List.cons_ne_nil _ _⟩
    let ts := [word 'u', word 'v', word 'v']
    (Item.matchAll b p.items ts).2.journal = [['a'], ['x']] ∧ b.journal = [['a']] ∧
      (p.attempt b ts).2 = b := by
  intro word b p ts
  exact ⟨by decide, by decide,
    (journal_exact_and_failed_attempt_atomic (.capture .empty _ _)).2.2 p ts (by decide)⟩

end Bindings

end TokenEdit
