import TokenEdit.Proofs.Captures
import TokenEdit.Proofs.Provenance
import TokenEdit.Proofs.Reachable
import TokenEdit.Proofs.TokenClass
import TokenEdit.Proofs.Trace

/-!
# The first occurrence fixes the bindings

A scan hands its bindings from one attempt to the next.  A failed attempt leaves them alone, and
follow-ups work on copies, so only the occurrences of the scan's own rule can change them, each
starting from what the one before it has left (`Scan.HandsOn`).

The first of these occurrences binds all names of the pattern.  For every later one all names are
bound already, so its captures are only checked: the bindings stay what they are, and every
template is expanded under the same ones.

* `Scan.HandsOn.eq_of_bound`: occurrences under bindings of all names leave them alone.
* `Scan.Traced.significant_eq`: captures that agree are the same tokens, where texts tell classes.
* `bindings_fixed_by_first_occurrence`: the whole statement, for an application of a rule.
-/

namespace TokenEdit

namespace Scan

/-! ## Bindings handed on -/

/-- Every occurrence is tried under the bindings that the one before it has left; `b` are those in
front of the first one, and `b'` those behind the last one. -/
def HandsOn : (b : Bindings) → List Occurrence → (b' : Bindings) → Prop
  | b, [], b' => b' = b
  | b, o :: os, b' => o.state.bindings = b ∧ HandsOn o.bindings os b'

/-- The occurrences of the root hand the bindings on, and nothing else changes them. -/
theorem Traced.handsOn {r : Rule} {s u : Scan} {os : List Occurrence}
    (h : Traced (.scan .root r) s os u) :
    HandsOn s.bindings (Occurrence.ofRoot os) u.bindings := by
  generalize hw : Work.scan .root r = w at h
  induction h with
  | finish | stop => rfl
  | delimiter _ _ _ ih | significant _ _ _ _ _ ih => exact ih hw
  | @occurrence role r' s u v os os' _ _ taken b _ _ _ follow _ _ ihNext =>
    obtain ⟨rfl, rfl⟩ := Work.scan.inj hw
    have hroot : Occurrence.ofRoot (⟨.root, r, s, taken, b⟩ :: (os ++ os')) =
        ⟨.root, r, s, taken, b⟩ :: Occurrence.ofRoot os' := by
      have hnil : os.filter (fun o => o.role = .root) = [] := follow.ofRoot_followUps
      simp [Occurrence.ofRoot, hnil]
    have hframe : u.bindings = b := by rw [follow.runs.eq_of_followUps]; rfl
    rw [hroot]
    exact ⟨rfl, hframe ▸ ihNext hw⟩
  | done | followUp => exact absurd hw (by simp)

/-- **Occurrences under bindings of all names leave the bindings alone.** -/
theorem HandsOn.eq_of_bound {p : Pattern} {b b' : Bindings} {os : List Occurrence}
    (hbound : ∀ x ∈ p.captureNames, (b.get? x).isSome)
    (hos : ∀ o ∈ os, p.match? o.state.bindings o.state.rest = some (o.taken, o.bindings))
    (h : HandsOn b os b') : b' = b ∧ ∀ o ∈ os, o.state.bindings = b ∧ o.bindings = b := by
  induction os with
  | nil => exact ⟨h, List.forall_mem_nil _⟩
  | cons o os ih =>
    obtain ⟨hstate, hbehind⟩ := h
    obtain ⟨ho, hos⟩ := List.forall_mem_cons.1 hos
    have heq : o.bindings = b := Pattern.eq_of_match? hbound (hstate ▸ ho)
    obtain ⟨hend, hall⟩ := ih hos (heq ▸ hbehind)
    exact ⟨hend, List.forall_mem_cons.2 ⟨⟨hstate, heq⟩, hall⟩⟩

/-- The occurrences of the root are occurrences of its rule. -/
theorem Traced.match?_of_mem_ofRoot {r : Rule} {s u : Scan} {os : List Occurrence}
    (h : Traced (.scan .root r) s os u) : ∀ o ∈ Occurrence.ofRoot os,
      o.rule = r ∧ r.pattern.match? o.state.bindings o.state.rest = some (o.taken, o.bindings) := by
  intro o ho
  obtain ⟨hmem, hrole⟩ := List.mem_filter.1 ho
  obtain ⟨-, rfl⟩ := Work.scan.inj (h.eq_of_root o hmem (of_decide_eq_true hrole))
  exact ⟨rfl, h.match?_eq o hmem⟩

/-- The bindings at the end are those behind every occurrence of the root, and those in front of
every one but the first. -/
theorem Traced.bindings_eq {r : Rule} {s u : Scan} {os later : List Occurrence}
    {first : Occurrence} (h : Traced (.scan .root r) s os u)
    (hroot : Occurrence.ofRoot os = first :: later) :
    first.state.bindings = s.bindings ∧ (∀ o ∈ first :: later, o.bindings = u.bindings) ∧
      ∀ o ∈ later, o.state.bindings = u.bindings := by
  have hmatch := h.match?_of_mem_ofRoot
  have hhands := h.handsOn
  rw [hroot] at hmatch hhands
  obtain ⟨⟨-, hfirst⟩, hlater⟩ := List.forall_mem_cons.1 hmatch
  have hbound := Pattern.isSome_get?_of_match? hfirst
  obtain ⟨hend, hall⟩ := hhands.2.eq_of_bound hbound fun o ho => (hlater o ho).2
  rw [hend]
  exact ⟨hhands.1, List.forall_mem_cons.2 ⟨rfl, fun o ho => (hall o ho).2⟩,
    fun o ho => (hall o ho).1⟩

/-! ## The tokens that occurrences see -/

/-- Captures that agree with what their names stand for are the same tokens up to layout, where
the texts of all tokens tell the classes. -/
theorem Traced.significant_eq {w : Work} {s u : Scan} {os : List Occurrence}
    (h : Traced w s os u)
    (hw : w.Everywhere fun r => ∀ t ∈ r.template.tokens, t.Classified)
    (hs : s.All Token.Classified) {o : Occurrence} (ho : o ∈ os) {span bound : List Token}
    (hspan : span ⊆ o.state.rest) {name : List Char} (hbound : o.bindings.get? name = some bound)
    (hsame : Token.sameSignificant bound span = true) :
    Token.significant span = Token.significant bound := by
  obtain ⟨hstate, hbindings⟩ := (h.all Token.classified_spaces hw hs).2 o ho
  exact (Token.significant_eq_of_sameSignificant (hbindings.get? hbound)
    (fun t ht => hstate.rest t (hspan ht)) hsame).symm

end Scan

/-- **The first occurrence fixes the bindings for the whole scan.**

Let the application of a rule come to an end, whatever its follow-ups, the bindings at the start
and the tokens.  It finds occurrences, and as many of the rule itself as are counted.

* If the rule itself does not occur, the bindings at the end are those at the start.
* Otherwise they are those right behind its first occurrence.  That occurrence is tried under the
  bindings at the start; it keeps what is bound there, and it enters in the journal the names of
  the pattern that are not bound, in the order of their first appearance.
* Every occurrence of the rule captures under each name tokens that agree, up to layout, with what
  the name stands for at the end, and writes the template expanded under the bindings at the end,
  with its own column as the only difference.  Where all tokens are cut from texts, the captured
  tokens are the same, class and text, as those that the name stands for.
* Every later occurrence is tried under the bindings at the end and leaves them as they are.

And follow-ups, which run behind an occurrence, hand no binding back. -/
theorem bindings_fixed_by_first_occurrence {r : Rule} {b : Bindings} {ts : List Token} {fuel : Nat}
    {s : Scan} (h : r.apply fuel b ts = some s) :
    (∃ os, Scan.Traced (.scan .root r) (Scan.start b [] ts) os s ∧
      (Occurrence.ofRoot os).length = s.matchCount .root ∧
      (Occurrence.ofRoot os = [] → s.bindings = b) ∧
      ∀ first later, Occurrence.ofRoot os = first :: later →
        r.pattern.attempt b first.state.rest = (some first.taken, s.bindings) ∧
        (∀ x bound, b.get? x = some bound → s.bindings.get? x = some bound) ∧
        s.bindings.journal =
          b.journal ++ r.pattern.captureNames.filter (fun x => (b.get? x).isNone) ∧
        (∀ o ∈ first :: later,
          o.next.written =
            (r.template.expand s.bindings o.state.column).reverse ++ o.state.written ∧
          ∃ captures, r.pattern.read? o.state.rest = some (o.taken, captures) ∧
            (∀ x, x ∈ r.pattern.captureNames ↔ ∃ c ∈ captures, c.name = x) ∧
            ∀ c ∈ captures, ∃ bound, s.bindings.get? c.name = some bound ∧
              Token.significantTexts c.span = Token.significantTexts bound ∧
              ((∀ t ∈ ts, t.Lexed) → b.All Token.Lexed →
                r.Everywhere (fun g => ∀ t ∈ g.template.tokens, t.Lexed) →
                  Token.significant c.span = Token.significant bound)) ∧
        ∀ o ∈ later, o.state.bindings = s.bindings ∧
          r.pattern.attempt s.bindings o.state.rest = (some o.taken, s.bindings)) ∧
    ∀ {fuel' : Nat} {u v : Scan},
      (Scan.Work.followUps r.followUps).run fuel' u = some v → v.bindings = u.bindings := by
  refine ⟨?_, fun hrun => ?_⟩
  · obtain ⟨os, hos⟩ := Scan.runs_of_run h
    refine ⟨os, hos, ?_, fun hnone => ?_, fun first later hroot => ?_⟩
    · rw [hos.matchCount .root, Occurrence.ofRoot, List.countP_eq_length_filter]
      exact (Nat.zero_add _).symm
    · have hhands := hos.handsOn
      rw [hnone] at hhands
      exact hhands
    · obtain ⟨hstart, hbehind, hfront⟩ := hos.bindings_eq hroot
      have hmatch := hos.match?_of_mem_ofRoot
      rw [hroot] at hmatch
      have hfirst : r.pattern.match? b first.state.rest = some (first.taken, s.bindings) := by
        have hm := (hmatch first List.mem_cons_self).2
        rwa [hstart, hbehind first List.mem_cons_self] at hm
      refine ⟨Pattern.attempt_of_match?_eq_some hfirst,
        fun x bound hx => (Pattern.extends_of_match? hfirst).get? hx,
        Pattern.journal_of_match? hfirst, fun o ho => ⟨?_, ?_⟩, fun o ho => ⟨hfront o ho, ?_⟩⟩
      · rw [← hbehind o ho, ← (hmatch o ho).1]
        rfl
      · obtain ⟨captures, hread, hagrees⟩ := Pattern.exists_read?_of_match? (hmatch o ho).2
        refine ⟨captures, hread, fun x => Pattern.mem_captureNames_of_read? hread, fun c hc => ?_⟩
        obtain ⟨bound, hbound, hsame⟩ := hagrees c hc
        refine ⟨bound, hbehind o ho ▸ hbound, (Token.sameSignificant_iff.1 hsame).symm,
          fun hts hb hr => ?_⟩
        have hclassified : (Scan.start b [] ts).All Token.Classified :=
          Scan.all_start (fun entry hentry t ht => (hb entry hentry t ht).classified)
            (fun t ht => (hts t ht).classified) []
        have hmem : o ∈ os := List.mem_of_mem_filter (hroot ▸ ho : o ∈ Occurrence.ofRoot os)
        exact hos.significant_eq (hr.imp fun g hg t ht => (hg t ht).classified) hclassified hmem
          (Pattern.span_subset_of_read? hread c hc) hbound hsame
      · have hm := (hmatch o (List.mem_cons_of_mem first ho)).2
        rw [hfront o ho, hbehind o (List.mem_cons_of_mem first ho)] at hm
        exact Pattern.attempt_of_match?_eq_some hm
  · rw [(Scan.runs_followUps Scan.runs_of_run hrun).eq_of_followUps]

/-- Calls of `f` are renamed, and calls of `h` behind them.  The first call of `f` binds `x`, the
second one agrees with it up to blanks, the third one does not; what the follow-up binds is gone
at the end. -/
theorem bindings_fixed_by_first_call :
    let word (c : Char) : Token := ⟨.identifier, [c]⟩
    let call (f x : Char) : Pattern := ⟨[.literal (word f), .literal ⟨.bracket, ['(']⟩, .ident [x],
      .literal ⟨.bracket, [')']⟩], List.cons_ne_nil _ _⟩
    let followUp : Rule := ⟨call 'h' 'y', .ofText "k(y)".toList, [], 0⟩
    let r : Rule := ⟨call 'f' 'x', .ofText "g(x)".toList, [followUp], 0⟩
    let source := tokenize "f(a) h(b) f( a ) f(c)".toList
    ∃ s, r.apply 40 .empty source = some s ∧
      Token.render s.tokens = "g(a) k(b) g(a) f(c)".toList ∧ s.matchCount .followUp = 1 ∧
      s.bindings = Bindings.empty.insert ['x'] [word 'a'] ∧
      ∃ os first second, Scan.Traced (.scan .root r) (Scan.start .empty [] source) os s ∧
        Occurrence.ofRoot os = [first, second] ∧
        r.pattern.attempt .empty first.state.rest = (some first.taken, s.bindings) ∧
        r.pattern.attempt s.bindings second.state.rest = (some second.taken, s.bindings) := by
  intro word call followUp r source
  obtain ⟨s, hs, heq⟩ : ∃ s, r.apply 40 .empty source = some s ∧
      (Token.render s.tokens, s.matchCount .root, s.matchCount .followUp, s.bindings) =
        ("g(a) k(b) g(a) f(c)".toList, 2, 1, Bindings.empty.insert ['x'] [word 'a']) := by
    refine Option.map_eq_some_iff.1 (?_ : Option.map _ _ = some _)
    decide +kernel
  simp only [Prod.mk.injEq] at heq
  obtain ⟨htext, hroot, hfollowUp, hbindings⟩ := heq
  obtain ⟨⟨os, hos, hlength, -, hall⟩, -⟩ := bindings_fixed_by_first_occurrence hs
  obtain ⟨first, second, hboth⟩ := List.length_eq_two.1 (hlength.trans hroot)
  obtain ⟨hfirst, -, -, -, hlater⟩ := hall first [second] hboth
  exact ⟨s, hs, htext, hfollowUp, hbindings, os, first, second, hos, hboth, hfirst,
    (hlater second List.mem_cons_self).2⟩

end TokenEdit
