import TokenEdit.Proofs.Captures
import TokenEdit.Proofs.Reachable

/-!
# Bindings as a filter

Captures are checked one by one while a pattern is matched: against what was bound before the
attempt, or against an earlier capture of the same attempt.  The order of these checks means
nothing.  Having the same significant texts is an equivalence, and a name keeps the tokens of its
first capture, so all checks together are two conditions on the captures as a whole.  Those under
one name agree with each other, and each agrees with what its name stands for at the start.

Only the second condition is about the bindings.  An occurrence under some bindings is therefore
one under no bindings, with as many tokens, that the bindings let pass.

* `Bindings.exists_bindAll?_iff`: the two conditions.
* `Bindings.get?_eq_of_bindAll?`: what a name stands for afterwards.
* `Bindings.bindAll?_empty_eq_some_iff`: the bindings made from nothing.
* `Pattern.bindings_filter_occurrences`: bindings decide whether a pattern occurs, and never how
  far an occurrence reaches.
-/

namespace TokenEdit

open Token (significantTexts)

/-! ## Captures under one name -/

namespace Capture

/-- The span of the first capture under a name. -/
def first? (captures : List Capture) (name : List Char) : Option (List Token) :=
  (captures.find? fun c => c.name = name).map span

/-- Captures under one name have the same significant texts. -/
def Agree (captures : List Capture) : Prop :=
  ∀ c ∈ captures, ∀ c' ∈ captures, c.name = c'.name →
    significantTexts c.span = significantTexts c'.span

theorem first?_cons_of_eq {c : Capture} {name : List Char} (h : c.name = name)
    (captures : List Capture) : first? (c :: captures) name = some c.span := by
  rw [first?, List.find?_cons_of_pos (by simp [h]), Option.map_some]

theorem first?_cons_of_ne {c : Capture} {name : List Char} (h : c.name ≠ name)
    (captures : List Capture) : first? (c :: captures) name = first? captures name := by
  rw [first?, List.find?_cons_of_neg (by simp [h]), first?]

/-- The first capture is a capture. -/
theorem exists_mem_of_first? {captures : List Capture} {name : List Char} {span : List Token}
    (h : first? captures name = some span) : ∃ c ∈ captures, c.name = name ∧ c.span = span := by
  obtain ⟨c, hc, hspan⟩ := Option.map_eq_some_iff.1 h
  exact ⟨c, List.mem_of_find?_eq_some hc, of_decide_eq_true (List.find?_some hc :), hspan⟩

/-- Where there is a capture, there is a first one. -/
theorem exists_first?_of_mem {captures : List Capture} {c : Capture} (hc : c ∈ captures) :
    ∃ span, first? captures c.name = some span := by
  cases hfind : captures.find? fun c' => c'.name = c.name with
  | none => exact absurd (List.find?_eq_none.1 hfind c hc) (by simp)
  | some c' => exact ⟨c'.span, by rw [first?, hfind, Option.map_some]⟩

end Capture

namespace Bindings

/-- Captures agree with what their names stand for. -/
def Admits (b : Bindings) (captures : List Capture) : Prop :=
  ∀ c ∈ captures, ∀ bound, b.get? c.name = some bound →
    significantTexts bound = significantTexts c.span

theorem admits_empty (captures : List Capture) : empty.Admits captures := by
  intro c _ bound hbound
  exact absurd hbound (by simp)

/-- **All checks together**: captures can be bound, one after the other, if they agree with what is
bound and with each other. -/
theorem exists_bindAll?_iff {b : Bindings} {captures : List Capture} :
    (∃ b', b.bindAll? captures = some b') ↔ b.Admits captures ∧ Capture.Agree captures := by
  constructor
  · rintro ⟨b', h⟩
    -- all captures agree with what their names stand for at the end
    have hend : ∀ c ∈ captures, ∃ bound, b'.get? c.name = some bound ∧
        significantTexts bound = significantTexts c.span := by
      intro c hc
      obtain ⟨bound, hbound, hsame⟩ := agrees_of_bindAll? h hc
      exact ⟨bound, hbound, Token.sameSignificant_iff.1 hsame⟩
    refine ⟨fun c hc bound hbound => ?_, fun c hc c' hc' hname => ?_⟩
    · obtain ⟨bound', hbound', htexts⟩ := hend c hc
      rw [(extends_of_bindAll? h).get? hbound] at hbound'
      rw [Option.some.inj hbound', htexts]
    · obtain ⟨bound, hbound, htexts⟩ := hend c hc
      obtain ⟨bound', hbound', htexts'⟩ := hend c' hc'
      rw [hname, hbound'] at hbound
      rw [← htexts, ← htexts', Option.some.inj hbound]
  · rintro ⟨hadmits, hagree⟩
    induction captures generalizing b with
    | nil => exact ⟨b, rfl⟩
    | cons c captures ih =>
      obtain ⟨hc, hcaptures⟩ := List.forall_mem_cons.1 hadmits
      have hrest : Capture.Agree captures := fun c₁ hc₁ c₂ hc₂ =>
        hagree c₁ (List.mem_cons_of_mem c hc₁) c₂ (List.mem_cons_of_mem c hc₂)
      cases hget : b.get? c.name with
      | none =>
        -- from now on the name stands for `c`, which the captures behind it agree with
        have hadmits' : (b.insert c.name c.span).Admits captures := by
          intro c' hc' bound hbound
          rw [get?_insert] at hbound
          split at hbound
          next hname =>
            rw [← Option.some.inj hbound]
            exact hagree c List.mem_cons_self c' (List.mem_cons_of_mem c hc') hname.symm
          · exact hcaptures c' hc' bound hbound
        obtain ⟨b', hb'⟩ := ih hadmits' hrest
        exact ⟨b', bindAll?_cons_eq_some_iff.2 ⟨_, bind?_of_get?_eq_none hget _, hb'⟩⟩
      | some bound =>
        obtain ⟨b', hb'⟩ := ih hcaptures hrest
        have hsame := Token.sameSignificant_iff.2 (hc bound hget)
        exact ⟨b', bindAll?_cons_eq_some_iff.2
          ⟨b, bind?_eq_some_iff.2 (.inr ⟨bound, hget, hsame, rfl⟩), hb'⟩⟩

/-- **A name stands for what it stood for, or for its first capture.** -/
theorem get?_eq_of_bindAll? {b b' : Bindings} {captures : List Capture}
    (h : b.bindAll? captures = some b') (x : List Char) :
    b'.get? x = (b.get? x).or (Capture.first? captures x) := by
  induction captures generalizing b with
  | nil =>
    obtain rfl : b = b' := Option.some.inj h
    exact (Option.or_none).symm
  | cons c captures ih =>
    obtain ⟨b₁, hfirst, hmore⟩ := bindAll?_cons_eq_some_iff.1 h
    rw [ih hmore]
    by_cases hname : c.name = x
    · subst hname
      rw [Capture.first?_cons_of_eq rfl]
      rcases bind?_eq_some_iff.1 hfirst with ⟨hnone, rfl⟩ | ⟨bound, hbound, -, rfl⟩
      · rw [get?_insert, if_pos rfl, hnone, Option.some_or, Option.none_or]
      · rw [hbound, Option.some_or, Option.some_or]
    · rw [Capture.first?_cons_of_ne hname]
      rcases bind?_eq_some_iff.1 hfirst with ⟨-, rfl⟩ | ⟨_, -, -, rfl⟩
      · rw [get?_insert, if_neg (Ne.symm hname)]
      · rfl

/-- Captures that agree with each other are admitted if what is bound agrees with the first capture
under each name. -/
theorem admits_iff {b : Bindings} {captures : List Capture} (hagree : Capture.Agree captures) :
    b.Admits captures ↔ ∀ x bound span, b.get? x = some bound →
      Capture.first? captures x = some span → significantTexts bound = significantTexts span := by
  constructor
  · intro h x bound span hbound hspan
    obtain ⟨c, hc, rfl, rfl⟩ := Capture.exists_mem_of_first? hspan
    exact h c hc bound hbound
  · intro h c hc bound hbound
    obtain ⟨span, hspan⟩ := Capture.exists_first?_of_mem hc
    obtain ⟨c', hc', hname, rfl⟩ := Capture.exists_mem_of_first? hspan
    rw [h c.name bound c'.span hbound hspan, hagree c' hc' c hc hname]

/-! ## Bindings made from nothing -/

/-- Bindings made from nothing hold no more than their journal and what the names in it stand
for. -/
theorem Extends.entries_eq {b : Bindings} (h : empty.Extends b) :
    b.entries = (b.journal.map fun x => (x, (b.get? x).getD [])).reverse := by
  induction h with
  | refl => rfl
  | @insert b' name h hnone span ih =>
    have hconsistent : b'.Consistent := consistent_empty.of_extends h
    -- no name entered before is `name`
    have hmap : (b'.journal.map fun x => (x, ((b'.insert name span).get? x).getD [])) =
        b'.journal.map fun x => (x, (b'.get? x).getD []) := by
      refine List.map_congr_left fun x hx => ?_
      have hne : x ≠ name := by
        rintro rfl
        rw [hconsistent.mem_journal_iff, hnone] at hx
        exact absurd hx (by simp)
      rw [get?_insert, if_neg hne]
    have hname : (b'.insert name span).get? name = some span := by
      rw [get?_insert, if_pos rfl]
    show (name, span) :: b'.entries = ((b'.journal ++ [name]).map _).reverse
    rw [List.map_append, hmap, List.map_singleton, hname, Option.getD_some, List.reverse_append,
      List.reverse_singleton, List.singleton_append, ← ih]

/-- The bindings in which every name stands for its first capture; the names are entered in the
order of their first appearance. -/
def ofFirst (captures : List Capture) : Bindings where
  entries := ((captures.map Capture.name).eraseDups.map fun x =>
    (x, (Capture.first? captures x).getD [])).reverse
  journal := (captures.map Capture.name).eraseDups

/-- **The bindings made from nothing** by captures that agree. -/
theorem bindAll?_empty_eq_some_iff {captures : List Capture} {b : Bindings} :
    empty.bindAll? captures = some b ↔ Capture.Agree captures ∧ b = ofFirst captures := by
  have heq : ∀ {b}, empty.bindAll? captures = some b → b = ofFirst captures := by
    intro b h
    have hjournal : b.journal = (captures.map Capture.name).eraseDups := by
      rw [journal_of_bindAll? h]
      exact List.filter_eq_self.2 fun x _ => rfl
    have hget : b.get? = Capture.first? captures := by
      funext x
      rw [get?_eq_of_bindAll? h, get?_empty, Option.none_or]
    have hentries : b.entries = (ofFirst captures).entries := by
      rw [(extends_of_bindAll? h).entries_eq, hjournal, hget]
      rfl
    exact (Bindings.mk.injEq ..).mpr ⟨hentries, hjournal⟩
  constructor
  · intro h
    exact ⟨(exists_bindAll?_iff.1 ⟨b, h⟩).2, heq h⟩
  · rintro ⟨hagree, rfl⟩
    obtain ⟨b, hb⟩ := exists_bindAll?_iff.2 ⟨admits_empty captures, hagree⟩
    rw [hb, heq hb]

end Bindings

/-! ## Occurrences -/

namespace Pattern

/-- An occurrence is a reading whose captures agree with what is bound and with each other. -/
theorem attempt_fst_eq_some_iff {b : Bindings} {p : Pattern} {ts : List Token} {n : Nat} :
    (p.attempt b ts).1 = some n ↔ ∃ captures, p.read? ts = some (n, captures) ∧
      b.Admits captures ∧ Capture.Agree captures := by
  have hmatch : (p.attempt b ts).1 = some n ↔ ∃ b', p.match? b ts = some (n, b') := by
    constructor
    · intro h
      exact ⟨_, attempt_eq_some_iff.1 (Prod.ext h rfl)⟩
    · rintro ⟨b', h⟩
      rw [attempt_of_match?_eq_some h]
  rw [hmatch]
  constructor
  · rintro ⟨b', h⟩
    obtain ⟨captures, hread, hbind⟩ := match?_eq_some_iff.1 h
    exact ⟨captures, hread, Bindings.exists_bindAll?_iff.1 ⟨b', hbind⟩⟩
  · rintro ⟨captures, hread, hcaptures⟩
    obtain ⟨b', hbind⟩ := Bindings.exists_bindAll?_iff.2 hcaptures
    exact ⟨b', match?_eq_some_iff.2 ⟨captures, hread, hbind⟩⟩

/-- **Bindings only filter occurrences.**  A pattern occurs under bindings `b` and takes `n` tokens
if and only if it does so under no bindings, and every name bound both in `b` and by that occurrence
stands in the two for tokens with the same significant texts.

So occurrences at the same place under different bindings take equally many tokens, and an
occurrence under some bindings is one under any part of them.  Nothing is asked of the bindings:
all of this holds of those that can be reached and of all others. -/
theorem bindings_filter_occurrences (p : Pattern) (ts : List Token) :
    (∀ (b : Bindings) (n : Nat), (p.attempt b ts).1 = some n ↔
      ∃ b₀, p.attempt .empty ts = (some n, b₀) ∧ ∀ x bound bound₀, b.get? x = some bound →
        b₀.get? x = some bound₀ → significantTexts bound = significantTexts bound₀) ∧
    (∀ (b b' : Bindings) (n n' : Nat), (p.attempt b ts).1 = some n →
      (p.attempt b' ts).1 = some n' → n = n') ∧
    ∀ (b b' : Bindings) (n : Nat), (p.attempt b ts).1 = some n →
      (∀ x bound, b'.get? x = some bound → b.get? x = some bound) →
        (p.attempt b' ts).1 = some n := by
  refine ⟨fun b n => ?_, fun b b' n n' h h' => ?_, fun b b' n h hpart => ?_⟩
  · rw [attempt_fst_eq_some_iff]
    constructor
    · rintro ⟨captures, hread, hadmits, hagree⟩
      obtain ⟨b₀, hb₀⟩ := Bindings.exists_bindAll?_iff.2 ⟨Bindings.admits_empty captures, hagree⟩
      refine ⟨b₀, attempt_of_match?_eq_some (match?_eq_some_iff.2 ⟨captures, hread, hb₀⟩), ?_⟩
      intro x bound bound₀ hbound hbound₀
      rw [Bindings.get?_eq_of_bindAll? hb₀, Bindings.get?_empty, Option.none_or] at hbound₀
      exact (Bindings.admits_iff hagree).1 hadmits x bound bound₀ hbound hbound₀
    · rintro ⟨b₀, hattempt, hsame⟩
      obtain ⟨captures, hread, hb₀⟩ := match?_eq_some_iff.1 (attempt_eq_some_iff.1 hattempt)
      have hagree := (Bindings.exists_bindAll?_iff.1 ⟨b₀, hb₀⟩).2
      refine ⟨captures, hread, (Bindings.admits_iff hagree).2 fun x bound span hbound hspan => ?_,
        hagree⟩
      refine hsame x bound span hbound ?_
      rw [Bindings.get?_eq_of_bindAll? hb₀, Bindings.get?_empty, Option.none_or, hspan]
  · obtain ⟨captures, hread, -⟩ := attempt_fst_eq_some_iff.1 h
    obtain ⟨captures', hread', -⟩ := attempt_fst_eq_some_iff.1 h'
    rw [hread] at hread'
    exact (Prod.mk.inj (Option.some.inj hread')).1
  · obtain ⟨captures, hread, hadmits, hagree⟩ := attempt_fst_eq_some_iff.1 h
    exact attempt_fst_eq_some_iff.2 ⟨captures, hread,
      fun c hc bound hbound => hadmits c hc bound (hpart c.name bound hbound), hagree⟩

/-- A call with the same expression twice, up to blanks.  It is found under bindings that agree with
the expression, whatever else they bind, and under a part of them; it is not found under bindings
that do not agree. -/
theorem call_filtered_by_bindings :
    let other (c : Char) : Token := ⟨.other, [c]⟩
    let bracket (c : Char) : Token := ⟨.bracket, [c]⟩
    let p : Pattern := ⟨[.literal ⟨.identifier, ['f']⟩, .literal (bracket '('),
      .expr ['e'] (other ','), .expr ['e'] (bracket ')')], List.cons_ne_nil _ _⟩
    let ts := tokenize "f(a + 1, a+1) f".toList
    let b₀ := Bindings.empty.insert ['e'] (tokenize "a + 1".toList)
    let b := (Bindings.empty.insert ['e'] (tokenize "a +1".toList)).insert ['y'] [other '!']
    p.attempt .empty ts = (some 13, b₀) ∧ (p.attempt b ts).1 = some 13 ∧
      (p.attempt (Bindings.empty.insert ['y'] [other '!']) ts).1 = some 13 ∧
      (p.attempt (Bindings.empty.insert ['e'] [other '!']) ts).1 = none := by
  intro other bracket p ts b₀ b
  obtain ⟨hfilter, -, hpart⟩ := bindings_filter_occurrences p ts
  have hempty : p.attempt .empty ts = (some 13, b₀) := by decide +kernel
  have hb₀ : ∀ {x bound}, b₀.get? x = some bound → x = ['e'] ∧ bound = tokenize "a + 1".toList := by
    intro x bound h
    rw [Bindings.get?_insert] at h
    split at h
    next hx => exact ⟨hx, (Option.some.inj h).symm⟩
    · exact absurd h (by simp)
  have hb : (p.attempt b ts).1 = some 13 := by
    refine (hfilter b 13).2 ⟨b₀, hempty, fun x bound bound₀ hbound hbound₀ => ?_⟩
    obtain ⟨rfl, rfl⟩ := hb₀ hbound₀
    have hget : b.get? ['e'] = some (tokenize "a +1".toList) := by decide +kernel
    rw [hget] at hbound
    rw [← Option.some.inj hbound]
    decide +kernel
  refine ⟨hempty, hb, hpart b _ 13 hb fun x bound hbound => ?_, ?_⟩
  · rw [Bindings.get?_insert] at hbound ⊢
    split at hbound
    next hx => rw [if_pos hx, hbound]
    · exact absurd hbound (by simp)
  · refine Option.eq_none_iff_forall_ne_some.2 fun n hn => ?_
    obtain ⟨b₁, hb₁, hsame⟩ := (hfilter _ n).1 hn
    rw [hempty] at hb₁
    obtain ⟨-, rfl⟩ := Prod.mk.inj hb₁
    exact absurd (hsame ['e'] [other '!'] (tokenize "a + 1".toList) rfl rfl) (by decide +kernel)

end Pattern

end TokenEdit
