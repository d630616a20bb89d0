import TokenEdit.Pattern.Match

/-!
# Taking captures back

An attempt at a pattern binds names while it goes on.  When an item does not occur, the attempt
goes back to the place in the journal where it began and forgets the names entered since.

This is exact, and nothing has to be assumed of the bindings at the start.  A name is entered in
the journal only when it is bound, and it is bound only when the table has nothing under it.  So
the names behind the remembered place are names that the table did not have there, and a name that
the attempt has only checked is not among them: forgetting them leaves the entries of the start.

* `Bindings.Extends`: bindings that came from others by binding new names.
* `Bindings.rollback_of_extends`: going back from them.
* `Pattern.match?`: an occurrence, with the captures handed from item to item.
* `Pattern.attempt_eq_some_iff`, `Pattern.attempt_of_match?_eq_none`: an attempt either is such an
  occurrence or changes nothing.
-/

namespace TokenEdit

/-! ## Forgetting names -/

namespace Bindings

/-- Forgetting names one after the other keeps the entries of all other names. -/
theorem foldl_forget (names : List (List Char)) (entries : List (List Char × List Token)) :
    names.foldl forget entries = entries.filter fun entry => decide (entry.1 ∉ names) := by
  induction names generalizing entries with
  | nil => exact (List.filter_eq_self.2 fun _ _ => by simp).symm
  | cons name names ih =>
    rw [List.foldl_cons, ih, forget, List.filter_filter]
    refine List.filter_congr fun entry _ => ?_
    by_cases h : entry.1 = name <;> simp [h]

/-- Forgetting a name that is not bound changes nothing. -/
theorem forget_of_get?_eq_none {b : Bindings} {name : List Char} (h : b.get? name = none) :
    forget b.entries name = b.entries := by
  refine List.filter_eq_self.2 fun entry hentry => ?_
  have hne := List.lookup_eq_none_iff.1 h entry hentry
  rwa [bne_comm]

/-! ## Bindings with more names -/

/-- The second bindings came from the first by binding, one after the other, names that were not
bound. -/
inductive Extends (b : Bindings) : Bindings → Prop
  | refl : Extends b b
  | insert {b' : Bindings} {name : List Char} (h : Extends b b') (hnone : b'.get? name = none)
      (span : List Token) : Extends b (b'.insert name span)

theorem Extends.trans {b₁ b₂ b₃ : Bindings} (h : b₁.Extends b₂) (h' : b₂.Extends b₃) :
    b₁.Extends b₃ := by
  induction h' with
  | refl => exact h
  | insert _ hnone span ih => exact ih.insert hnone span

theorem Extends.of_bind? {b b' : Bindings} {name : List Char} {span : List Token}
    (h : b.bind? name span = some b') : b.Extends b' := by
  rcases bind?_eq_some_iff.1 h with ⟨hnone, rfl⟩ | ⟨_, _, _, rfl⟩
  · exact Extends.refl.insert hnone span
  · exact Extends.refl

/-- A bound name stands for the same tokens in the bindings with more names. -/
theorem Extends.get? {b b' : Bindings} (h : b.Extends b') {x : List Char} {bound : List Token}
    (hx : b.get? x = some bound) : b'.get? x = some bound := by
  induction h with
  | refl => exact hx
  | insert _ hnone span ih => exact get?_of_bind? (bind?_of_get?_eq_none hnone span) ih

/-- A name without a binding had none before. -/
theorem Extends.get?_eq_none {b b' : Bindings} (h : b.Extends b') {x : List Char}
    (hx : b'.get? x = none) : b.get? x = none := by
  cases hb : b.get? x with
  | none => rfl
  | some bound =>
    rw [h.get? hb] at hx
    exact absurd hx (by simp)

/-- The journal only grows at its end. -/
theorem Extends.checkpoint_le {b b' : Bindings} (h : b.Extends b') :
    b.checkpoint ≤ b'.journal.length := by
  induction h with
  | refl => exact Nat.le_refl _
  | insert _ _ _ ih =>
    rw [Bindings.insert, List.length_append]
    omega

/-- **Going back is exact**: the bindings at the checkpoint are there again, with their table and
with their journal. -/
theorem rollback_of_extends {b b' : Bindings} (h : b.Extends b') :
    b'.rollback b.checkpoint = b := by
  induction h with
  | refl => simp [rollback, checkpoint]
  | @insert b' name h hnone span ih =>
    have hle : b.checkpoint ≤ b'.journal.length := h.checkpoint_le
    rw [rollback] at ih ⊢
    have hentries := congrArg entries ih
    have hjournal := congrArg journal ih
    simp only at hentries hjournal
    -- `name` is the last name to forget, and its entry is the only one added since
    have hforget : (b'.journal.drop b.checkpoint ++ [name]).foldl forget
        ((name, span) :: b'.entries) = forget b.entries name := by
      rw [← hentries, foldl_forget, foldl_forget, forget, List.filter_filter,
        List.filter_cons_of_neg (by simp)]
      refine List.filter_congr fun entry _ => ?_
      by_cases hentry : entry.1 = name <;> simp [hentry]
    simp only [Bindings.insert, List.drop_append_of_le_length hle,
      List.take_append_of_le_length hle, hforget, hjournal,
      forget_of_get?_eq_none (h.get?_eq_none hnone)]

end Bindings

/-! ## Occurrences with captures handed on -/

namespace Item

theorem extends_of_matchHere? {b b' : Bindings} {item : Item} {ts : List Token} {taken : Nat}
    (h : item.matchHere? b ts = some (taken, b')) : b.Extends b' := by
  cases ts with
  | nil => simp [matchHere?] at h
  | cons t ts =>
    cases item with
    | literal l =>
      simp only [matchHere?, Option.ite_none_right_eq_some, Option.some.injEq,
        Prod.mk.injEq] at h
      rw [← h.2.2]
      exact .refl
    | ident name =>
      simp only [matchHere?, Option.ite_none_right_eq_some, Option.map_eq_some_iff,
        Prod.mk.injEq] at h
      obtain ⟨_, b₁, hbind, -, rfl⟩ := h
      exact .of_bind? hbind
    | expr name terminator =>
      simp only [matchHere?] at h
      obtain ⟨length, -, h⟩ := Option.bind_eq_some_iff.1 h
      obtain ⟨b₁, hbind, h⟩ := Option.bind_eq_some_iff.1 h
      obtain ⟨-, rfl⟩ := Prod.mk.inj (Option.some.inj h)
      exact .of_bind? hbind

/-- An item that occurs only binds new names. -/
theorem extends_of_match? {b b' : Bindings} {item : Item} {ts : List Token} {taken : Nat}
    (h : item.match? b ts = some (taken, b')) : b.Extends b' := by
  obtain ⟨⟨taken', b₁⟩, h, heq⟩ := Option.map_eq_some_iff.1 h
  rw [← (Prod.mk.inj heq).2]
  exact extends_of_matchHere? h

/-- Matching items only binds new names, also when one of them does not occur. -/
theorem extends_matchAll (b : Bindings) (items : List Item) (ts : List Token) :
    b.Extends (matchAll b items ts).2 := by
  induction items generalizing b ts with
  | nil => exact .refl
  | cons item items ih =>
    cases h : item.match? b ts with
    | none =>
      simp only [matchAll, h]
      exact .refl
    | some result =>
      obtain ⟨taken, b'⟩ := result
      simp only [matchAll, h]
      exact (extends_of_match? h).trans (ih b' (ts.drop taken))

/-- Matches items one behind the other: the number of tokens taken and the bindings with all
captures, or nothing at all. -/
def matchAll? (b : Bindings) : List Item → List Token → Option (Nat × Bindings)
  | [], _ => some (0, b)
  | item :: items, ts => do
    let (taken, b) ← item.match? b ts
    let (more, b) ← matchAll? b items (ts.drop taken)
    return (taken + more, b)

theorem matchAll?_cons_eq_some_iff {b b' : Bindings} {item : Item} {items : List Item}
    {ts : List Token} {n : Nat} :
    matchAll? b (item :: items) ts = some (n, b') ↔
      ∃ taken b₁ more, item.match? b ts = some (taken, b₁) ∧
        matchAll? b₁ items (ts.drop taken) = some (more, b') ∧ n = taken + more := by
  rw [matchAll?, Option.bind_eq_bind, Option.bind_eq_some_iff]
  constructor
  · rintro ⟨⟨taken, b₁⟩, hfirst, h⟩
    obtain ⟨⟨more, b₂⟩, hmore, heq⟩ := Option.bind_eq_some_iff.1 h
    obtain ⟨rfl, rfl⟩ := Prod.mk.inj (Option.some.inj heq)
    exact ⟨taken, b₁, more, hfirst, hmore, rfl⟩
  · rintro ⟨taken, b₁, more, hfirst, hmore, rfl⟩
    exact ⟨(taken, b₁), hfirst, Option.bind_eq_some_iff.2 ⟨(more, b'), hmore, rfl⟩⟩

theorem matchAll?_eq (b : Bindings) (items : List Item) (ts : List Token) :
    matchAll? b items ts =
      (matchAll b items ts).1.map fun taken => (taken, (matchAll b items ts).2) := by
  induction items generalizing b ts with
  | nil => rfl
  | cons item items ih =>
    cases h : item.match? b ts with
    | none => simp [matchAll?, matchAll, h]
    | some result =>
      obtain ⟨taken, b'⟩ := result
      simp only [matchAll?, matchAll, h, Option.bind_eq_bind, Option.bind_some, ih]
      cases (matchAll b' items (ts.drop taken)).1 <;> rfl

end Item

/-! ## The attempt at a whole pattern -/

namespace Pattern

/-- The number of tokens that an occurrence at the start of a list takes, and the bindings with
its captures. -/
def match? (b : Bindings) (p : Pattern) (ts : List Token) : Option (Nat × Bindings) :=
  Item.matchAll? b p.items ts

/-- An attempt at a pattern that occurs. -/
theorem attempt_of_match?_eq_some {b b' : Bindings} {p : Pattern} {ts : List Token} {taken : Nat}
    (h : p.match? b ts = some (taken, b')) : p.attempt b ts = (some taken, b') := by
  rw [match?, Item.matchAll?_eq] at h
  obtain ⟨n, hn, heq⟩ := Option.map_eq_some_iff.1 h
  obtain ⟨rfl, hb⟩ := Prod.mk.inj heq
  have hall : Item.matchAll b p.items ts = (some n, b') := Prod.ext hn hb
  simp only [attempt, hall]

/-- **A failed attempt changes nothing.** -/
theorem attempt_of_match?_eq_none {b : Bindings} {p : Pattern} {ts : List Token}
    (h : p.match? b ts = none) : p.attempt b ts = (none, b) := by
  rw [match?, Item.matchAll?_eq, Option.map_eq_none_iff] at h
  have hall : Item.matchAll b p.items ts = (none, (Item.matchAll b p.items ts).2) :=
    Prod.ext h rfl
  rw [attempt, hall]
  simp only [Bindings.rollback_of_extends (Item.extends_matchAll b p.items ts)]

theorem attempt_eq_some_iff {b b' : Bindings} {p : Pattern} {ts : List Token} {taken : Nat} :
    p.attempt b ts = (some taken, b') ↔ p.match? b ts = some (taken, b') := by
  refine ⟨fun h => ?_, attempt_of_match?_eq_some⟩
  cases hm : p.match? b ts with
  | none =>
    rw [attempt_of_match?_eq_none hm] at h
    exact absurd h (by simp)
  | some result =>
    obtain ⟨taken', b₁⟩ := result
    rw [attempt_of_match?_eq_some hm] at h
    obtain ⟨htaken, rfl⟩ := Prod.mk.inj h
    rw [Option.some.inj htaken]

theorem attempt_fst_eq_none_iff {b : Bindings} {p : Pattern} {ts : List Token} :
    (p.attempt b ts).1 = none ↔ p.match? b ts = none := by
  refine ⟨fun h => ?_, fun h => by rw [attempt_of_match?_eq_none h]⟩
  cases hm : p.match? b ts with
  | none => rfl
  | some result =>
    obtain ⟨taken, b'⟩ := result
    rw [attempt_of_match?_eq_some hm] at h
    exact absurd h (by simp)

end Pattern

end TokenEdit
