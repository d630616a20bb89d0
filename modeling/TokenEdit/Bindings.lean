import TokenEdit.Token

/-!
# Bindings

The captures of a rule are bound to names.  The first capture under a name fixes what the name
stands for; a later one has to agree with it up to layout and changes nothing.

Bindings are kept twice: as a table of what each name stands for, and as a journal of the names in
the order in which they were bound.  The journal is what makes it possible to take captures back.
A place in the journal is remembered before they are made, and going back to it forgets the names
entered since.

* `Bindings.get?`: what a name stands for.
* `Bindings.bind?`: one more capture, or `none` when it does not agree.
* `Bindings.checkpoint`, `Bindings.rollback`: taking captures back.
-/

namespace TokenEdit

/-- Names with the tokens that they stand for.  Two bindings are equal when they hold the same
tokens under the same names and the names were bound in the same order. -/
structure Bindings where
  /-- What the names stand for, the name bound last first. -/
  entries : List (List Char × List Token)
  /-- The bound names, the name bound last at the end. -/
  journal : List (List Char)
  deriving DecidableEq

namespace Bindings

/-- No name is bound. -/
def empty : Bindings :=
  ⟨[], []⟩

/-- Whether no name is bound. -/
def isEmpty (b : Bindings) : Bool :=
  b.entries.isEmpty

/-- What a name stands for. -/
def get? (b : Bindings) (name : List Char) : Option (List Token) :=
  b.entries.lookup name

/-- Binds a name that is not bound. -/
def insert (b : Bindings) (name : List Char) (span : List Token) : Bindings :=
  ⟨(name, span) :: b.entries, b.journal ++ [name]⟩

/-- The bindings after a capture of `span` under `name`.  A new name is bound to the span; a bound
name keeps its tokens, and the span has to agree with them up to layout. -/
def bind? (b : Bindings) (name : List Char) (span : List Token) : Option Bindings :=
  match b.get? name with
  | none => some (b.insert name span)
  | some bound => if Token.sameSignificant bound span then some b else none

/-- A capture as a step on bindings: whether it agrees, and the bindings afterwards.  One that
does not agree leaves them as they were. -/
def capture (b : Bindings) (name : List Char) (span : List Token) : Bool × Bindings :=
  match b.bind? name span with
  | some b' => (true, b')
  | none => (false, b)

/-! ## Taking captures back -/

/-- The place in the journal to go back to. -/
def checkpoint (b : Bindings) : Nat :=
  b.journal.length

/-- A table without the entries of a name. -/
def forget (entries : List (List Char × List Token)) (name : List Char) :
    List (List Char × List Token) :=
  entries.filter fun entry => entry.1 != name

/-- Forgets, one after the other, the names entered in the journal since `checkpoint`. -/
def rollback (b : Bindings) (checkpoint : Nat) : Bindings :=
  ⟨(b.journal.drop checkpoint).foldl forget b.entries, b.journal.take checkpoint⟩

/-! ## Look-ups -/

@[simp] theorem get?_empty (name : List Char) : empty.get? name = none := rfl

theorem get?_insert (b : Bindings) (name : List Char) (span : List Token) (x : List Char) :
    (b.insert name span).get? x = if x = name then some span else b.get? x := by
  by_cases h : x = name
  · simp [get?, insert, h]
  · have hne : (x == name) = false := beq_eq_false_iff_ne.2 h
    simp [get?, insert, List.lookup_cons, h, hne]

theorem bind?_of_get?_eq_none {b : Bindings} {name : List Char} (h : b.get? name = none)
    (span : List Token) : b.bind? name span = some (b.insert name span) := by
  rw [bind?, h]

theorem bind?_of_get?_eq_some {b : Bindings} {name : List Char} {bound : List Token}
    (h : b.get? name = some bound) (span : List Token) :
    b.bind? name span = if Token.sameSignificant bound span then some b else none := by
  rw [bind?, h]

/-- What a capture does: it binds a new name, or it agrees with a bound one. -/
theorem bind?_eq_some_iff {b b' : Bindings} {name : List Char} {span : List Token} :
    b.bind? name span = some b' ↔
      (b.get? name = none ∧ b' = b.insert name span) ∨
        ∃ bound, b.get? name = some bound ∧ Token.sameSignificant bound span = true ∧ b' = b := by
  cases h : b.get? name with
  | none =>
    rw [bind?_of_get?_eq_none h, Option.some.injEq]
    simp [eq_comm (b := b')]
  | some bound =>
    rw [bind?_of_get?_eq_some h, Option.ite_none_right_eq_some, Option.some.injEq]
    simp [eq_comm (b := b')]

/-- A name that was bound before a capture stands for the same tokens after it. -/
theorem get?_of_bind? {b b' : Bindings} {name : List Char} {span : List Token}
    (h : b.bind? name span = some b') {x : List Char} {bound : List Token}
    (hx : b.get? x = some bound) : b'.get? x = some bound := by
  rcases bind?_eq_some_iff.1 h with ⟨hnone, rfl⟩ | ⟨_, _, _, rfl⟩
  · have hne : x ≠ name := by
      rintro rfl
      rw [hnone] at hx
      exact absurd hx (by simp)
    rw [get?_insert, if_neg hne, hx]
  · exact hx

end Bindings

end TokenEdit
