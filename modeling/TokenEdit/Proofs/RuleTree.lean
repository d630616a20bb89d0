import TokenEdit.Proofs.Runs

/-!
# The rules of a tree

A rule with its follow-ups is a tree of rules.  A run of the rule uses all of them and no other,
so what a statement asks of the rules it asks of the whole tree: of the rule itself and of every
rule below it.
-/

namespace TokenEdit

namespace Rule

/-- A rule is a follow-up of another one, or lies below a follow-up. -/
inductive Below : Rule → Rule → Prop
  | followUp {f r : Rule} (h : f ∈ r.followUps) : Below f r
  | deeper {g f r : Rule} (h : f ∈ r.followUps) (hg : Below g f) : Below g r

theorem Below.trans {g f r : Rule} (hg : Below g f) (hf : Below f r) : Below g r := by
  induction hf with
  | followUp h => exact .deeper h hg
  | deeper h _ ih => exact .deeper h ih

/-- A name that the rule, or a rule below it, captures under. -/
def Names (r : Rule) (name : List Char) : Prop :=
  name ∈ r.pattern.captureNames ∨ ∃ g, Below g r ∧ name ∈ g.pattern.captureNames

/-- What holds of a rule and of all rules below it. -/
def Everywhere (Q : Rule → Prop) (r : Rule) : Prop :=
  Q r ∧ ∀ g, Below g r → Q g

theorem everywhere_self_or_below (r : Rule) : r.Everywhere fun g => g = r ∨ Below g r :=
  ⟨.inl rfl, fun _ => .inr⟩

/-- What holds of all rules below a rule holds of its follow-ups and of all rules below them. -/
theorem forall_below_iff {Q : Rule → Prop} {r : Rule} :
    (∀ g, Below g r → Q g) ↔ ∀ f ∈ r.followUps, f.Everywhere Q := by
  constructor
  · intro h f hf
    exact ⟨h f (.followUp hf), fun g hg => h g (.deeper hf hg)⟩
  · intro h g hg
    cases hg with
    | followUp hf => exact (h g hf).1
    | deeper hf hg => exact (h _ hf).2 g hg

/-- What holds of a rule and everywhere below each of its follow-ups holds everywhere. -/
theorem everywhere_iff {Q : Rule → Prop} {r : Rule} :
    r.Everywhere Q ↔ Q r ∧ ∀ f ∈ r.followUps, f.Everywhere Q :=
  and_congr_right fun _ => forall_below_iff

theorem Everywhere.followUp {Q : Rule → Prop} {r f : Rule} (h : r.Everywhere Q)
    (hf : f ∈ r.followUps) : f.Everywhere Q :=
  forall_below_iff.1 h.2 f hf

theorem Everywhere.imp {Q Q' : Rule → Prop} {r : Rule} (h : r.Everywhere Q)
    (hQ : ∀ g, Q g → Q' g) : r.Everywhere Q' :=
  ⟨hQ r h.1, fun g hg => hQ g (h.2 g hg)⟩

theorem Everywhere.and {Q Q' : Rule → Prop} {r : Rule} (h : r.Everywhere Q)
    (h' : r.Everywhere Q') : r.Everywhere fun g => Q g ∧ Q' g :=
  ⟨⟨h.1, h'.1⟩, fun g hg => ⟨h.2 g hg, h'.2 g hg⟩⟩

/-- The rules of a tree capture under names of the tree. -/
theorem everywhere_names (r : Rule) :
    r.Everywhere fun g => ∀ x ∈ g.pattern.captureNames, r.Names x :=
  ⟨fun _ hx => .inl hx, fun g hg _ hx => .inr ⟨g, hg, hx⟩⟩

/-- **Induction over a tree of rules.**  What holds of a rule whenever it holds of its follow-ups
holds of all rules. -/
theorem of_followUps {Q : Rule → Prop} (h : ∀ r : Rule, (∀ f ∈ r.followUps, Q f) → Q r) :
    ∀ r : Rule, Q r
  | ⟨pattern, template, followUps, line⟩ => h _ fun f hf =>
    have : sizeOf f < sizeOf followUps := List.sizeOf_lt_of_mem hf
    of_followUps h f
termination_by r => sizeOf r
decreasing_by
  rw [Rule.mk.sizeOf_spec]
  omega

end Rule

namespace Scan.Work

/-- What holds of all rules that a work uses. -/
def Everywhere (Q : Rule → Prop) : Work → Prop
  | scan _ r => r.Everywhere Q
  | followUps rules => ∀ f ∈ rules, f.Everywhere Q

theorem Everywhere.imp {Q Q' : Rule → Prop} {w : Work} (h : w.Everywhere Q)
    (hQ : ∀ g, Q g → Q' g) : w.Everywhere Q' := by
  cases w with
  | scan role r => exact Rule.Everywhere.imp h hQ
  | followUps rules => exact fun f hf => (h f hf).imp hQ

end Scan.Work

end TokenEdit
