import TokenEdit.Pattern
import TokenEdit.Template

/-!
# Rules

A rule is a pattern, the template that takes the place of its occurrences, and follow-up rules.
The follow-ups of an occurrence are run over what comes behind it, with the captures made so far;
they are rules themselves, so rules are trees.
-/

namespace TokenEdit

/-- A rule with its follow-ups and the line of the rule file that it starts on, or `0`. -/
structure Rule where
  pattern : Pattern
  template : Template
  followUps : List Rule
  line : Nat

namespace Rule

/-- The rule with the pattern and the template that two texts say, and without follow-ups. -/
def ofText (pattern template : List Char) : Except PatternError Rule := do
  let pattern ← Pattern.ofText pattern
  return { pattern, template := Template.ofText template, followUps := [], line := 0 }

/-- A rule with one more follow-up, which runs behind those that it has. -/
def withFollowUp (r followUp : Rule) : Rule :=
  { r with followUps := r.followUps ++ [followUp] }

/-- A rule that starts on another line. -/
def atLine (r : Rule) (line : Nat) : Rule :=
  { r with line }

mutual

/-- The number of rules below a rule. -/
def nestedCount : Rule → Nat
  | ⟨_, _, followUps, _⟩ => sizeOfAll followUps

/-- The number of rules in a list, those below them included. -/
def sizeOfAll : List Rule → Nat
  | [] => 0
  | r :: rs => 1 + r.nestedCount + sizeOfAll rs

end

end Rule

end TokenEdit
