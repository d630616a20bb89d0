import TokenEdit.Rule

/-!
# Outlines of rules

An outline shows on one line what a rule looks for and what it does with it.
-/

namespace TokenEdit

/-- A rule in short. -/
structure Outline where
  /-- The line of the rule. -/
  line : Nat
  /-- Its pattern as it is written. -/
  pattern : List Char
  /-- The names that the pattern captures. -/
  captures : List (List Char)
  /-- The number of rules below it. -/
  followUps : Nat
  /-- Whether its occurrences are deleted. -/
  deletes : Bool
  deriving DecidableEq

/-- The outline of a rule. -/
def Rule.outline (r : Rule) : Outline where
  line := r.line
  pattern := r.pattern.display
  captures := r.pattern.captureNames
  followUps := r.nestedCount
  deletes := r.template.isEmpty

namespace Outline

/-- The remark on captured names. -/
def captureRemark (o : Outline) : String :=
  if o.captures.isEmpty then ""
  else " [captures: " ++ String.ofList ([',', ' '].intercalate o.captures) ++ "]"

/-- The remark on the rules below. -/
def followUpRemark (o : Outline) : String :=
  if o.followUps = 0 then "" else " (+" ++ toString o.followUps ++ " follow-up rules)"

/-- The remark on deletion. -/
def deletionRemark (o : Outline) : String :=
  if o.deletes then " (deletes match)" else ""

/-- An outline as it is written. -/
def display (o : Outline) : String :=
  "line " ++ toString o.line ++ ": " ++ String.ofList o.pattern
    ++ o.captureRemark ++ o.followUpRemark ++ o.deletionRemark

end Outline

end TokenEdit
