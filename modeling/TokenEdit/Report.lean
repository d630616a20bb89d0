import TokenEdit.Json

/-!
# Reports

A report counts what a rule has found: its own occurrences, and those of the rules below it.
-/

namespace TokenEdit

/-- What a rule has found. -/
structure RuleReport where
  /-- The place of the rule among the rules applied with it. -/
  index : Nat
  /-- The line of the rule. -/
  line : Nat
  /-- The number of its occurrences. -/
  found : Nat
  /-- The number of occurrences of the rules below it. -/
  foundBelow : Nat
  deriving DecidableEq

namespace RuleReport

/-- The number of all occurrences in a list of reports. -/
def total (reports : List RuleReport) : Nat :=
  reports.foldl (fun total report => total + (report.found + report.foundBelow)) 0

/-- A report as JSON. -/
def toJson (report : RuleReport) : Json :=
  .object [
    ("follow_up_matches", .number report.foundBelow),
    ("index", .number report.index),
    ("line", .number report.line),
    ("matches", .number report.found)]

/-- A list of reports as JSON, with the number of all occurrences. -/
def listToJson (reports : List RuleReport) : Json :=
  .object [
    ("rules", .list (reports.map toJson)),
    ("total_matches", .number (total reports))]

end RuleReport

end TokenEdit
