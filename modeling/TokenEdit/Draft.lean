import TokenEdit.Report
import TokenEdit.Scan
import TokenEdit.Token.Lexer

/-!
# Drafts

A draft is a list of tokens on which rules are at work.  The rules are applied one after the
other, each from empty bindings and each to what the one before it has left.  For every rule the
draft keeps a report of what the rule has found.
-/

namespace TokenEdit

/-- A list of tokens on which rules are at work. -/
structure Draft where
  tokens : List Token
  /-- A report for every rule applied. -/
  reports : List RuleReport
  /-- What has happened, latest first. -/
  events : List Event
  deriving DecidableEq

namespace Draft

/-- A draft to which no rule has been applied. -/
def ofTokens (ts : List Token) : Draft :=
  { tokens := ts, reports := [], events := [] }

/-- The text of a draft. -/
def text (d : Draft) : List Char :=
  Token.render d.tokens

/-- Applies the rule at `index` of `count` rules. -/
def applyRule (fuel count : Nat) (d : Draft) (r : Rule) (index : Nat) : Option Draft := do
  let s ← r.apply fuel Bindings.empty d.tokens
  return {
    tokens := s.tokens
    reports := d.reports ++ [{
      index
      line := r.line
      found := s.matchCount .root
      foundBelow := s.matchCount .followUp }]
    events := s.events ++ .started index count :: d.events }

/-- Applies rules one after the other. -/
def applyRules (fuel : Nat) (rules : List Rule) (d : Draft) : Option Draft :=
  rules.zipIdx.foldlM (fun d (r, index) => d.applyRule fuel rules.length r index) d

/-- What applying a rule does to a draft. -/
theorem applyRule_eq_some_iff {fuel count index : Nat} {d d' : Draft} {r : Rule} :
    d.applyRule fuel count r index = some d' ↔
      ∃ s, r.apply fuel Bindings.empty d.tokens = some s ∧
        d' = { tokens := s.tokens
               reports := d.reports ++ [{
                 index
                 line := r.line
                 found := s.matchCount .root
                 foundBelow := s.matchCount .followUp }]
               events := s.events ++ .started index count :: d.events } := by
  rw [applyRule, Option.bind_eq_bind, Option.bind_eq_some_iff]
  refine exists_congr fun s => and_congr_right fun _ => ?_
  exact Option.some_inj.trans eq_comm

/-- A larger bound on the steps keeps the answer. -/
theorem applyRule_mono {fuel fuel' : Nat} (hle : fuel ≤ fuel') {count index : Nat} {d d' : Draft}
    {r : Rule} (h : d.applyRule fuel count r index = some d') :
    d.applyRule fuel' count r index = some d' := by
  obtain ⟨s, hs, rfl⟩ := applyRule_eq_some_iff.1 h
  exact applyRule_eq_some_iff.2 ⟨s, Scan.run_mono hle hs, rfl⟩

theorem applyRules_mono {fuel fuel' : Nat} (hle : fuel ≤ fuel') {rules : List Rule} {d d' : Draft}
    (h : d.applyRules fuel rules = some d') : d.applyRules fuel' rules = some d' :=
  Scan.foldlM_eq_some_of_imp (fun _ _ _ hstep => applyRule_mono hle hstep) h

/-- A rule and the rules behind it, with enough steps for all of them. -/
theorem foldlM_cons_eq_some {count n m : Nat} {d d₁ e : Draft} {r : Rule} {index : Nat}
    (hfirst : d.applyRule n count r index = some d₁) {rules : List (Rule × Nat)}
    (hmore : rules.foldlM (fun d (r, index) => d.applyRule m count r index) d₁ = some e) :
    ((r, index) :: rules).foldlM (fun d (r, index) => d.applyRule (max n m) count r index) d =
      some e := by
  rw [List.foldlM_cons]
  refine Option.bind_eq_some_iff.2 ⟨d₁, applyRule_mono (Nat.le_max_left n m) hfirst, ?_⟩
  exact Scan.foldlM_eq_some_of_imp
    (fun _ _ _ h => applyRule_mono (Nat.le_max_right n m) h) hmore

/-- The bound on the steps has no influence on what the rules leave. -/
theorem applyRules_unique {fuel fuel' : Nat} {rules : List Rule} {d e e' : Draft}
    (h : d.applyRules fuel rules = some e) (h' : d.applyRules fuel' rules = some e') : e = e' := by
  have hmax := applyRules_mono (Nat.le_max_left fuel fuel') h
  have hmax' := applyRules_mono (Nat.le_max_right fuel fuel') h'
  exact Option.some.inj (hmax.symm.trans hmax')

end Draft

/-- The text that rules make of a text. -/
def editText (fuel : Nat) (rules : List Rule) (source : List Char) : Option (List Char) :=
  ((Draft.ofTokens (tokenize source)).applyRules fuel rules).map Draft.text

end TokenEdit
