import TokenEdit.Pattern.Match
import TokenEdit.Rule

/-!
# Scanning with one rule

A scan reads a list of tokens from left to right and writes a new one.  It looks for the pattern
of its rule at every significant token.  Where the pattern occurs, the expanded template is
written in place of the occurrence; every other token is copied.

* Between occurrences the scan counts the curly brackets that it copies.  A closing one without a
  partner closes a scope that was open before the list began: there the scan stops, and the rest
  of the list is left as it is.
* The column of the last delimiters copied is the margin of the next template.
* Behind an occurrence the follow-ups of the rule run over the rest of the list, each over what
  the one before it has left, with the bindings of the occurrence.  The scan then goes on with what
  they leave; the bindings that they add are forgotten.

A follow-up may write tokens that its own parent matches again, so a scan need not come to an end.
`Scan.run` therefore has a bound on its steps and answers `none` when the bound is too small;
`Scan.run_mono` says that a larger bound never changes an answer.
-/

namespace TokenEdit

/-! ## Events -/

/-- Whose occurrence an event reports: the rule that the scan was started with, or a follow-up. -/
inductive Role where
  | root
  | followUp
  deriving DecidableEq

/-- What happens while rules are applied, in the order in which it happens. -/
inductive Event where
  /-- The rule at `index` of `count` rules is started. -/
  | started (index count : Nat)
  /-- The rule of `line` occurs at `position` of the list being scanned and takes `taken` tokens. -/
  | matched (role : Role) (line position taken : Nat)
  /-- The follow-up of `line` is started. -/
  | followed (line : Nat)
  deriving DecidableEq

/-- Whether an event is an occurrence of a rule in the given role. -/
def Event.isMatchOf (role : Role) : Event → Bool
  | matched role' .. => role' = role
  | started .. | followed .. => false

/-! ## The state of a scan -/

/-- How far a scan has come. -/
structure Scan where
  /-- The tokens written, latest first. -/
  written : List Token
  /-- The tokens not yet read. -/
  rest : List Token
  /-- The place of the next token in the list being scanned, which starts anew behind an
  occurrence with follow-ups. -/
  position : Nat
  /-- The number of curly brackets copied and still open. -/
  depth : Nat
  /-- The column that the copied delimiters have reached. -/
  column : Nat
  bindings : Bindings
  /-- What has happened, latest first. -/
  events : List Event
  deriving DecidableEq

namespace Scan

/-- The start of a scan, behind the given events. -/
def start (b : Bindings) (events : List Event) (ts : List Token) : Scan :=
  { written := [], rest := ts, position := 0, depth := 0, column := 0, bindings := b, events }

/-- The list of tokens as it stands: what is written and what is not yet read. -/
def tokens (s : Scan) : List Token :=
  s.written.reverse ++ s.rest

@[simp] theorem tokens_start (b : Bindings) (events : List Event) (ts : List Token) :
    (start b events ts).tokens = ts := rfl

/-- The number of occurrences found in a role. -/
def matchCount (s : Scan) (role : Role) : Nat :=
  s.events.countP (Event.isMatchOf role)

/-! ## Steps -/

/-- What one step does. -/
inductive Step where
  /-- There is nothing more to do. -/
  | halt
  /-- A token is copied. -/
  | copy (next : Scan)
  /-- An occurrence is replaced; the follow-ups of the rule come next. -/
  | replace (next : Scan)

/-- Copies `t`, the first of the tokens not yet read; `ts` are those behind it. -/
def copy (s : Scan) (t : Token) (ts : List Token) : Scan :=
  { s with written := t :: s.written, rest := ts, position := s.position + 1 }

/-- Replaces the first `taken` of the tokens not yet read. -/
def replace (s : Scan) (role : Role) (r : Rule) (taken : Nat) (b : Bindings) : Scan :=
  { s with
    written := (r.template.expand b s.column).reverse ++ s.written
    rest := s.rest.drop taken
    position := s.position + taken
    bindings := b
    events := .matched role r.line s.position taken :: s.events }

/-- Copies a significant token at which the pattern does not occur.  A closing bracket without a
partner is not copied. -/
def pass (s : Scan) (t : Token) (ts : List Token) : Step :=
  if t.text = ['{'] then .copy { s.copy t ts with depth := s.depth + 1 }
  else if t.text = ['}'] then
    if s.depth = 0 then .halt else .copy { s.copy t ts with depth := s.depth - 1 }
  else .copy (s.copy t ts)

/-- The next step of a scan with rule `r`. -/
def step (role : Role) (r : Rule) (s : Scan) : Step :=
  match s.rest with
  | [] => .halt
  | t :: ts =>
    if t.isDelimiter then .copy { s.copy t ts with column := columnAfter s.column t.text }
    else
      match r.pattern.attempt s.bindings s.rest with
      | (some taken, b) => .replace (s.replace role r taken b)
      | (none, b) => { s with bindings := b }.pass t ts

/-! ## Runs -/

/-- The scan of a follow-up over what is left behind an occurrence. -/
def inner (s : Scan) (followUp : Rule) : Scan :=
  start s.bindings (.followed followUp.line :: s.events) s.rest

/-- Goes on with what a follow-up has left. -/
def resume (s inner : Scan) : Scan :=
  { s with rest := inner.tokens, position := 0, events := inner.events }

/-- Runs a scan with rule `r` until it halts; `none` when `fuel` steps are not enough. -/
def run : (fuel : Nat) → Role → Rule → Scan → Option Scan
  | 0, _, _, _ => none
  | fuel + 1, role, r, s =>
    match s.step role r with
    | .halt => some s
    | .copy s => run fuel role r s
    | .replace s => do
      let s ← r.followUps.foldlM
        (fun s followUp => (run fuel .followUp followUp (s.inner followUp)).map s.resume) s
      run fuel role r s

theorem foldlM_eq_some_of_imp {α β : Type} {f g : β → α → Option β}
    (h : ∀ b a b', f b a = some b' → g b a = some b') :
    ∀ {as : List α} {b b' : β}, as.foldlM f b = some b' → as.foldlM g b = some b'
  | [], _, _, hb => hb
  | a :: as, b, b', hb => by
    rw [List.foldlM_cons] at hb ⊢
    obtain ⟨c, hc, hb⟩ := Option.bind_eq_some_iff.1 hb
    exact Option.bind_eq_some_iff.2 ⟨c, h b a c hc, foldlM_eq_some_of_imp h hb⟩

theorem run_succ {fuel : Nat} {role : Role} {r : Rule} {s s' : Scan}
    (h : run fuel role r s = some s') : run (fuel + 1) role r s = some s' := by
  induction fuel generalizing role r s s' with
  | zero => simp [run] at h
  | succ fuel ih =>
    rw [run] at h ⊢
    split at h
    · exact h
    · exact ih h
    · obtain ⟨t, ht, h⟩ := Option.bind_eq_some_iff.1 h
      refine Option.bind_eq_some_iff.2 ⟨t, foldlM_eq_some_of_imp ?_ ht, ih h⟩
      intro b a b' hb
      obtain ⟨c, hc, rfl⟩ := Option.map_eq_some_iff.1 hb
      exact Option.map_eq_some_iff.2 ⟨c, ih hc, rfl⟩

/-- A larger bound on the steps keeps the answer. -/
theorem run_mono {fuel fuel' : Nat} (hle : fuel ≤ fuel') {role : Role} {r : Rule} {s s' : Scan}
    (h : run fuel role r s = some s') : run fuel' role r s = some s' := by
  induction hle with
  | refl => exact h
  | step _ ih => exact run_succ ih

/-- The bound on the steps has no influence on where a run ends. -/
theorem run_unique {fuel fuel' : Nat} {role : Role} {r : Rule} {s u u' : Scan}
    (h : run fuel role r s = some u) (h' : run fuel' role r s = some u') : u = u' := by
  have hmax := run_mono (Nat.le_max_left fuel fuel') h
  have hmax' := run_mono (Nat.le_max_right fuel fuel') h'
  exact Option.some.inj (hmax.symm.trans hmax')

end Scan

/-- Applies a rule to a list of tokens, starting from the given bindings. -/
def Rule.apply (fuel : Nat) (r : Rule) (b : Bindings) (ts : List Token) : Option Scan :=
  Scan.run fuel .root r (Scan.start b [] ts)

end TokenEdit
