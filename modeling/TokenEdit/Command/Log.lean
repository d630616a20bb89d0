import TokenEdit.Files.Path
import TokenEdit.Scan

/-!
# The log

Applying rules is logged, one line for every event.  An entry has a level, and how much is shown
of the log depends on how often the user has asked for more.
-/

namespace TokenEdit

/-- How detailed a log entry is. -/
inductive LogLevel where
  | info
  | debug
  | trace
  deriving DecidableEq

namespace LogLevel

/-- How often more has to be asked for until entries of a level are shown. -/
def rank : LogLevel → Nat
  | info => 1
  | debug => 2
  | trace => 3

/-- The name of a level, five characters wide. -/
def label : LogLevel → String
  | info => " INFO"
  | debug => "DEBUG"
  | trace => "TRACE"

end LogLevel

/-- An entry of the log. -/
inductive LogEntry where
  /-- Rules have been read: so many of them, with so many below them. -/
  | loaded (path : Path) (rules nested : Nat)
  /-- Something has happened while rules were applied. -/
  | event (event : Event)
  deriving DecidableEq

namespace LogEntry

/-- The level of an entry. -/
def level : LogEntry → LogLevel
  | loaded .. | event (.started ..) => .info
  | event (.matched ..) => .debug
  | event (.followed ..) => .trace

/-- A character of a logged path.  Control characters that a terminal obeys are spelled out. -/
def visibleChar (c : Char) : List Char :=
  let digits := Nat.toDigits 16 c.toNat
  if c = '\x07' ∨ c = '\x08' ∨ c = '\x0c' ∨ c = '\x1b' ∨ c = '\x7f' then
    ['\\', 'x'] ++ List.replicate (2 - digits.length) '0' ++ digits
  else if 0x80 ≤ c.toNat ∧ c.toNat ≤ 0x9f then ['\\', 'u', '{'] ++ digits ++ ['}']
  else [c]

/-- A path as it is logged. -/
def visible (path : Path) : String :=
  String.ofList (path.display.toList.flatMap visibleChar)

/-- What an entry says. -/
def text : LogEntry → String
  | loaded path rules nested =>
    "tokpatch::cli::apply: loaded " ++ visible path ++ " rules=" ++ toString rules
      ++ " nested=" ++ toString nested
  | event (.started index count) =>
    "tokpatch::rewriter: applying rule " ++ toString index ++ " of " ++ toString count ++ " rules"
  | event (.matched _ line position taken) =>
    "tokpatch::rewriter: pattern matched rule=" ++ toString line ++ " position="
      ++ toString position ++ " consumed=" ++ toString taken
  | event (.followed line) =>
    "tokpatch::rewriter: applying follow-up rule rule=" ++ toString line

/-- The line of an entry. -/
def line (entry : LogEntry) : String :=
  entry.level.label ++ " " ++ entry.text ++ "\n"

/-- The lines of a log that are shown when more has been asked for `verbosity` times. -/
def shown (verbosity : Nat) (log : List LogEntry) : String :=
  String.join ((log.filter fun entry => entry.level.rank ≤ verbosity).map line)

end LogEntry

end TokenEdit
