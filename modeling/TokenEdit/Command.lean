import TokenEdit.Files
import TokenEdit.RuleFile
import TokenEdit.Token.Listing

/-!
# Commands

What the program can be asked to do, why it may not be able to do it, and how it ends.
-/

namespace TokenEdit

/-- What to do. -/
inductive Command where
  /-- Apply the rules of the file `rules` to the file `input`, or to what is piped in, and write
  the result to the file `output`, or print it. -/
  | apply (rules input output : Option Path) (report : Bool)
  /-- Show the rules of a file. -/
  | check (rules : Path)
  /-- Show the tokens of the file `input`, or of what is piped in. -/
  | tokens (input : Option Path) (format : ListingFormat)
  /-- Show the topics of the help. -/
  | docs
  /-- Show a topic of the help. -/
  | doc (topic : String)
  deriving DecidableEq

/-- Why a command fails. -/
inductive CommandError where
  /-- No rules are given. -/
  | noRuleFile
  /-- There is nothing to work on. -/
  | noInput
  /-- A file of rules is faulty. -/
  | ruleFile (path : Path) (error : RuleFileError)
  /-- A file cannot be read. -/
  | read (path : Path) (fault : FileFault)
  /-- A file cannot be written. -/
  | write (path : Path) (fault : FileFault)
  /-- What is piped in cannot be read. -/
  | piped (fault : FileFault)
  /-- There is no such topic. -/
  | unknownTopic (name : String)
  deriving DecidableEq

/-- The message for a failed command. -/
def CommandError.message : CommandError → String
  | noRuleFile => "no rule file specified. Use --patch <FILE>."
  | noInput => "no input file specified. Use --in <FILE> or pipe source to stdin."
  | ruleFile path error => path.display ++ ": " ++ error.message
  | read path fault => "cannot read " ++ path.display ++ ": " ++ fault.reason
  | write path fault => "cannot write " ++ path.display ++ ": " ++ fault.reason
  | piped fault => "IO error: " ++ fault.reason
  | unknownTopic name =>
    "Unknown category: '" ++ name ++ "'\nRun 'tokpatch docs' to see available categories."

/-- What the program is asked for: a command, with a log that was asked for `verbosity` times. -/
structure Request where
  verbosity : Nat
  command : Command
  deriving DecidableEq

/-- How a run ends. -/
structure Outcome where
  /-- The exit status. -/
  exit : Nat
  /-- What is printed. -/
  output : String
  /-- What is printed to the error stream. -/
  errors : String
  deriving DecidableEq

namespace Outcome

/-- A run that prints a text. -/
def success (output : String) : Outcome :=
  { exit := 0, output, errors := "" }

/-- A run that fails. -/
def failure (e : CommandError) : Outcome :=
  { exit := 1, output := "", errors := e.message ++ "\n" }

/-- The outcome of what may fail. -/
def ofExcept {α : Type} (output : α → String) : Except CommandError α → Outcome
  | .ok a => success (output a)
  | .error e => failure e

end Outcome

end TokenEdit
