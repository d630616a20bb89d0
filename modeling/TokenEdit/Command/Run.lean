import TokenEdit.Command.Apply
import TokenEdit.Outline
import TokenEdit.Topic

/-!
# Running the program

A command is run against a file store and what is piped in.  Its outcome is the exit status and
what is printed; a command that fails prints its message to the error stream and nothing else but
the log.  The program runs the command that its arguments ask for, whatever reads the arguments.
-/

namespace TokenEdit

variable {m : Type → Type} [Monad m]

/-! ## The commands -/

/-- The source to work on: a file, or else what is piped in, if something is. -/
def pickSource (input : Option Path) (piped : Option ByteArray) :
    Except CommandError (Option Source) :=
  match input, piped with
  | some path, _ => .ok (some (.file path))
  | none, none => .ok none
  | none, some bytes =>
    match decodeText bytes with
    | .ok cs => .ok (some (.text cs))
    | .error fault => .error (.piped fault)

/-- What is printed when rules have been applied. -/
def Applied.output (a : Applied) : String :=
  if a.writtenTo.isSome then "" else String.ofList a.text

/-- The report that is printed when rules have been applied. -/
def Applied.report (a : Applied) : String :=
  String.ofList (RuleReport.listToJson a.reports).write ++ "\n"

/-- Applies rules.  Missing rules are noticed before anything is read. -/
def runApply (store : FileStore m) (fuel verbosity : Nat) (piped : Option ByteArray)
    (rules input output : Option Path) (report : Bool) : m (Option Outcome) := do
  if rules.isNone then return some (.failure .noRuleFile)
  match pickSource input piped with
  | .error e => return some (.failure e)
  | .ok source =>
    match ← Application.execute store fuel { rules, source, output } with
    | none => return none
    | some (log, result) =>
      let outcome := Outcome.ofExcept Applied.output result
      let reported := match result with
        | .ok applied => if report then applied.report else ""
        | .error _ => ""
      return some { outcome with
        errors := LogEntry.shown verbosity log ++ reported ++ outcome.errors }

/-- The outlines of the rules of a file. -/
def checkRules (store : FileStore m) (path : Path) : m (Except CommandError (List Outline)) := do
  return (← store.readRules path).map fun rules => rules.map Rule.outline

/-- What is printed about outlines. -/
def outlineText (outlines : List Outline) : String :=
  String.join (outlines.map fun o => o.display ++ "\n")
    ++ toString outlines.length ++ " rules ok\n"

/-- Shows tokens. -/
def runTokens (store : FileStore m) (piped : Option ByteArray) (input : Option Path)
    (format : ListingFormat) : m Outcome := do
  match pickSource input piped with
  | .error e => return .failure e
  | .ok none => return .failure .noInput
  | .ok (some source) =>
    return .ofExcept (fun cs => String.ofList (listText format cs)) (← store.readSource source)

/-- The help on a topic. -/
def topicText (name : String) : Except CommandError String :=
  match Topic.ofName? name.toList with
  | some topic => .ok topic.text
  | none => .error (.unknownTopic name)

/-! ## Running -/

/-- Whether a command reads what is piped in. -/
def Command.readsPipe : Command → Bool
  | apply rules input _ _ => rules.isSome && input.isNone
  | tokens input _ => input.isNone
  | check _ | docs | doc _ => false

/-- Runs a command.  The answer is `none` when the bound on the steps of a scan is too small. -/
def Command.run (store : FileStore m) (fuel verbosity : Nat) (piped : Option ByteArray) :
    Command → m (Option Outcome)
  | apply rules input output report =>
    runApply store fuel verbosity piped rules input output report
  | check rules => return some (.ofExcept outlineText (← checkRules store rules))
  | tokens input format => return some (← runTokens store piped input format)
  | docs => return some (.success Topic.overview)
  | doc topic => return some (.ofExcept id (topicText topic))

/-- Does what is asked for.  The answer is `none` when the bound on the steps of a scan is too
small. -/
def Request.perform (store : FileStore m) (fuel : Nat) (piped : Option ByteArray)
    (request : Request) : m (Option Outcome) :=
  request.command.run store fuel request.verbosity piped

section Program

variable {Argument : Type} (parse : List Argument → Except Outcome Request)

/-- Whether what is piped in is read when the program has the given arguments. -/
def readsPipe (arguments : List Argument) : Bool :=
  match parse arguments with
  | .ok request => request.command.readsPipe
  | .error _ => false

/-- Runs the program.  What its arguments ask for is found by `parse`, or else how the run ends at
once.  The answer is `none` when the bound on the steps of a scan is too small. -/
def runProgram (store : FileStore m) (fuel : Nat) (arguments : List Argument)
    (piped : Option ByteArray) : m (Option Outcome) :=
  match parse arguments with
  | .error outcome => return some outcome
  | .ok request => request.perform store fuel piped

end Program

end TokenEdit
