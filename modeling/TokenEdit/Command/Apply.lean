import TokenEdit.Command
import TokenEdit.Command.Log
import TokenEdit.Draft

/-!
# Applying a file of rules

Rules and source are read first, then the rules are applied, and only then the result is written:
when something is wrong with what is read, nothing is written, and it does not matter if the result
replaces one of the files that were read.
-/

namespace TokenEdit

variable {m : Type → Type} [Monad m]

/-- What rules are applied to. -/
inductive Source where
  | file (path : Path)
  | text (cs : List Char)
  deriving DecidableEq

/-- What to apply to what, and where to put the result. -/
structure Application where
  rules : Option Path
  source : Option Source
  output : Option Path
  deriving DecidableEq

/-- What has been done. -/
structure Applied where
  /-- The result. -/
  text : List Char
  /-- The file that it was written to. -/
  writtenTo : Option Path
  /-- What every rule has found. -/
  reports : List RuleReport
  deriving DecidableEq

/-- Reads a file of rules. -/
def FileStore.readRules (store : FileStore m) (path : Path) :
    m (Except CommandError (List Rule)) := do
  match ← store.readText path with
  | .error fault => return .error (.read path fault)
  | .ok text => return (TokenEdit.readRules text).mapError (.ruleFile path)

/-- Reads a source. -/
def FileStore.readSource (store : FileStore m) : Source → m (Except CommandError (List Char))
  | .text cs => return .ok cs
  | .file path => return (← store.readText path).mapError (.read path)

namespace Application

/-- What has been read for an application. -/
structure Loaded where
  /-- The path of the rules. -/
  path : Path
  rules : List Rule
  source : List Char

/-- Reads the rules, and then the source. -/
def load (store : FileStore m) (a : Application) : m (Except CommandError Loaded) := do
  match a.rules, a.source with
  | none, _ => return .error .noRuleFile
  | some _, none => return .error .noInput
  | some path, some source =>
    match ← store.readRules path with
    | .error e => return .error e
    | .ok rules => return (← store.readSource source).map fun source => { path, rules, source }

/-- Writes the result, if it goes to a file. -/
def writeOutput (store : FileStore m) (a : Application) (text : List Char) :
    m (Except CommandError Unit) := do
  match a.output with
  | none => return .ok ()
  | some path => return (← store.write path (encodeText text)).mapError (.write path)

/-- The log of an application. -/
def log (loaded : Loaded) (draft : Draft) : List LogEntry :=
  let nested := loaded.rules.foldl (fun nested r => nested + r.nestedCount) 0
  .loaded loaded.path loaded.rules.length nested :: draft.events.reverse.map .event

/-- Applies rules to a source.  The answer is the log and what has been done, or why not; it is
`none` when the bound on the steps of a scan is too small. -/
def execute (store : FileStore m) (fuel : Nat) (a : Application) :
    m (Option (List LogEntry × Except CommandError Applied)) := do
  match ← a.load store with
  | .error e => return some ([], .error e)
  | .ok loaded =>
    match (Draft.ofTokens (tokenize loaded.source)).applyRules fuel loaded.rules with
    | none => return none
    | some draft =>
      let written ← a.writeOutput store draft.text
      return some (log loaded draft, written.map fun _ =>
        { text := draft.text, writtenTo := a.output, reports := draft.reports })

end Application

end TokenEdit
