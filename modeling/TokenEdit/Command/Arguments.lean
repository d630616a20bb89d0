import TokenEdit.Command

/-!
# Arguments

The arguments of the program name a command and its options.  A word that starts with two hyphens
is an option; its value, if it takes one, is attached with an equals sign or is the next word.
After a bare double hyphen all words are plain.  One hyphen starts a cluster of single-letter
options, and a hyphen alone is a plain word.

* An option that takes a value needs one, and the value of a path is not empty.  A next word that
  looks like an option is no value.
* Only the request for a more detailed log may be repeated.  It may stand on either side of the
  command, and the requests behind the command then replace those in front of it.
* In front of the command the version may be asked for, which ends the reading at once.
* So does the request for help, which may stand on either side of the command, or be the command.

What does not fit is refused as a whole, so the readers answer with an `Option`.
-/

namespace TokenEdit

/-! ## What there is to be said -/

/-- The options that take a value. -/
inductive ValueOption where
  | rules
  | input
  | output
  deriving DecidableEq

/-- The options that do not. -/
inductive Flag where
  | report
  | json
  deriving DecidableEq

/-- The names of the commands. -/
inductive CommandName where
  | apply
  | check
  | tokens
  | docs
  | doc
  deriving DecidableEq

namespace CommandName

/-- The command with the given name. -/
def ofWord? : String → Option CommandName
  | "apply" => some apply
  | "check" => some check
  | "tokens" => some tokens
  | "docs" => some docs
  | "doc" => some doc
  | _ => none

/-- The option with a value that a command knows by the given word. -/
def valueOption? : CommandName → String → Option ValueOption
  | apply, "patch" | check, "patch" => some .rules
  | apply, "in" | tokens, "in" => some .input
  | apply, "out" => some .output
  | _, _ => none

/-- The flag that a command knows by the given word. -/
def flag? : CommandName → String → Option Flag
  | apply, "report" => some .report
  | tokens, "json" => some .json
  | _, _ => none

end CommandName

/-! ## Words -/

/-- What a word is, by its form. -/
inductive Word where
  /-- A plain word. -/
  | plain
  /-- The double hyphen. -/
  | divider
  /-- A long option, with the value attached to it. -/
  | long (name : String) (value : Option String)
  /-- Single-letter options. -/
  | cluster (letters : List Char)
  deriving DecidableEq

/-- Cuts a long option at its first equals sign. -/
def Word.ofLong (cs : List Char) : Word :=
  let name := String.ofList (cs.takeWhile fun c => c != '=')
  match cs.dropWhile fun c => c != '=' with
  | [] => .long name none
  | _ :: value => .long name (some (String.ofList value))

/-- The form of a word. -/
def Word.ofString (word : String) : Word :=
  match word.toList with
  | ['-', '-'] => .divider
  | '-' :: '-' :: cs => .ofLong cs
  | '-' :: c :: cs => .cluster (c :: cs)
  | _ => .plain

/-- The value that a word gives to the option in front of it. -/
def valueOfWord? (word : String) : Option String :=
  match Word.ofString word with
  | .plain => if word = "" then none else some word
  | .divider | .long .. | .cluster _ => none

/-! ## The options of a command -/

/-- What has been said behind the name of a command. -/
structure Said where
  values : List (ValueOption × String)
  flags : List Flag
  plain : Option String
  /-- How often a more detailed log was asked for. -/
  more : Nat
  /-- Whether the help was asked for. -/
  help : Bool
  deriving DecidableEq

namespace Said

/-- Nothing has been said. -/
def nothing : Said :=
  { values := [], flags := [], plain := none, more := 0, help := false }

/-- Takes the value of an option that has not been given before. -/
def addValue? (said : Said) (option : ValueOption) (value : String) : Option Said :=
  if (said.values.lookup option).isSome || value = "" then none
  else some { said with values := (option, value) :: said.values }

/-- Takes a flag that has not been given before. -/
def addFlag? (said : Said) (flag : Flag) : Option Said :=
  if said.flags.contains flag then none else some { said with flags := flag :: said.flags }

/-- Takes a plain word, of which one command takes one. -/
def addPlain? (command : CommandName) (said : Said) (word : String) : Option Said :=
  if command = .doc ∧ said.plain.isNone then some { said with plain := some word } else none

/-- Takes single-letter options, of which there are two. -/
def addCluster? (said : Said) (letters : List Char) : Option Said :=
  match letters.dropWhile fun c => c = 'v' with
  | [] => some { said with more := said.more + letters.length }
  | 'h' :: _ => some { said with help := true }
  | _ => none

/-- Takes a long option without a value. -/
def addLong? (command : CommandName) (said : Said) (name : String) : Option Said :=
  if name = "verbose" then some { said with more := said.more + 1 }
  else if name = "help" then some { said with help := true }
  else do said.addFlag? (← command.flag? name)

/-- Reads the words behind the name of a command, until the help is asked for. -/
def read? (command : CommandName) (said : Said) : List String → Option Said
  | [] => some said
  | word :: words =>
    if said.help then some said
    else match Word.ofString word with
    | .plain => do read? command (← addPlain? command said word) words
    | .divider => words.foldlM (addPlain? command) said
    | .cluster letters => do read? command (← said.addCluster? letters) words
    | .long name (some value) => do
      read? command (← said.addValue? (← command.valueOption? name) value) words
    | .long name none =>
      match command.valueOption? name with
      | none => do read? command (← addLong? command said name) words
      | some option =>
        match words with
        | [] => none
        | next :: words => do
          read? command (← said.addValue? option (← valueOfWord? next)) words

/-- The path that has been given for an option. -/
def path? (said : Said) (option : ValueOption) : Option Path :=
  (said.values.lookup option).map Path.ofString

/-- The command that has been asked for. -/
def command? (said : Said) : CommandName → Option Command
  | .apply =>
    some (.apply (said.path? .rules) (said.path? .input) (said.path? .output)
      (said.flags.contains .report))
  | .check => (said.path? .rules).map .check
  | .tokens =>
    some (.tokens (said.path? .input) (if said.flags.contains .json then .json else .plain))
  | .docs => some .docs
  | .doc => said.plain.map .doc

end Said

/-! ## The whole line -/

/-- What arguments ask for. -/
inductive Asked where
  /-- The help. -/
  | help
  /-- The version. -/
  | version
  /-- A command. -/
  | request (request : Request)
  deriving DecidableEq

namespace Asked

/-- Reads the words behind the name of a command; `more` requests for a log came before. -/
def ofCommand? (more : Nat) (name : CommandName) (words : List String) : Option Asked := do
  let said ← Said.nothing.read? name words
  if said.help then return .help
  let command ← said.command? name
  return .request { verbosity := if said.more = 0 then more else said.more, command }

/-- Reads the words behind the command that asks for help. -/
def ofHelp? : List String → Option Asked
  | [] | ["help"] => some .help
  | [word] => (CommandName.ofWord? word).map fun _ => .help
  | _ => none

/-- Reads all words; `more` requests for a log came before. -/
def readFrom? (more : Nat) : List String → Option Asked
  | [] => none
  | word :: words =>
    match Word.ofString word with
    | .plain =>
      if word = "help" then ofHelp? words
      else do ofCommand? more (← CommandName.ofWord? word) words
    | .long "verbose" none => readFrom? (more + 1) words
    | .long "help" none => some .help
    | .long "version" none => some .version
    | .cluster letters =>
      match letters.dropWhile fun c => c = 'v' with
      | [] => readFrom? (more + letters.length) words
      | 'h' :: _ => some .help
      | 'V' :: _ => some .version
      | _ => none
    | .long .. | .divider => none

end Asked

/-! ## The answers -/

/-- The line that answers the question for the version. -/
def versionLine : String :=
  "tokpatch 0.1.0\n"

/-- What is printed as help, and when the arguments do not fit. -/
def usage : String :=
  "Usage: tokpatch [-v]... <COMMAND>\n\nCommands:\n"
    ++ "  apply --patch <FILE> [--in <FILE>] [--out <FILE>] [--report]\n"
    ++ "  check --patch <FILE>\n"
    ++ "  tokens [--in <FILE>] [--json]\n"
    ++ "  docs\n"
    ++ "  doc <CATEGORY>\n"

/-- The command that arguments ask for, or else how the run ends at once. -/
def Request.ofArguments (words : List String) : Except Outcome Request :=
  match Asked.readFrom? 0 words with
  | none => .error { exit := 2, output := "", errors := usage }
  | some .help => .error (.success usage)
  | some .version => .error (.success versionLine)
  | some (.request request) => .ok request

end TokenEdit
