import TokenEdit.Command.Arguments
import TokenEdit.Command.Run

/-!
# The program

The outer layer: arguments and files come from the system, and the outcome goes back to it.
-/

namespace TokenEdit.Main

/-- The number of a system error, which some operations report with its sign turned. -/
def errorNumber (code : UInt32) : Nat :=
  if code < 0x80000000 then code.toNat else (0 - code).toNat

/-- A reason in the words of the system. -/
def systemFault (code : UInt32) (details : String) : FileFault :=
  .system (details.capitalize ++ " (os error " ++ toString (errorNumber code) ++ ")")

/-- Why the system has refused a file. -/
def faultOfError : IO.Error → FileFault
  | .noFileOrDirectory .. => .missing
  | .inappropriateType _ code _ => if errorNumber code = 20 then .throughFile else .directory
  | .permissionDenied _ code details | .resourceExhausted _ code details
  | .invalidArgument _ code details | .resourceBusy code details | .otherError code details =>
    systemFault code details
  | e => .system (toString e)

/-- An action on a file, with the reason why it fails. -/
def attemptFile {α : Type} (action : IO α) : IO (Except FileFault α) := do
  try
    return .ok (← action)
  catch e =>
    return .error (faultOfError e)

/-- The files of the system. -/
def systemFiles : FileStore IO where
  read path := attemptFile (IO.FS.readBinFile path.display)
  write path content := attemptFile (IO.FS.writeBinFile path.display content)

/-- What is piped in, if something is. -/
def readPipe : IO (Option ByteArray) := do
  let input ← IO.getStdin
  if ← input.isTty then return none
  return some (← input.readBinToEnd)

/-- Runs the program with ever larger bounds on the steps until it ends. -/
partial def runToEnd (arguments : List String) (piped : Option ByteArray) (fuel : Nat) :
    IO Outcome := do
  match ← runProgram Request.ofArguments systemFiles fuel arguments piped with
  | some outcome => return outcome
  | none => runToEnd arguments piped (2 * fuel)

/-- Prints what a run has to say. -/
def finish (outcome : Outcome) : IO UInt32 := do
  IO.print outcome.output
  (← IO.getStdout).flush
  IO.eprint outcome.errors
  return outcome.exit.toUInt32

end TokenEdit.Main

open TokenEdit TokenEdit.Main in
/-- The program. -/
def main (arguments : List String) : IO UInt32 := do
  let piped ← if readsPipe Request.ofArguments arguments then readPipe else pure none
  finish (← runToEnd arguments piped 0x100000)
