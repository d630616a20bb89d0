import TokenEdit.Rule
import TokenEdit.RuleFile.Line
import TokenEdit.Text.Blank
import TokenEdit.Text.Quoted

/-!
# Rule files

A rule file is a sequence of blocks, with blank lines and comments between them.  A block is a
rule.  It holds, in this order: the pattern, an arrow and the template, and the blocks of the
follow-ups.  The arrow may be missing, and then the template is empty; between the follow-ups, and
behind the last one, nothing may stand.

The file is read line by line.  What has been read of it is a `Reader`: the rules that are
complete and the blocks that are still open, the innermost first.  A line changes the reader or is
a fault; so the answer to a file depends on a fault only up to the line where the fault shows.

* `Reader.line`: what a line does.
* `readRules`: the rules of a file, or its first fault.
-/

namespace TokenEdit

/-! ## Faults -/

/-- What is wrong in a rule file. -/
inductive RuleFileFault where
  /-- A line that may not stand where it does, without the blanks at its end. -/
  | unexpectedLine (text : List Char)
  /-- A block without an end. -/
  | unterminatedBlock
  /-- A block whose pattern is none. -/
  | invalidPattern (error : PatternError)
  deriving DecidableEq

/-- The message for a fault. -/
def RuleFileFault.message : RuleFileFault → String
  | unexpectedLine text => "unexpected line " ++ String.ofList (Text.quoted text)
  | unterminatedBlock => "rule block is never closed"
  | invalidPattern error => "invalid pattern: " ++ error.message

/-- A fault and the line at which it shows; a fault of a block shows where the block opens. -/
structure RuleFileError where
  line : Nat
  fault : RuleFileFault
  deriving DecidableEq

/-- The message for a faulty rule file. -/
def RuleFileError.message (e : RuleFileError) : String :=
  "line " ++ toString e.line ++ ": " ++ e.fault.message

namespace RuleFile

/-! ## Blocks -/

/-- The parts of a block, in the order in which they come. -/
inductive Part where
  | pattern
  | template
  | followUps
  deriving DecidableEq

/-- A block that is being read.  Its lists have the latest entry first. -/
structure Block where
  /-- The line that opened the block. -/
  line : Nat
  /-- The part being read. -/
  part : Part
  patternLines : List (List Char)
  templateLines : List (List Char)
  followUps : List Rule

/-- The text of a section: its lines, without line feeds at either end. -/
def sectionText (linesLatestFirst : List (List Char)) : List Char :=
  let isLineFeed := fun c : Char => c = '\n'
  ((linesLatestFirst.reverse.flatten.dropWhile isLineFeed).reverse.dropWhile isLineFeed).reverse

namespace Block

/-- The block that a line has just opened. -/
def opened (line : Nat) : Block :=
  { line, part := .pattern, patternLines := [], templateLines := [], followUps := [] }

/-- The rule of a block. -/
def close (b : Block) : Except RuleFileError Rule :=
  match Pattern.ofText (sectionText b.patternLines) with
  | .error e => .error ⟨b.line, .invalidPattern e⟩
  | .ok pattern => .ok {
      pattern
      template := Template.ofText (sectionText b.templateLines)
      followUps := b.followUps.reverse
      line := b.line }

end Block

/-! ## Reading -/

/-- What has been read of a rule file. -/
structure Reader where
  /-- The rules outside every open block, latest first. -/
  rules : List Rule
  /-- The open blocks, innermost first. -/
  blocks : List Block

namespace Reader

/-- Nothing has been read. -/
def start : Reader :=
  { rules := [], blocks := [] }

/-- Puts the rule of a closed block where it belongs: below the block around it, if there is
one. -/
def add (rules : List Rule) (r : Rule) : List Block → Reader
  | [] => { rules := r :: rules, blocks := [] }
  | outer :: blocks =>
    { rules, blocks := { outer with followUps := r :: outer.followUps } :: blocks }

/-- Reads line number `number`, which is `text`. -/
def line (s : Reader) (text : List Char) (number : Nat) : Except RuleFileError Reader :=
  let unexpected := .error ⟨number, .unexpectedLine (Text.trimEnd text)⟩
  match s.blocks, LineKind.ofLine text with
  | [], .opener => .ok { s with blocks := [.opened number] }
  | [], .comment | [], .blank => .ok s
  | [], .closer | [], .arrow | [], .text => unexpected
  | b :: outer, .opener =>
    .ok { s with blocks := .opened number :: { b with part := .followUps } :: outer }
  | b :: outer, .closer => do
    let r ← b.close
    return add s.rules r outer
  | b :: outer, .arrow =>
    match b.part with
    | .pattern => .ok { s with blocks := { b with part := .template } :: outer }
    | .template | .followUps => unexpected
  | b :: outer, .comment | b :: outer, .blank | b :: outer, .text =>
    match b.part with
    | .pattern =>
      .ok { s with blocks := { b with patternLines := text :: b.patternLines } :: outer }
    | .template =>
      .ok { s with blocks := { b with templateLines := text :: b.templateLines } :: outer }
    | .followUps => unexpected

/-- Reads lines, the first of which has the given number. -/
def lines (s : Reader) (texts : List (List Char)) (number : Nat) : Except RuleFileError Reader :=
  (texts.zipIdx number).foldlM (fun s (text, number) => s.line text number) s

/-- The rules read, unless a block is open. -/
def finish (s : Reader) : Except RuleFileError (List Rule) :=
  match s.blocks with
  | [] => .ok s.rules.reverse
  | b :: _ => .error ⟨b.line, .unterminatedBlock⟩

end Reader

end RuleFile

/-- The rules of a rule file. -/
def readRules (text : List Char) : Except RuleFileError (List Rule) := do
  (← RuleFile.Reader.start.lines (RuleFile.splitLines text) 1).finish

end TokenEdit
