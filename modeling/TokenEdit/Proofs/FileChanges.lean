import TokenEdit.Command.Arguments
import TokenEdit.Command.Run
import TokenEdit.Proofs.TreePaths

/-!
# What a run changes

A run reads all that it needs before it writes, and it writes at most one file.  So it either does
what it was asked for, or it leaves all files as they were and prints nothing but a message.  It
does not matter if the file that is written is one of those that were read.

The files are those of a `FileTree`.  That reading leaves a tree as it is is said of every reader,
together with what it answers (`FileTree.Reads`).  A write that is refused leaves the tree as it is
as well (`FileTree.written_or_refused`).  How arguments are read is of no concern: what holds of
every request holds of every program that makes requests of its arguments.

* `Request.Makes`: the text that a request asks for.
* `Request.Changes`, `Request.changes_of_perform`: what a request may do, in two cases.
* `program_all_or_nothing`: the changes of a run.
-/

namespace TokenEdit

namespace FileTree

/-! ## Reading -/

/-- The text of the file that a path stands for. -/
def textAt (tree : FileTree) (path : Path) : Except FileFault (List Char) :=
  tree.read path >>= decodeText

/-- The action leaves the tree as it is, and its answer is as `P` says. -/
def Reads {α : Type} (tree : FileTree) (action : StateM FileTree α) (P : α → Prop) : Prop :=
  ∃ answer, action.run tree = (answer, tree) ∧ P answer

section Reads

variable {α β : Type} {tree : FileTree}

theorem run_bind_of_run {action : StateM FileTree α} {next : α → StateM FileTree β} {a : α}
    {tree' : FileTree} (h : action.run tree = (a, tree')) :
    (action >>= next).run tree = (next a).run tree' := by
  rw [StateT.run_bind, h]
  rfl

theorem Reads.pure {P : α → Prop} {answer : α} (h : P answer) :
    tree.Reads (Pure.pure answer) P :=
  ⟨answer, rfl, h⟩

theorem Reads.bind {action : StateM FileTree α} {next : α → StateM FileTree β} {P : α → Prop}
    {Q : β → Prop} (haction : tree.Reads action P) (hnext : ∀ a, P a → tree.Reads (next a) Q) :
    tree.Reads (action >>= next) Q := by
  obtain ⟨a, hrun, ha⟩ := haction
  obtain ⟨b, hrun', hb⟩ := hnext a ha
  exact ⟨b, (run_bind_of_run hrun).trans hrun', hb⟩

theorem reads_readText (path : Path) :
    tree.Reads (store.readText path) fun result => result = tree.textAt path :=
  ⟨_, rfl, rfl⟩

/-- The rules that are read are those of the file. -/
theorem reads_readRules (path : Path) :
    tree.Reads (store.readRules path) fun result => ∀ rules, result = .ok rules →
      ∃ text, tree.textAt path = .ok text ∧ readRules text = .ok rules := by
  rw [FileStore.readRules]
  refine (reads_readText path).bind ?_
  rintro _ rfl
  cases htext : tree.textAt path with
  | error fault => exact .pure nofun
  | ok text => exact .pure fun rules h => ⟨text, rfl, eq_ok_of_mapError h⟩

/-- The text of a source: that of a file, or else what is piped in. -/
inductive SourceText (tree : FileTree) : Option ByteArray → Option Path → List Char → Prop
  | file {piped : Option ByteArray} {path : Path} {text : List Char}
    (h : tree.textAt path = .ok text) : SourceText tree piped (some path) text
  | piped {bytes : ByteArray} {text : List Char} (h : decodeText bytes = .ok text) :
    SourceText tree (some bytes) none text

theorem reads_readSource {piped : Option ByteArray} {input : Option Path} {source : Source}
    (hsource : pickSource input piped = .ok (some source)) :
    tree.Reads (store.readSource source) fun result => ∀ text, result = .ok text →
      tree.SourceText piped input text := by
  cases input with
  | some path =>
    obtain rfl : Source.file path = source := Option.some.inj (Except.ok.inj hsource)
    refine (reads_readText path).bind ?_
    rintro _ rfl
    exact .pure fun text h => .file (eq_ok_of_mapError h)
  | none =>
    cases piped with
    | none => exact absurd hsource nofun
    | some bytes =>
      rw [pickSource] at hsource
      split at hsource
      case h_1 cs hdecoded =>
        obtain rfl : Source.text cs = source := Option.some.inj (Except.ok.inj hsource)
        refine .pure fun text h => .piped ?_
        rw [hdecoded, Except.ok.inj h]
      case h_2 => exact absurd hsource nofun

/-- What has been read for an application is what stands in the tree. -/
structure Loads (tree : FileTree) (piped : Option ByteArray) (input : Option Path)
    (a : Application) (loaded : Application.Loaded) : Prop where
  path : a.rules = some loaded.path
  rules : ∃ text, tree.textAt loaded.path = .ok text ∧ readRules text = .ok loaded.rules
  source : tree.SourceText piped input loaded.source

theorem reads_load {piped : Option ByteArray} {input : Option Path} {a : Application}
    (hsource : pickSource input piped = .ok a.source) :
    tree.Reads (a.load store) fun result => ∀ loaded, result = .ok loaded →
      tree.Loads piped input a loaded := by
  obtain ⟨rules, source, output⟩ := a
  rw [Application.load]
  cases rules with
  | none => exact .pure nofun
  | some path =>
    cases source with
    | none => exact .pure nofun
    | some source =>
      refine (reads_readRules path).bind fun rulesResult hrules => ?_
      cases rulesResult with
      | error e => exact .pure nofun
      | ok rules =>
        refine (reads_readSource hsource).bind fun sourceResult hsource => ?_
        cases sourceResult with
        | error e => exact .pure nofun
        | ok source =>
          refine .pure ?_
          rintro loaded h
          rw [← Except.ok.inj h]
          exact ⟨rfl, hrules rules rfl, hsource source rfl⟩

end Reads

/-! ## Writing -/

/-- The tree after a content has been written under a path. -/
def Written (tree : FileTree) (path : Path) (content : ByteArray) (tree' : FileTree) : Prop :=
  ∃ place, tree.target path = .ok place ∧ tree' = tree.put place content

/-- A write that is refused leaves the tree as it is. -/
theorem written_or_refused (tree : FileTree) (path : Path) (content : ByteArray) :
    (∃ tree', (store.write path content).run tree = (.ok (), tree') ∧
        tree.Written path content tree') ∨
      ∃ fault, (store.write path content).run tree = (.error fault, tree) := by
  simp only [store, StateT.run_bind, StateT.run_get, pure_bind]
  cases htarget : tree.target path with
  | error fault => exact .inr ⟨fault, rfl⟩
  | ok place => exact .inl ⟨tree.put place content, rfl, place, htarget, rfl⟩

end FileTree

/-! ## Runs -/

open FileTree

section Runs

variable {fuel : Nat} {piped : Option ByteArray} {tree tree' : FileTree}

/-- A result is written, or the tree stays as it is. -/
theorem Application.writeOutput_cases (a : Application) (tree : FileTree) (text : List Char) :
    ∃ result tree', (a.writeOutput store text).run tree = (result, tree') ∧
      (tree' = tree ∧ (result = .ok () → a.output = none) ∨
        result = .ok () ∧ ∃ path, a.output = some path ∧
          tree.Written path (encodeText text) tree') := by
  rw [writeOutput]
  cases houtput : a.output with
  | none => exact ⟨.ok (), tree, rfl, .inl ⟨rfl, fun _ => rfl⟩⟩
  | some path =>
    simp only
    obtain ⟨tree', hwrite, hwritten⟩ | ⟨fault, hwrite⟩ :=
      written_or_refused tree path (encodeText text)
    · exact ⟨.ok (), tree', run_bind_of_run hwrite, .inr ⟨rfl, path, rfl, hwritten⟩⟩
    · exact ⟨.error (.write path fault), tree, run_bind_of_run hwrite, .inl ⟨rfl, nofun⟩⟩

/-- **An application changes nothing, or it has written what it was to write.** -/
theorem Application.execute_cases {a : Application} {input : Option Path}
    (hsource : pickSource input piped = .ok a.source)
    {answer : Option (List LogEntry × Except CommandError Applied)}
    (h : (a.execute store fuel).run tree = (answer, tree')) :
    (tree' = tree ∧ ∀ log applied, answer = some (log, .ok applied) → a.output = none) ∨
      ∃ path loaded log applied, a.output = some path ∧ tree.Loads piped input a loaded ∧
        editText fuel loaded.rules loaded.source = some applied.text ∧
        answer = some (log, .ok applied) ∧ applied.writtenTo = some path ∧
        tree.Written path (encodeText applied.text) tree' := by
  obtain ⟨result, hload, hloaded⟩ : tree.Reads (a.load store) _ := reads_load hsource
  rw [execute, run_bind_of_run hload] at h
  cases result with
  | error e =>
    obtain ⟨rfl, rfl⟩ := Prod.mk.inj (h : (some ([], .error e), tree) = (answer, tree'))
    exact .inl ⟨rfl, nofun⟩
  | ok loaded =>
    cases hdraft : (Draft.ofTokens (tokenize loaded.source)).applyRules fuel loaded.rules with
    | none =>
      simp only [hdraft] at h
      obtain ⟨rfl, rfl⟩ := Prod.mk.inj (h : (none, tree) = (answer, tree'))
      exact .inl ⟨rfl, nofun⟩
    | some draft =>
      obtain ⟨result, written, hwrite, hcases⟩ := a.writeOutput_cases tree draft.text
      simp only [hdraft, run_bind_of_run hwrite] at h
      obtain ⟨rfl, rfl⟩ := Prod.mk.inj h
      obtain ⟨rfl, houtput⟩ | ⟨rfl, path, houtput, hwritten⟩ := hcases
      · refine .inl ⟨rfl, fun log applied h => houtput ?_⟩
        cases result with
        | error e => exact absurd h nofun
        | ok _ => rfl
      · have htext : editText fuel loaded.rules loaded.source = some draft.text := by
          rw [editText, hdraft, Option.map_some]
        exact .inr ⟨path, loaded, _, _, houtput, hloaded loaded rfl, htext, rfl, houtput, hwritten⟩

namespace Request

/-- The file that is to be written. -/
def outputPath? (request : Request) : Option Path :=
  match request.command with
  | .apply _ _ output _ => output
  | .check _ | .tokens _ _ | .docs | .doc _ => none

/-- The text that is asked for: what the rules of a file make of a source, both taken from the tree
as it is. -/
inductive Makes (fuel : Nat) (piped : Option ByteArray) (tree : FileTree) :
    Request → List Char → Prop
  | apply {verbosity : Nat} {path : Path} {input output : Option Path} {report : Bool}
    {ruleText source text : List Char} {rules : List Rule}
    (hread : tree.textAt path = .ok ruleText) (hrules : readRules ruleText = .ok rules)
    (hsource : tree.SourceText piped input source)
    (htext : editText fuel rules source = some text) :
    Makes fuel piped tree ⟨verbosity, .apply (some path) input output report⟩ text

/-- What a request may do to files and output. -/
inductive Changes (fuel : Nat) (piped : Option ByteArray) (tree : FileTree) (request : Request) :
    Option Outcome → FileTree → Prop
  /-- The files stay as they are. -/
  | nothing {answer : Option Outcome}
    (hfailed : ∀ outcome, answer = some outcome → outcome.exit ≠ 0 → outcome.output = "")
    (hdone : ∀ outcome, answer = some outcome → outcome.exit = 0 → request.outputPath? = none) :
    Changes fuel piped tree request answer tree
  /-- The text that was asked for is written, and nothing is printed. -/
  | written {outcome : Outcome} {path : Path} {text : List Char} {tree' : FileTree}
    (hexit : outcome.exit = 0) (houtput : outcome.output = "")
    (hpath : request.outputPath? = some path) (hmakes : request.Makes fuel piped tree text)
    (hwritten : tree.Written path (encodeText text) tree') :
    Changes fuel piped tree request (some outcome) tree'

end Request

theorem Outcome.output_ofExcept {α : Type} {output : α → String} {result : Except CommandError α}
    (h : (ofExcept output result).exit ≠ 0) : (ofExcept output result).output = "" := by
  cases result with
  | error e => rfl
  | ok a => exact absurd rfl h

theorem reads_checkRules (tree : FileTree) (path : Path) :
    tree.Reads (checkRules store path) fun _ => True :=
  (reads_readRules path).bind fun _ _ => .pure trivial

theorem reads_runTokens (tree : FileTree) (input : Option Path) (format : ListingFormat) :
    tree.Reads (runTokens store piped input format) fun outcome =>
      outcome.exit ≠ 0 → outcome.output = "" := by
  rw [runTokens]
  cases hsource : pickSource input piped with
  | error e => exact .pure fun _ => rfl
  | ok source =>
    cases source with
    | none => exact .pure fun _ => rfl
    | some source => exact (reads_readSource hsource).bind fun _ _ => .pure Outcome.output_ofExcept

namespace Request

theorem Changes.of_reads {request : Request} {action : StateM FileTree (Option Outcome)}
    {answer : Option Outcome} (hpath : request.outputPath? = none)
    (hreads : tree.Reads action fun answer =>
      ∀ outcome, answer = some outcome → outcome.exit ≠ 0 → outcome.output = "")
    (h : action.run tree = (answer, tree')) : request.Changes fuel piped tree answer tree' := by
  obtain ⟨answer, hrun, hfailed⟩ := hreads
  obtain ⟨rfl, rfl⟩ := Prod.mk.inj (hrun.symm.trans h)
  exact .nothing hfailed fun _ _ _ => hpath

/-- A failure, or a success when nothing was to be written. -/
theorem Changes.of_result {request : Request} {outcome : Outcome}
    (result : Except CommandError Applied)
    (hexit : outcome.exit = (Outcome.ofExcept Applied.output result).exit)
    (houtput : outcome.output = (Outcome.ofExcept Applied.output result).output)
    (hdone : ∀ applied, result = .ok applied → request.outputPath? = none) :
    request.Changes fuel piped tree (some outcome) tree := by
  refine .nothing ?_ ?_
  · rintro _ ⟨⟩ hfailed
    rw [houtput]
    exact Outcome.output_ofExcept (hexit ▸ hfailed)
  · rintro _ ⟨⟩ hsuccess
    cases result with
    | error e => exact absurd (hexit.symm.trans hsuccess) Nat.one_ne_zero
    | ok applied => exact hdone applied rfl

/-- What is printed about an application that has been carried out. -/
theorem run_runApply {verbosity : Nat} {path : Path} {input output : Option Path}
    {report : Bool} {source : Option Source} (hsource : pickSource input piped = .ok source)
    {executed : Option (List LogEntry × Except CommandError Applied)}
    (hexecute : (Application.execute store fuel ⟨some path, source, output⟩).run tree =
      (executed, tree')) :
    ∃ answer, (runApply store fuel verbosity piped (some path) input output report).run tree =
        (answer, tree') ∧
      (executed = none ∧ answer = none ∨
        ∃ log result outcome, executed = some (log, result) ∧ answer = some outcome ∧
          outcome.exit = (Outcome.ofExcept Applied.output result).exit ∧
          outcome.output = (Outcome.ofExcept Applied.output result).output) := by
  simp only [runApply, hsource]
  cases executed with
  | none => exact ⟨none, run_bind_of_run hexecute, .inl ⟨rfl, rfl⟩⟩
  | some logged =>
    obtain ⟨log, result⟩ := logged
    exact ⟨_, run_bind_of_run hexecute, .inr ⟨log, result, _, rfl, rfl, rfl, rfl⟩⟩

theorem changes_apply {verbosity : Nat} {rules input output : Option Path} {report : Bool}
    {answer : Option Outcome}
    (h : (runApply store fuel verbosity piped rules input output report).run tree =
      (answer, tree')) :
    Changes fuel piped tree ⟨verbosity, .apply rules input output report⟩ answer tree' := by
  have hfailure : ∀ e, Changes fuel piped tree
      ⟨verbosity, .apply rules input output report⟩ (some (.failure e)) tree :=
    fun e => .of_result (.error e) rfl rfl nofun
  cases rules with
  | none =>
    obtain ⟨rfl, rfl⟩ := Prod.mk.inj (h : (some (.failure .noRuleFile), tree) = (answer, tree'))
    exact hfailure _
  | some path =>
    cases hsource : pickSource input piped with
    | error e =>
      simp only [runApply, hsource] at h
      obtain ⟨rfl, rfl⟩ := Prod.mk.inj (h : (some (.failure e), tree) = (answer, tree'))
      exact hfailure e
    | ok source =>
      cases hexecute : (Application.execute store fuel ⟨some path, source, output⟩).run tree with
      | mk executed tree₁ =>
        obtain ⟨answer, hrun, hanswer⟩ := run_runApply hsource hexecute
        obtain ⟨rfl, rfl⟩ := Prod.mk.inj (hrun.symm.trans h)
        obtain ⟨rfl, hdone⟩ |
            ⟨out, loaded, log, applied, hout, hloads, htext, rfl, hto, hwritten⟩ :=
          Application.execute_cases hsource hexecute
        · obtain ⟨-, rfl⟩ | ⟨log, result, outcome, rfl, rfl, hexit, houtput⟩ := hanswer
          · exact .nothing nofun nofun
          · exact .of_result result hexit houtput fun applied h => hdone log applied (by rw [h])
        · obtain ⟨hnone, -⟩ | ⟨_, _, outcome, ⟨⟩, rfl, hexit, houtput⟩ := hanswer
          · exact absurd hnone nofun
          · obtain ⟨ruleText, hread, hrules⟩ := hloads.rules
            have hpath : path = loaded.path := Option.some.inj hloads.path
            have hprinted : applied.output = "" := by
              rw [Applied.output, hto]
              rfl
            refine .written hexit (houtput.trans hprinted) hout ?_ hwritten
            rw [hpath]
            exact .apply hread hrules hloads.source htext

/-- **A request changes nothing, or it has written what it was to write.** -/
theorem changes_of_perform {request : Request} {answer : Option Outcome}
    (h : (request.perform store fuel piped).run tree = (answer, tree')) :
    request.Changes fuel piped tree answer tree' := by
  obtain ⟨verbosity, command⟩ := request
  cases command with
  | apply rules input output report => exact changes_apply h
  | check rules =>
    refine .of_reads rfl ((reads_checkRules tree rules).bind fun _ _ => .pure ?_) h
    rintro _ ⟨⟩
    exact Outcome.output_ofExcept
  | tokens input format =>
    refine .of_reads rfl ((reads_runTokens tree input format).bind fun _ hfailed => .pure ?_) h
    rintro _ ⟨⟩
    exact hfailed
  | docs =>
    refine .of_reads rfl (.pure ?_) h
    rintro _ ⟨⟩ hexit
    exact absurd rfl hexit
  | doc topic =>
    refine .of_reads rfl (.pure ?_) h
    rintro _ ⟨⟩
    exact Outcome.output_ofExcept

end Request

end Runs

/-- **A run does all that it is asked for, or nothing.**  Whatever reads the arguments, take a run
for arguments that ask for a command.  When the program fails, it prints nothing but its message,
and all files stay as they were.  When it does not, and was not to write a file, the files stay as
they were as well.  When it was to write a file, it prints nothing; under the path of that file
there is then what the rules make of the source, both read before anything was written, while all
other files and all directories are as they were, and every path leads where it led.  An attempt
that was given too few steps changes nothing either. -/
theorem program_all_or_nothing {Argument : Type} {parse : List Argument → Except Outcome Request}
    {arguments : List Argument} {request : Request} {fuel : Nat} {piped : Option ByteArray}
    {tree tree' : FileTree} {outcome : Outcome} (haccepted : parse arguments = .ok request)
    (hrun : (runProgram parse store fuel arguments piped).run tree = (some outcome, tree')) :
    (outcome.exit ≠ 0 → outcome.output = "" ∧ tree' = tree) ∧
      (outcome.exit = 0 → request.outputPath? = none → tree' = tree) ∧
      (outcome.exit = 0 → ∀ path, request.outputPath? = some path →
        outcome.output = "" ∧ ∃ text place, request.Makes fuel piped tree text ∧
          tree.target path = .ok place ∧ tree'.read path = .ok (encodeText text) ∧
          (∀ l, tree'.get? l = if l = place then some (encodeText text) else tree.get? l) ∧
          (∀ d, tree'.isDirectory d = tree.isDirectory d) ∧
          ∀ other l, tree.locate other = .ok l → tree'.locate other = .ok l) ∧
      ∀ lessFuel tree₁,
        (runProgram parse store lessFuel arguments piped).run tree = (none, tree₁) →
          tree₁ = tree := by
  have hperform : ∀ fuel,
      runProgram parse store fuel arguments piped = request.perform store fuel piped := by
    intro fuel
    rw [runProgram, haccepted]
  have hunfinished : ∀ lessFuel tree₁,
      (runProgram parse store lessFuel arguments piped).run tree = (none, tree₁) →
        tree₁ = tree := by
    intro lessFuel tree₁ h
    rw [hperform] at h
    cases Request.changes_of_perform h with
    | nothing => rfl
  rw [hperform] at hrun
  cases Request.changes_of_perform hrun with
  | nothing hfailed hdone =>
    refine ⟨fun hexit => ⟨hfailed outcome rfl hexit, rfl⟩, fun _ _ => rfl, ?_, hunfinished⟩
    intro hexit path hpath
    exact absurd ((hdone outcome rfl hexit).symm.trans hpath) nofun
  | written hexit houtput hpath hmakes hwritten =>
    refine ⟨absurd hexit, fun _ hnone => absurd (hnone.symm.trans hpath) nofun, ?_, hunfinished⟩
    rintro - path hpath'
    obtain rfl := Option.some.inj (hpath.symm.trans hpath')
    obtain ⟨place, htarget, rfl⟩ := hwritten
    have hfits := fits_of_target htarget
    exact ⟨houtput, _, place, hmakes, htarget, read_put_of_target htarget _,
      fun l => get?_put tree place l _, isDirectory_put hfits _,
      fun _ _ hlocate => locate_put hlocate hfits _⟩

/-- A tree with a file of rules in the current directory, which is `/w`. -/
def ruleTree : FileTree where
  files := [([[0x77], [0x72]], encodeText "@@\x7b\na\n=>\nb\n\x7d@@\n".toList)]
  directories := [[[0x77], [0x73]]]
  current := [[0x77]]

/-- Rules applied to their own file, which is named in three ways. -/
theorem program_all_or_nothing_on_own_rules :
    let arguments := ["apply", "--patch", "s/../r", "--in", "/w/r", "--out", "../../w/./r"]
    let path := Path.ofString "../../w/./r"
    let request : Request :=
      ⟨0, .apply (some (.ofString "s/../r")) (some (.ofString "/w/r")) (some path) false⟩
    Request.ofArguments arguments = .ok request ∧
      ∃ text tree', (runProgram Request.ofArguments store 100 arguments none).run ruleTree =
          (some (.success ""), tree') ∧
        request.Makes 100 none ruleTree text ∧ tree'.read path = .ok (encodeText text) ∧
        tree'.get? [[0x77], [0x72]] =
          some (encodeText "@@\x7b\nb\n=>\nb\n\x7d@@\n".toList) := by
  intro arguments path request
  have haccepted : Request.ofArguments arguments = .ok request := rfl
  have hrun : (runProgram Request.ofArguments store 100 arguments none).run ruleTree =
      (some (.success ""),
        ((runProgram Request.ofArguments store 100 arguments none).run ruleTree).2) :=
    Prod.ext (by decide +kernel) rfl
  obtain ⟨-, -, hwritten, -⟩ := program_all_or_nothing haccepted hrun
  obtain ⟨-, text, place, hmakes, htarget, hread, -⟩ := hwritten rfl path rfl
  exact ⟨haccepted, text, _, hrun, hmakes, hread, by decide +kernel⟩

end TokenEdit
