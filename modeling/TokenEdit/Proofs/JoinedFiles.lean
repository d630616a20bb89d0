import TokenEdit.Proofs.RuleReading

/-!
# Rule files written one behind the other

A rule file that can be read leaves nothing open at its end.  What is written behind it is
therefore read as if it stood alone, with other line numbers: the rules of both files follow each
other, and a fault of the second file is the fault of both, each as many lines further down as the
first file is long.

Nothing that a reader holds depends on its line numbers, besides the numbers that it passes on.  So
the reader of the second file behind the first one is the reader of the second file alone, with the
first rules below its own and with every number moved (`Reader.behind`).  One line keeps this
(`Reader.line_behind`), whatever it does and also when it is a fault, hence all lines do.

* `splitLines_append`: the lines of two texts.
* `Rule.moveDown`: a rule, with the rules below it, some lines further down.
* `readRules_append_moves_lines_down`: the rules and the faults of two files.
-/

namespace TokenEdit

/-! ## Numbers moved down -/

namespace Rule

mutual

/-- A rule that starts `count` lines further down, as do all rules below it. -/
def moveDown (count : Nat) : Rule → Rule
  | ⟨pattern, template, followUps, line⟩ =>
    ⟨pattern, template, moveAllDown count followUps, line + count⟩

/-- Rules that start `count` lines further down, as do all rules below them. -/
def moveAllDown (count : Nat) : List Rule → List Rule
  | [] => []
  | r :: rs => r.moveDown count :: moveAllDown count rs

end

theorem moveAllDown_eq_map (count : Nat) (rs : List Rule) :
    moveAllDown count rs = rs.map (moveDown count) := by
  induction rs with
  | nil => rfl
  | cons r rs ih => rw [moveAllDown, ih, List.map_cons]

end Rule

/-- A fault that shows `count` lines further down. -/
def RuleFileError.moveDown (count : Nat) (e : RuleFileError) : RuleFileError :=
  { e with line := e.line + count }

namespace RuleFile

/-! ## Lines of two texts -/

theorem splitLinesFrom_append {cs : List Char} (h : cs.getLast? = some '\n')
    (seen more : List Char) :
    splitLinesFrom seen (cs ++ more) = splitLinesFrom seen cs ++ splitLines more := by
  induction cs generalizing seen with
  | nil => exact absurd h (by simp)
  | cons c cs ih =>
    rw [List.cons_append, splitLinesFrom, splitLinesFrom]
    cases cs with
    | nil =>
      obtain rfl : c = '\n' := Option.some.inj h
      rfl
    | cons c' cs =>
      rw [List.getLast?_cons_cons] at h
      by_cases hc : c = '\n'
      · rw [if_pos hc, if_pos hc, ih h, List.cons_append]
      · rw [if_neg hc, if_neg hc, ih h]

/-- The lines of a text and of another one behind it, when no line goes across. -/
theorem splitLines_append {text : List Char} (h : text = [] ∨ text.getLast? = some '\n')
    (more : List Char) : splitLines (text ++ more) = splitLines text ++ splitLines more := by
  rcases h with rfl | h
  · rfl
  · exact splitLinesFrom_append h [] more

/-! ## Readers behind other lines -/

/-- An answer for lines that stand `count` lines further down: a result is turned into another one,
and a fault is moved. -/
def movedAnswer {α β : Type} (count : Nat) (f : α → β) :
    Except RuleFileError α → Except RuleFileError β
  | .ok a => .ok (f a)
  | .error e => .error (e.moveDown count)

/-- Two steps, of which both are moved. -/
theorem movedAnswer_bind {α β α' β' : Type} {count : Nat} {f : α → α'} {g : β → β'}
    {next : α → Except RuleFileError β} {next' : α' → Except RuleFileError β'}
    (h : ∀ a, next' (f a) = movedAnswer count g (next a)) (x : Except RuleFileError α) :
    movedAnswer count f x >>= next' = movedAnswer count g (x >>= next) := by
  cases x with
  | error e => rfl
  | ok a => exact h a

/-- A block that is opened `count` lines further down. -/
def Block.moveDown (count : Nat) (b : Block) : Block :=
  { b with line := b.line + count, followUps := b.followUps.map (Rule.moveDown count) }

theorem Block.close_moveDown (count : Nat) (b : Block) :
    (b.moveDown count).close = movedAnswer count (Rule.moveDown count) b.close := by
  have hpattern : (b.moveDown count).patternLines = b.patternLines := rfl
  rw [close, close, hpattern]
  cases Pattern.ofText (sectionText b.patternLines) with
  | error e => rfl
  | ok pattern =>
    simp only [movedAnswer, Rule.moveDown, Rule.moveAllDown_eq_map, List.map_reverse]
    rfl

namespace Reader

/-- A reader that stands `count` lines further down, behind the rules `before`. -/
def behind (before : List Rule) (count : Nat) (s : Reader) : Reader :=
  { rules := s.rules.map (Rule.moveDown count) ++ before
    blocks := s.blocks.map (Block.moveDown count) }

variable (before : List Rule) (count : Nat)

theorem add_behind (rules : List Rule) (r : Rule) (blocks : List Block) :
    add (rules.map (Rule.moveDown count) ++ before) (r.moveDown count)
        (blocks.map (Block.moveDown count)) =
      (add rules r blocks).behind before count := by
  cases blocks <;> rfl

/-- **A line does the same further down**, and it is a fault there if it is one. -/
theorem line_behind (s : Reader) (text : List Char) (number : Nat) :
    (s.behind before count).line text (number + count) =
      movedAnswer count (behind before count) (s.line text number) := by
  obtain ⟨rules, blocks⟩ := s
  cases blocks with
  | nil =>
    cases hkind : LineKind.ofLine text <;> simp only [behind, List.map_nil, line, hkind] <;> rfl
  | cons b outer =>
    cases hkind : LineKind.ofLine text <;> simp only [behind, List.map_cons, line, hkind]
    case opener => rfl
    case closer =>
      rw [Block.close_moveDown]
      refine movedAnswer_bind (fun r => ?_) b.close
      exact congrArg Except.ok (add_behind before count rules r outer)
    -- the other lines ask for the part that is being read, which has not moved
    all_goals
      have hpart : (b.moveDown count).part = b.part := rfl
      rw [hpart]
      cases b.part <;> rfl

theorem lines_behind (s : Reader) (texts : List (List Char)) (number : Nat) :
    (s.behind before count).lines texts (number + count) =
      movedAnswer count (behind before count) (s.lines texts number) := by
  induction texts generalizing s number with
  | nil => rfl
  | cons text texts ih =>
    rw [lines_cons, lines_cons, line_behind]
    refine movedAnswer_bind (fun s' => ?_) (s.line text number)
    rw [Nat.add_right_comm]
    exact ih s' (number + 1)

theorem finish_behind (s : Reader) :
    (s.behind before count).finish =
      movedAnswer count (fun rules => before.reverse ++ rules.map (Rule.moveDown count))
        s.finish := by
  obtain ⟨rules, blocks⟩ := s
  cases blocks with
  | nil => simp [behind, finish, movedAnswer]
  | cons b outer => rfl

end Reader

/-! ## Two files -/

/-- A file that is read leaves no block open. -/
theorem lines_eq_of_readRules {text : List Char} {rules : List Rule}
    (h : readRules text = .ok rules) :
    Reader.start.lines (splitLines text) 1 = .ok ⟨rules.reverse, []⟩ := by
  obtain ⟨⟨read, blocks⟩, hlines, hfinish⟩ := exists_of_bind_eq_ok h
  cases blocks with
  | nil =>
    obtain rfl : read.reverse = rules := Except.ok.inj hfinish
    rw [hlines, List.reverse_reverse]
  | cons b outer => exact absurd hfinish (by simp [Reader.finish])

/-- **Rule files can be written one behind the other.**  Let a text be empty or end with a line
feed, and let it be read.  Whatever is written behind it, the rules of the second text follow those
of the first, and a fault of the second text is the fault of both; the lines of these rules, at
every depth, and the line of the fault are moved down by the number of lines of the first text. -/
theorem readRules_append_moves_lines_down {text : List Char}
    (hend : text = [] ∨ text.getLast? = some '\n') {before : List Rule}
    (h : readRules text = .ok before) (more : List Char) :
    (∀ rules, readRules more = .ok rules →
        readRules (text ++ more) =
          .ok (before ++ rules.map (Rule.moveDown (splitLines text).length))) ∧
      ∀ e, readRules more = .error e →
        readRules (text ++ more) = .error ⟨e.line + (splitLines text).length, e.fault⟩ := by
  have hstart : Reader.start.behind before.reverse (splitLines text).length =
      ⟨before.reverse, []⟩ := rfl
  have hread : readRules (text ++ more) = movedAnswer (splitLines text).length
      (fun rules => before ++ rules.map (Rule.moveDown (splitLines text).length))
      (readRules more) := by
    rw [readRules, readRules, splitLines_append hend,
      Reader.lines_append_of_eq (lines_eq_of_readRules h), ← hstart, Reader.lines_behind]
    refine movedAnswer_bind (fun s => ?_) (Reader.start.lines (splitLines more) 1)
    rw [Reader.finish_behind, List.reverse_reverse]
  refine ⟨fun rules hmore => ?_, fun e hmore => ?_⟩
  · rw [hread, hmore]
    rfl
  · rw [hread, hmore]
    rfl

/-- A file with a block below a block, written twice, and the same file with a line behind it that
may not stand there. -/
theorem readRules_append_of_nested_blocks :
    let text := ["@@\x7b", "a", "@@\x7b", "b", "\x7d@@", "\x7d@@"].flatMap fun line =>
      line.toList ++ ['\n']
    ∃ rules, readRules text = .ok rules ∧
      readRules (text ++ text) = .ok (rules ++ rules.map (Rule.moveDown 6)) ∧
      readRules (text ++ "x ".toList) = .error ⟨7, .unexpectedLine ['x']⟩ := by
  intro text
  have hend : text = [] ∨ text.getLast? = some '\n' := .inr (by decide)
  have hlength : (splitLines text).length = 6 := by decide
  have hx : readRules "x ".toList = .error ⟨1, .unexpectedLine ['x']⟩ := rfl
  have hread : (readRules text).isOk = true := by decide +kernel
  cases hrules : readRules text with
  | error e =>
    rw [hrules] at hread
    exact absurd hread (by simp [Except.isOk, Except.toBool])
  | ok rules =>
    have htwice := (readRules_append_moves_lines_down hend hrules text).1 rules hrules
    have hfault := (readRules_append_moves_lines_down hend hrules _).2 _ hx
    rw [hlength] at htwice hfault
    exact ⟨rules, rfl, htwice, hfault⟩

end RuleFile

end TokenEdit
