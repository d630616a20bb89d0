import TokenEdit.Proofs.RuleReading

/-!
# A rule for every opening line

A rule is numbered by the line that opens its block.  In the lines of a block its own opening line
comes first and the blocks below it follow each other, so the numbers of a rule and of all rules
below it, a rule before those below it, are the numbers of the opening lines from the first to the
last.

With the reader and the grammar compared, this says all about the rules of a file:
`readRules_exact`.
-/

namespace TokenEdit

namespace Rule

mutual

/-- The lines of a rule and of the rules below it, each rule before those below it. -/
def lineNumbers : Rule → List Nat
  | ⟨_, _, followUps, line⟩ => line :: lineNumbersOfAll followUps

/-- The lines of rules and of the rules below them. -/
def lineNumbersOfAll : List Rule → List Nat
  | [] => []
  | r :: rs => r.lineNumbers ++ lineNumbersOfAll rs

end

mutual

theorem length_lineNumbers : ∀ r : Rule, r.lineNumbers.length = 1 + r.nestedCount
  | ⟨_, _, followUps, _⟩ => by
    rw [lineNumbers, List.length_cons, length_lineNumbersOfAll followUps, nestedCount, Nat.add_comm]

theorem length_lineNumbersOfAll : ∀ rs : List Rule, (lineNumbersOfAll rs).length = sizeOfAll rs
  | [] => rfl
  | r :: rs => by
    rw [lineNumbersOfAll, List.length_append, length_lineNumbers r, length_lineNumbersOfAll rs,
      sizeOfAll]

end

end Rule

namespace RuleFile

/-! ## Opening lines -/

/-- The numbers of the lines that open blocks, when the first line has the given number. -/
def openingNumbers (number : Nat) (lines : List (List Char)) : List Nat :=
  ((lines.zipIdx number).filter fun line => Opens line.1).map Prod.snd

theorem openingNumbers_append (number : Nat) (left right : List (List Char)) :
    openingNumbers number (left ++ right) =
      openingNumbers number left ++ openingNumbers (number + left.length) right := by
  simp only [openingNumbers, List.zipIdx_append, List.filter_append, List.map_append]

theorem openingNumbers_cons_of_opens {line : List Char} (h : Opens line) (number : Nat)
    (lines : List (List Char)) :
    openingNumbers number (line :: lines) = number :: openingNumbers (number + 1) lines := by
  simp [openingNumbers, List.zipIdx_cons, h]

theorem openingNumbers_cons_of_not_opens {line : List Char} (h : ¬ Opens line) (number : Nat)
    (lines : List (List Char)) :
    openingNumbers number (line :: lines) = openingNumbers (number + 1) lines := by
  simp [openingNumbers, List.zipIdx_cons, h]

theorem openingNumbers_eq_nil {lines : List (List Char)} (h : ∀ line ∈ lines, ¬ Opens line)
    (number : Nat) : openingNumbers number lines = [] := by
  induction lines generalizing number with
  | nil => rfl
  | cons line lines ih =>
    obtain ⟨hline, hlines⟩ := List.forall_mem_cons.1 h
    rw [openingNumbers_cons_of_not_opens hline, ih hlines]

theorem pairwise_openingNumbers (number : Nat) (lines : List (List Char)) :
    (openingNumbers number lines).Pairwise (· < ·) := by
  have hsublist : (openingNumbers number lines).Sublist ((lines.zipIdx number).map Prod.snd) :=
    List.filter_sublist.map Prod.snd
  rw [List.zipIdx_map_snd] at hsublist
  exact List.Pairwise.sublist hsublist List.pairwise_lt_range'

theorem length_openingNumbers (number : Nat) (lines : List (List Char)) :
    (openingNumbers number lines).length = lines.countP fun line => Opens line := by
  induction lines generalizing number with
  | nil => rfl
  | cons line lines ih =>
    by_cases hline : Opens line
    · rw [openingNumbers_cons_of_opens hline, List.length_cons, ih,
        List.countP_cons_of_pos (by simpa using hline)]
    · rw [openingNumbers_cons_of_not_opens hline, ih,
        List.countP_cons_of_neg (by simpa using hline)]

/-! ## Numbers of rules -/

theorem Head.Grammatical.openingNumbers_lines {h : Head} (hh : h.Grammatical) (number : Nat) :
    openingNumbers number h.lines = [number] := by
  have hnone : ∀ line ∈ h.pattern ++ h.templateLines, ¬ Opens line := by
    intro line hline
    rcases List.mem_append.1 hline with hline | hline
    · exact (hh.pattern line hline).1
    · unfold templateLines at hline
      split at hline
      · exact absurd hline (by simp)
      next arrow lines htemplate =>
        obtain ⟨harrow, hlines⟩ := hh.template arrow lines htemplate
        rcases List.mem_cons.1 hline with rfl | hline
        · exact harrow.not_opens
        · exact (hlines line hline).1
  rw [lines, openingNumbers_cons_of_opens hh.opener, openingNumbers_eq_nil hnone]

namespace BlockTree

mutual

theorem lineNumbers_eq : ∀ {b : BlockTree} {number : Nat} {r : Rule}, b.Grammatical →
    b.Denotes number r → r.lineNumbers = openingNumbers number b.lines
  | ⟨head, nested, closer⟩, number, ⟨_, _, followUps, line⟩, ⟨hhead, hnested, hcloser⟩,
      hdenotes => by
    obtain ⟨hline, -, -, hbelow⟩ := hdenotes
    obtain rfl : line = number := hline
    have hcloser : ∀ l ∈ [closer], ¬ Opens l := by simpa using hcloser.not_opens
    rw [Rule.lineNumbers, lineNumbersOfAll_eq hnested hbelow, lines, openingNumbers_append,
      hhead.openingNumbers_lines, openingNumbers_append, openingNumbers_eq_nil hcloser,
      List.append_nil, List.singleton_append]

theorem lineNumbersOfAll_eq : ∀ {bs : List BlockTree} {number : Nat} {below : List Rule},
    (∀ b ∈ bs, b.Grammatical) → AllDenote number bs below →
      Rule.lineNumbersOfAll below = openingNumbers number (linesOfAll bs)
  | [], number, below, _, hbelow => by
    obtain rfl : below = [] := hbelow
    rfl
  | b :: bs, number, below, hbs, hbelow => by
    obtain ⟨r, more, rfl, hr, hmore⟩ := hbelow
    obtain ⟨hb, hbs⟩ := List.forall_mem_cons.1 hbs
    rw [Rule.lineNumbersOfAll, lineNumbers_eq hb hr, lineNumbersOfAll_eq hbs hmore, linesOfAll,
      openingNumbers_append]

end

/-- Below a rule there is a rule for every line that opens a block within its block. -/
theorem nestedCount_eq {b : BlockTree} (hb : b.Grammatical) {number : Nat} {r : Rule}
    (hr : b.Denotes number r) : 1 + r.nestedCount = b.lines.countP fun line => Opens line := by
  rw [← r.length_lineNumbers, lineNumbers_eq hb hr, length_openingNumbers]

mutual

/-- A block says a rule, on any line, when the patterns in it can be read. -/
theorem exists_denotes_iff : ∀ {b : BlockTree} {number : Nat},
    (∃ r, b.Denotes number r) ↔ b.Accepted
  | ⟨head, nested, closer⟩, number => by
    constructor
    · rintro ⟨r, -, hpattern, -, hbelow⟩
      exact .intro ⟨r.pattern, hpattern⟩ (exists_allDenote_iff.1 ⟨r.followUps, hbelow⟩)
    · rintro ⟨⟨pattern, hpattern⟩, hnested⟩
      obtain ⟨below, hbelow⟩ := exists_allDenote_iff.2 hnested
      exact ⟨⟨pattern, _, below, number⟩, rfl, hpattern, (Head.saysTemplate_iff number).2 rfl,
        hbelow⟩

theorem exists_allDenote_iff : ∀ {bs : List BlockTree} {number : Nat},
    (∃ below, AllDenote number bs below) ↔ ∀ b ∈ bs, b.Accepted
  | [], number => ⟨fun _ b hb => absurd hb (by simp), fun _ => ⟨[], rfl⟩⟩
  | b :: bs, number => by
    rw [List.forall_mem_cons]
    constructor
    · rintro ⟨below, r, more, -, hr, hmore⟩
      exact ⟨exists_denotes_iff.1 ⟨r, hr⟩, exists_allDenote_iff.1 ⟨more, hmore⟩⟩
    · rintro ⟨hb, hbs⟩
      obtain ⟨r, hr⟩ := exists_denotes_iff.2 hb
      obtain ⟨more, hmore⟩ := exists_allDenote_iff.2 hbs
      exact ⟨r :: more, r, more, rfl, hr, hmore⟩

end

end BlockTree

namespace Piece

/-- A piece in which all patterns can be read. -/
def Accepted : Piece → Prop
  | separator _ => True
  | block tree => tree.Accepted

theorem lineNumbersOfAll_eq : ∀ {file : List Piece} {number : Nat} {rules : List Rule},
    (∀ piece ∈ file, piece.Grammatical) → AllDenote number file rules →
      Rule.lineNumbersOfAll rules = openingNumbers number (file.flatMap Piece.lines)
  | [], number, rules, _, hrules => by
    obtain rfl : rules = [] := hrules
    rfl
  | separator line :: file, number, rules, hfile, hrules => by
    obtain ⟨hline, hfile⟩ := List.forall_mem_cons.1 hfile
    have hline : IsSeparator line := hline
    show _ = openingNumbers number (line :: file.flatMap Piece.lines)
    rw [openingNumbers_cons_of_not_opens hline.isSectionLine.1]
    exact lineNumbersOfAll_eq hfile hrules
  | block tree :: file, number, rules, hfile, hrules => by
    obtain ⟨r, more, rfl, hr, hmore⟩ := hrules
    obtain ⟨htree, hfile⟩ := List.forall_mem_cons.1 hfile
    rw [Rule.lineNumbersOfAll, BlockTree.lineNumbers_eq htree hr, lineNumbersOfAll_eq hfile hmore,
      List.flatMap_cons, openingNumbers_append]
    rfl

theorem exists_allDenote_iff : ∀ {file : List Piece} {number : Nat},
    (∃ rules, AllDenote number file rules) ↔ ∀ piece ∈ file, piece.Accepted
  | [], number => ⟨fun _ piece hpiece => absurd hpiece (by simp), fun _ => ⟨[], rfl⟩⟩
  | separator line :: file, number => by
    rw [List.forall_mem_cons]
    have hfile : (∃ rules, AllDenote (number + 1) file rules) ↔ ∀ piece ∈ file, piece.Accepted :=
      exists_allDenote_iff
    exact hfile.trans ⟨fun h => ⟨trivial, h⟩, fun h => h.2⟩
  | block tree :: file, number => by
    rw [List.forall_mem_cons]
    constructor
    · rintro ⟨rules, r, more, -, hr, hmore⟩
      exact ⟨BlockTree.exists_denotes_iff.1 ⟨r, hr⟩, exists_allDenote_iff.1 ⟨more, hmore⟩⟩
    · rintro ⟨htree, hfile⟩
      obtain ⟨r, hr⟩ := BlockTree.exists_denotes_iff.2 htree
      obtain ⟨more, hmore⟩ := exists_allDenote_iff.2 hfile
      exact ⟨r :: more, r, more, rfl, hr, hmore⟩

end Piece

/-- **A rule file is read exactly when its lines can be divided into separators and blocks and the
patterns of all blocks can be read.**  The division is the only one, and the rules are those that
it says; their numbers are those of the opening lines, in order. -/
theorem readRules_exact (text : List Char) :
    (∀ lines, splitLines text = lines ↔ lines.flatten = text ∧ EndAtLineFeeds lines) ∧
      ((∃ rules, readRules text = .ok rules) ↔
        ∃ file, Divides file (splitLines text) ∧ ∀ piece ∈ file, piece.Accepted) ∧
      (∀ file file', Divides file (splitLines text) → Divides file' (splitLines text) →
        file = file') ∧
      (∀ rules, readRules text = .ok rules ↔
        ∃ file, Divides file (splitLines text) ∧ Piece.AllDenote 1 file rules) ∧
      (∀ b : BlockTree, b.Grammatical → ∀ number r, b.Denotes number r →
        1 + r.nestedCount = b.lines.countP fun line => Opens line) ∧
      ∀ rules, readRules text = .ok rules →
        Rule.lineNumbersOfAll rules = openingNumbers 1 (splitLines text) ∧
          (Rule.lineNumbersOfAll rules).Pairwise (· < ·) ∧
          Rule.sizeOfAll rules = (splitLines text).countP fun line => Opens line := by
  refine ⟨fun lines => splitLines_eq_iff, ⟨?_, ?_⟩, fun file file' h h' => h.eq h',
    fun rules => readRules_eq_ok_iff, fun b hb number r hr => BlockTree.nestedCount_eq hb hr,
    fun rules hrules => ?_⟩
  · rintro ⟨rules, hrules⟩
    obtain ⟨file, hfile, hdenote⟩ := readRules_eq_ok_iff.1 hrules
    exact ⟨file, hfile, Piece.exists_allDenote_iff.1 ⟨rules, hdenote⟩⟩
  · rintro ⟨file, hfile, haccepted⟩
    obtain ⟨rules, hdenote⟩ := Piece.exists_allDenote_iff.2 haccepted
    exact ⟨rules, readRules_eq_ok_iff.2 ⟨file, hfile, hdenote⟩⟩
  · obtain ⟨file, ⟨hgrammatical, hlines⟩, hdenote⟩ := readRules_eq_ok_iff.1 hrules
    have hnumbers : Rule.lineNumbersOfAll rules = openingNumbers 1 (splitLines text) := by
      rw [Piece.lineNumbersOfAll_eq hgrammatical hdenote, hlines]
    refine ⟨hnumbers, ?_, ?_⟩
    · rw [hnumbers]
      exact pairwise_openingNumbers 1 _
    · rw [← Rule.length_lineNumbersOfAll, hnumbers, length_openingNumbers]

/-- A comment, a block without an arrow below a block with one, and a block without a template. -/
theorem readRules_of_nested_blocks :
    let text := ["// x", "@@\x7b", "a ID y", "=>", "", "b", "@@\x7b", "c", "\x7d@@", "\x7d@@",
      "@@\x7b", "d", "=>", "\x7d@@"].flatMap fun line => line.toList ++ ['\n']
    ∃ rules, readRules text = .ok rules ∧ Rule.lineNumbersOfAll rules = [2, 7, 11] ∧
      Rule.sizeOfAll rules = 3 := by
  intro text
  have hread : (readRules text).isOk = true := by decide +kernel
  cases hrules : readRules text with
  | error e =>
    rw [hrules] at hread
    exact absurd hread (by simp [Except.isOk, Except.toBool])
  | ok rules =>
    obtain ⟨hnumbers, -, hsize⟩ := (readRules_exact text).2.2.2.2.2 rules hrules
    refine ⟨rules, rfl, ?_, ?_⟩
    · rw [hnumbers]
      decide
    · rw [hsize]
      decide

end RuleFile

end TokenEdit
