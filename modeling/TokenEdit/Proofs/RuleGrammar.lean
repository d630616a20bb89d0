import TokenEdit.Proofs.Lines
import TokenEdit.RuleFile

/-!
# The grammar of rule files

A rule file is a list of lines.  Between blocks there are separators, blank lines and comments.  A
block has a line that opens it, the lines of the pattern, perhaps an arrow with the lines of the
template, the blocks of the follow-ups with nothing in between, and a line that closes it.

Here this is said without a reader.  A file is divided into `Piece`s, and a block into a `Head`, the
blocks below it and its last line; `BlockTree.Grammatical` says which lines may stand where.  What a
block says is a relation, `BlockTree.Denotes`, between the block, the number of its first line and a
rule.

No two divisions have the same lines (`Divides.eq`): a line that may follow a section is
never a line of the section, and a line that opens a block is never one that closes it.

* `sectionText_eq_iff`: the text of a section.
* `Piece`, `BlockTree`, `Head`: a divided file.
* `Divides.eq`: a file is divided in one way only.
-/

namespace TokenEdit.RuleFile

/-! ## Sections -/

/-- The text `joined` without the line feeds at its ends. -/
def IsStripped (joined text : List Char) : Prop :=
  ∃ before behind, joined = before ++ (text ++ behind) ∧ (∀ c ∈ before ++ behind, c = '\n') ∧
    text.head? ≠ some '\n' ∧ text.getLast? ≠ some '\n'

/-- Whether a character is a line feed. -/
abbrev isLineFeed (c : Char) : Bool :=
  c = '\n'

theorem head?_dropWhile_isLineFeed_ne (cs : List Char) :
    (cs.dropWhile isLineFeed).head? ≠ some '\n' := by
  intro hhead
  have hnot := List.head?_dropWhile_not isLineFeed cs
  rw [hhead] at hnot
  exact absurd hnot (by decide)

theorem dropWhile_isLineFeed_of_head?_ne {cs : List Char} (h : cs.head? ≠ some '\n') :
    cs.dropWhile isLineFeed = cs := by
  cases cs with
  | nil => rfl
  | cons c cs =>
    have hc : c ≠ '\n' := fun hc => h (by rw [hc, List.head?_cons])
    exact List.dropWhile_cons_of_neg (by simpa using hc)

theorem isStripped_sectionText (lines : List (List Char)) :
    IsStripped lines.flatten (sectionText lines.reverse) := by
  rw [sectionText, List.reverse_reverse]
  show IsStripped _ ((lines.flatten.dropWhile isLineFeed).reverse.dropWhile isLineFeed).reverse
  generalize lines.flatten = joined
  have hfront : joined.takeWhile isLineFeed ++ joined.dropWhile isLineFeed = joined :=
    List.takeWhile_append_dropWhile
  have hleft := head?_dropWhile_isLineFeed_ne joined
  generalize joined.dropWhile isLineFeed = middle at *
  have hback : (middle.reverse.dropWhile isLineFeed).reverse ++
      (middle.reverse.takeWhile isLineFeed).reverse = middle := by
    rw [← List.reverse_append, List.takeWhile_append_dropWhile, List.reverse_reverse]
  refine ⟨joined.takeWhile isLineFeed, (middle.reverse.takeWhile isLineFeed).reverse,
    ?_, ?_, ?_, ?_⟩
  · rw [hback, hfront]
  · intro c hc
    have hc : isLineFeed c = true := by
      rcases List.mem_append.1 hc with hc | hc
      · exact List.all_eq_true.1 List.all_takeWhile c hc
      · exact List.all_eq_true.1 List.all_takeWhile c (List.mem_reverse.1 hc)
    simpa using hc
  · intro hhead
    rw [← hback, List.head?_append, hhead] at hleft
    exact hleft rfl
  · rw [List.getLast?_reverse]
    exact head?_dropWhile_isLineFeed_ne _

/-- **The text of a section** is its lines without the line feeds at their ends. -/
theorem sectionText_eq_iff {lines : List (List Char)} {text : List Char} :
    sectionText lines.reverse = text ↔ IsStripped lines.flatten text := by
  constructor
  · rintro rfl
    exact isStripped_sectionText lines
  · rintro ⟨before, behind, hjoined, hends, hhead, hlast⟩
    rw [sectionText, List.reverse_reverse, hjoined]
    show (((before ++ (text ++ behind)).dropWhile isLineFeed).reverse.dropWhile
      isLineFeed).reverse = _
    have hbefore : ∀ c ∈ before, isLineFeed c = true :=
      fun c hc => by simpa using hends c (List.mem_append_left _ hc)
    have hbehind : ∀ c ∈ behind, isLineFeed c = true :=
      fun c hc => by simpa using hends c (List.mem_append_right _ hc)
    rw [List.dropWhile_append_of_pos hbefore]
    cases text with
    | nil =>
      have hnone : (behind ++ []).dropWhile isLineFeed = [] := List.dropWhile_append_of_pos hbehind
      rw [List.append_nil] at hnone
      rw [List.nil_append, hnone]
      rfl
    | cons c cs =>
      have hstart : ((c :: cs) ++ behind).head? ≠ some '\n' := by
        rw [List.cons_append, List.head?_cons] at *
        exact hhead
      rw [dropWhile_isLineFeed_of_head?_ne hstart, List.reverse_append,
        List.dropWhile_append_of_pos fun c hc => hbehind c (List.mem_reverse.1 hc),
        dropWhile_isLineFeed_of_head?_ne (by rwa [List.head?_reverse]), List.reverse_reverse]

/-! ## Marks -/

/-- A line that opens a block. -/
def Opens (line : List Char) : Prop :=
  ['@', '@', '{'] <+: line

/-- A line that closes a block. -/
def Closes (line : List Char) : Prop :=
  ['}', '@', '@'] <+: line

/-- A line between a pattern and its template. -/
def IsArrow (line : List Char) : Prop :=
  ['=', '>'] <+: line

/-- A line of a section: it starts with no mark. -/
def IsSectionLine (line : List Char) : Prop :=
  ¬ Opens line ∧ ¬ Closes line ∧ ¬ IsArrow line

/-- A line between blocks: it is blank or a comment. -/
def IsSeparator (line : List Char) : Prop :=
  (∀ c ∈ line, c ∈ blanks) ∨ ['/', '/'] <+: line

instance (line : List Char) : Decidable (Opens line) :=
  inferInstanceAs (Decidable (_ <+: _))

instance (line : List Char) : Decidable (Closes line) :=
  inferInstanceAs (Decidable (_ <+: _))

instance (line : List Char) : Decidable (IsArrow line) :=
  inferInstanceAs (Decidable (_ <+: _))

instance (line : List Char) : Decidable (IsSectionLine line) :=
  inferInstanceAs (Decidable (_ ∧ _))

instance (line : List Char) : Decidable (IsSeparator line) :=
  inferInstanceAs (Decidable (_ ∨ _))

theorem Closes.not_opens {line : List Char} (h : Closes line) : ¬ Opens line := by
  obtain ⟨more, rfl⟩ := h
  exact fun h => absurd h (by simp [Opens])

theorem IsArrow.not_opens {line : List Char} (h : IsArrow line) : ¬ Opens line := by
  obtain ⟨more, rfl⟩ := h
  exact fun h => absurd h (by simp [Opens])

theorem IsArrow.not_closes {line : List Char} (h : IsArrow line) : ¬ Closes line := by
  obtain ⟨more, rfl⟩ := h
  exact fun h => absurd h (by simp [Closes])

theorem IsSeparator.isSectionLine {line : List Char} (h : IsSeparator line) :
    IsSectionLine line := by
  rcases h with hblank | ⟨more, rfl⟩
  · refine ⟨?_, ?_, ?_⟩ <;> rintro ⟨more, rfl⟩ <;>
      exact absurd (hblank _ List.mem_cons_self) (by decide)
  · exact ⟨by simp [Opens], by simp [Closes], by simp [IsArrow]⟩

/-! ## Divided files -/

/-- A block up to its follow-ups. -/
structure Head where
  opener : List Char
  pattern : List (List Char)
  /-- The arrow and the lines behind it, if there is an arrow. -/
  template? : Option (List Char × List (List Char))

namespace Head

/-- The lines from the arrow on. -/
def templateLines (h : Head) : List (List Char) :=
  match h.template? with
  | none => []
  | some (arrow, lines) => arrow :: lines

def lines (h : Head) : List (List Char) :=
  h.opener :: (h.pattern ++ h.templateLines)

structure Grammatical (h : Head) : Prop where
  opener : Opens h.opener
  pattern : ∀ line ∈ h.pattern, IsSectionLine line
  template : ∀ arrow lines, h.template? = some (arrow, lines) →
    IsArrow arrow ∧ ∀ line ∈ lines, IsSectionLine line

/-- The pattern that the lines behind the opening one say. -/
def SaysPattern (h : Head) (p : Pattern) : Prop :=
  ∃ text, IsStripped h.pattern.flatten text ∧ Pattern.ofText text = .ok p

/-- The template that the lines behind the arrow say; without an arrow it is empty. -/
def SaysTemplate (h : Head) (t : Template) : Prop :=
  match h.template? with
  | none => t = .empty
  | some (_, lines) => ∃ text, IsStripped lines.flatten text ∧ t = .ofText text

end Head

/-- A block: its head, the blocks of its follow-ups and its last line. -/
structure BlockTree where
  head : Head
  nested : List BlockTree
  closer : List Char

namespace BlockTree

mutual

/-- The lines of a block. -/
def lines : BlockTree → List (List Char)
  | ⟨head, nested, closer⟩ => head.lines ++ (linesOfAll nested ++ [closer])

/-- The lines of blocks that follow each other. -/
def linesOfAll : List BlockTree → List (List Char)
  | [] => []
  | b :: bs => b.lines ++ linesOfAll bs

end

/-- A block with the right lines in the right places, and so the blocks below it. -/
inductive Grammatical : BlockTree → Prop
  | intro {b : BlockTree} (head : b.head.Grammatical) (nested : ∀ c ∈ b.nested, Grammatical c)
      (closer : Closes b.closer) : Grammatical b

/-- A block whose lines say a pattern, and so the blocks below it. -/
inductive Accepted : BlockTree → Prop
  | intro {b : BlockTree} (pattern : ∃ p, b.head.SaysPattern p)
      (nested : ∀ c ∈ b.nested, Accepted c) : Accepted b

mutual

/-- The rule that a block says when it starts on line `number`. -/
def Denotes (number : Nat) : BlockTree → Rule → Prop
  | ⟨head, nested, _⟩, r =>
    r.line = number ∧ head.SaysPattern r.pattern ∧ head.SaysTemplate r.template ∧
      AllDenote (number + head.lines.length) nested r.followUps

/-- The rules that blocks following each other say, one rule for each. -/
def AllDenote (number : Nat) : List BlockTree → List Rule → Prop
  | [], rules => rules = []
  | b :: bs, rules =>
    ∃ r more, rules = r :: more ∧ b.Denotes number r ∧ AllDenote (number + b.lines.length) bs more

end

end BlockTree

/-- A part of a file outside all blocks, or a whole block. -/
inductive Piece where
  | separator (line : List Char)
  | block (tree : BlockTree)

namespace Piece

def lines : Piece → List (List Char)
  | separator line => [line]
  | block tree => tree.lines

def Grammatical : Piece → Prop
  | separator line => IsSeparator line
  | block tree => tree.Grammatical

/-- The rules that a file says, when its first line has the given number. -/
def AllDenote (number : Nat) : List Piece → List Rule → Prop
  | [], rules => rules = []
  | separator _ :: file, rules => AllDenote (number + 1) file rules
  | block tree :: file, rules =>
    ∃ r more, rules = r :: more ∧ tree.Denotes number r ∧
      AllDenote (number + tree.lines.length) file more

end Piece

/-- A division of a file with the given lines. -/
structure Divides (file : List Piece) (lines : List (List Char)) : Prop where
  grammatical : ∀ piece ∈ file, piece.Grammatical
  lines_eq : file.flatMap Piece.lines = lines

/-! ## A file is divided in one way only -/

/-- What stands behind a head starts with a line that opens or closes a block. -/
def BehindHead (rest : List (List Char)) : Prop :=
  ∀ line ∈ rest.head?, Opens line ∨ Closes line

theorem BehindHead.not_isSectionLine {rest : List (List Char)} (h : BehindHead rest) :
    ∀ line ∈ rest.head?, ¬ IsSectionLine line := by
  intro line hline hsection
  exact (h line hline).elim hsection.1 hsection.2.1

theorem BehindHead.not_isArrow {rest : List (List Char)} (h : BehindHead rest) :
    ∀ line ∈ rest.head?, ¬ IsArrow line := by
  intro line hline harrow
  exact (h line hline).elim harrow.not_opens harrow.not_closes

namespace Head

/-- The section of the pattern ends where the arrow or what is behind the head starts. -/
theorem Grammatical.not_isSectionLine_behind_pattern {h : Head} (hh : h.Grammatical)
    {rest : List (List Char)} (hrest : BehindHead rest) :
    ∀ line ∈ (h.templateLines ++ rest).head?, ¬ IsSectionLine line := by
  intro line hline
  unfold templateLines at hline
  split at hline
  · exact hrest.not_isSectionLine line hline
  next arrow lines htemplate =>
    obtain rfl : arrow = line := Option.some.inj hline
    exact fun hsection => hsection.2.2 (hh.template arrow lines htemplate).1

theorem eq_of_lines_append {h h' : Head} (hh : h.Grammatical) (hh' : h'.Grammatical)
    {rest rest' : List (List Char)} (hrest : BehindHead rest) (hrest' : BehindHead rest')
    (heq : h.lines ++ rest = h'.lines ++ rest') : h = h' ∧ rest = rest' := by
  obtain ⟨hopener, hbehind⟩ := List.cons.inj heq
  have hsections : h.pattern ++ (h.templateLines ++ rest) =
      h'.pattern ++ (h'.templateLines ++ rest') := by
    rw [← List.append_assoc, ← List.append_assoc]
    exact hbehind
  obtain ⟨hpattern, htemplates⟩ := eq_of_append_eq_append hh.pattern hh'.pattern
    (hh.not_isSectionLine_behind_pattern hrest) (hh'.not_isSectionLine_behind_pattern hrest')
    hsections
  obtain ⟨opener, pattern, template?⟩ := h
  obtain ⟨opener', pattern', template?'⟩ := h'
  obtain rfl : opener = opener' := hopener
  obtain rfl : pattern = pattern' := hpattern
  match template?, template?' with
  | none, none => exact ⟨rfl, htemplates⟩
  | none, some (arrow, lines) =>
    obtain rfl : rest = arrow :: (lines ++ rest') := htemplates
    exact absurd (hh'.template arrow lines rfl).1 (hrest.not_isArrow arrow rfl)
  | some (arrow, lines), none =>
    obtain rfl : arrow :: (lines ++ rest) = rest' := htemplates
    exact absurd (hh.template arrow lines rfl).1 (hrest'.not_isArrow arrow rfl)
  | some (arrow, lines), some (arrow', lines') =>
    have harrows : arrow :: (lines ++ rest) = arrow' :: (lines' ++ rest') := htemplates
    obtain ⟨rfl, hlines⟩ := List.cons.inj harrows
    obtain ⟨rfl, rfl⟩ := eq_of_append_eq_append (hh.template arrow lines rfl).2
      (hh'.template arrow lines' rfl).2 hrest.not_isSectionLine hrest'.not_isSectionLine hlines
    exact ⟨rfl, rfl⟩

end Head

namespace BlockTree

theorem head?_lines_append (b : BlockTree) (rest : List (List Char)) :
    (b.lines ++ rest).head? = some b.head.opener := by
  cases b
  rfl

/-- A block starts with a line that opens it. -/
theorem Grammatical.lines_append_ne_cons {b : BlockTree} (hb : b.Grammatical) {line : List Char}
    (hline : ¬ Opens line) (rest rest' : List (List Char)) : b.lines ++ rest ≠ line :: rest' := by
  intro heq
  have hhead := congrArg List.head? heq
  rw [head?_lines_append] at hhead
  obtain rfl : b.head.opener = line := Option.some.inj hhead
  obtain ⟨hopens, -, -⟩ := hb
  exact hline hopens.opener

/-- Behind the head of a block there is a block below it or its last line. -/
theorem behindHead {nested : List BlockTree} (hnested : ∀ b ∈ nested, b.Grammatical)
    {closer : List Char} (hcloser : Closes closer) (rest : List (List Char)) :
    BehindHead (linesOfAll nested ++ closer :: rest) := by
  intro line hline
  cases nested with
  | nil =>
    obtain rfl : closer = line := Option.some.inj hline
    exact .inr hcloser
  | cons b bs =>
    rw [linesOfAll, List.append_assoc, head?_lines_append] at hline
    obtain rfl : b.head.opener = line := Option.some.inj hline
    obtain ⟨hhead, -, -⟩ := hnested b List.mem_cons_self
    exact .inl hhead.opener

mutual

theorem eq_of_lines_append : ∀ {b b' : BlockTree} {rest rest' : List (List Char)},
    b.Grammatical → b'.Grammatical → b.lines ++ rest = b'.lines ++ rest' → b = b' ∧ rest = rest'
  | ⟨head, nested, closer⟩, ⟨head', nested', closer'⟩, rest, rest', ⟨hhead, hnested, hcloser⟩,
      ⟨hhead', hnested', hcloser'⟩, heq => by
    have hlines : head.lines ++ (linesOfAll nested ++ closer :: rest) =
        head'.lines ++ (linesOfAll nested' ++ closer' :: rest') := by
      simpa only [lines, List.append_assoc, List.singleton_append] using heq
    obtain ⟨rfl, hbehind⟩ := Head.eq_of_lines_append hhead hhead'
      (behindHead hnested hcloser rest) (behindHead hnested' hcloser' rest') hlines
    obtain ⟨rfl, hclosers⟩ := eq_of_linesOfAll_append hnested hnested' hcloser hcloser' hbehind
    obtain ⟨rfl, rfl⟩ := List.cons.inj hclosers
    exact ⟨rfl, rfl⟩

theorem eq_of_linesOfAll_append : ∀ {bs bs' : List BlockTree} {closer closer' : List Char}
    {rest rest' : List (List Char)}, (∀ b ∈ bs, b.Grammatical) → (∀ b ∈ bs', b.Grammatical) →
      Closes closer → Closes closer' →
        linesOfAll bs ++ closer :: rest = linesOfAll bs' ++ closer' :: rest' →
          bs = bs' ∧ closer :: rest = closer' :: rest'
  | [], [], _, _, _, _, _, _, _, _, heq => ⟨rfl, heq⟩
  | [], b' :: bs', closer, closer', rest, rest', _, hbs', hcloser, _, heq => by
    rw [linesOfAll, linesOfAll, List.append_assoc] at heq
    exact absurd heq.symm ((hbs' b' List.mem_cons_self).lines_append_ne_cons hcloser.not_opens _ _)
  | b :: bs, [], closer, closer', rest, rest', hbs, _, _, hcloser', heq => by
    rw [linesOfAll, linesOfAll, List.append_assoc] at heq
    exact absurd heq ((hbs b List.mem_cons_self).lines_append_ne_cons hcloser'.not_opens _ _)
  | b :: bs, b' :: bs', closer, closer', rest, rest', hbs, hbs', hcloser, hcloser', heq => by
    rw [linesOfAll, linesOfAll, List.append_assoc, List.append_assoc] at heq
    obtain ⟨rfl, hbehind⟩ :=
      eq_of_lines_append (hbs b List.mem_cons_self) (hbs' b' List.mem_cons_self) heq
    obtain ⟨rfl, hclosers⟩ := eq_of_linesOfAll_append (List.forall_mem_cons.1 hbs).2
      (List.forall_mem_cons.1 hbs').2 hcloser hcloser' hbehind
    exact ⟨rfl, hclosers⟩

end

end BlockTree

theorem Piece.eq_of_flatMap_lines : ∀ {file file' : List Piece},
    (∀ piece ∈ file, piece.Grammatical) → (∀ piece ∈ file', piece.Grammatical) →
      file.flatMap Piece.lines = file'.flatMap Piece.lines → file = file'
  | [], [], _, _, _ => rfl
  | [], separator _ :: _, _, _, heq | separator _ :: _, [], _, _, heq =>
    absurd heq (by simp [lines])
  | [], block ⟨_, _, _⟩ :: _, _, _, heq | block ⟨_, _, _⟩ :: _, [], _, _, heq =>
    absurd heq (by simp [lines, BlockTree.lines])
  | separator line :: file, separator line' :: file', h, h', heq => by
    obtain ⟨hfirst, hbehind⟩ := List.cons.inj heq
    rw [hfirst,
      eq_of_flatMap_lines (List.forall_mem_cons.1 h).2 (List.forall_mem_cons.1 h').2 hbehind]
  | separator line :: file, block tree :: file', h, h', heq => by
    have hseparator : IsSeparator line := h _ List.mem_cons_self
    have htree : tree.Grammatical := h' _ List.mem_cons_self
    exact absurd heq.symm (htree.lines_append_ne_cons hseparator.isSectionLine.1 _ _)
  | block tree :: file, separator line :: file', h, h', heq => by
    have hseparator : IsSeparator line := h' _ List.mem_cons_self
    have htree : tree.Grammatical := h _ List.mem_cons_self
    exact absurd heq (htree.lines_append_ne_cons hseparator.isSectionLine.1 _ _)
  | block tree :: file, block tree' :: file', h, h', heq => by
    obtain ⟨hfirst, hbehind⟩ :=
      BlockTree.eq_of_lines_append (h _ List.mem_cons_self) (h' _ List.mem_cons_self) heq
    rw [hfirst,
      eq_of_flatMap_lines (List.forall_mem_cons.1 h).2 (List.forall_mem_cons.1 h').2 hbehind]

/-- **A file is divided in one way only.** -/
theorem Divides.eq {file file' : List Piece} {lines : List (List Char)} (h : Divides file lines)
    (h' : Divides file' lines) : file = file' :=
  Piece.eq_of_flatMap_lines h.grammatical h'.grammatical (h.lines_eq.trans h'.lines_eq.symm)

end TokenEdit.RuleFile
