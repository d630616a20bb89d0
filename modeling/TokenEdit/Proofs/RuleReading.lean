import TokenEdit.Proofs.Lexical
import TokenEdit.Proofs.RuleGrammar

/-!
# Reading a rule file follows its grammar

The reader of a rule file goes from line to line and holds the blocks that are still open; the
grammar divides the whole file.  Both are compared here.

* What a line can do to a reader is said once, by `Reader.Step`.
* A divided file is read to the end, and the rules are those that it says
  (`Piece.lines_eq_of_allDenote`, by induction on the division).
* What a reader holds after any number of lines is a division of them that is complete but for the
  open blocks: this is `Reading`, and every step keeps it (`Reading.step`).  When no block is open,
  the division is complete.

So reading succeeds exactly on the files that can be divided and whose patterns can be read
(`readRules_eq_ok_iff`).
-/

namespace TokenEdit.RuleFile

/-! ## Kinds of lines -/

namespace LineKind

/-- The lines of a kind. -/
def Says : LineKind → List Char → Prop
  | opener, line => Opens line
  | closer, line => Closes line
  | arrow, line => IsArrow line
  | comment, line | blank, line => IsSeparator line
  | text, line => IsSectionLine line ∧ ¬ IsSeparator line

theorem says_ofLine (line : List Char) : (ofLine line).Says line := by
  have hblanks : line.all isBlankChar = true ↔ ∀ c ∈ line, c ∈ blanks := by
    simp only [List.all_eq_true, isBlankChar_iff]
  unfold ofLine
  simp only [List.isPrefixOf_iff_prefix]
  split
  next hopens => exact hopens
  next hopens =>
  split
  next hcloses => exact hcloses
  next hcloses =>
  split
  next harrow => exact harrow
  next harrow =>
  split
  next hcomment => exact .inr hcomment
  next hcomment =>
  split
  next hblank => exact .inl (hblanks.1 hblank)
  next hblank =>
    exact ⟨⟨hopens, hcloses, harrow⟩, fun h => h.elim (mt hblanks.2 hblank) hcomment⟩

theorem ofLine_of_opens {line : List Char} (h : Opens line) : ofLine line = opener := by
  rw [ofLine, if_pos (List.isPrefixOf_iff_prefix.2 h)]

theorem ofLine_of_closes {line : List Char} (h : Closes line) : ofLine line = closer := by
  rw [ofLine, if_neg (mt List.isPrefixOf_iff_prefix.1 h.not_opens),
    if_pos (List.isPrefixOf_iff_prefix.2 h)]

theorem ofLine_of_isArrow {line : List Char} (h : IsArrow line) : ofLine line = arrow := by
  rw [ofLine, if_neg (mt List.isPrefixOf_iff_prefix.1 h.not_opens),
    if_neg (mt List.isPrefixOf_iff_prefix.1 h.not_closes), if_pos (List.isPrefixOf_iff_prefix.2 h)]

theorem ofLine_of_isSectionLine {line : List Char} (h : IsSectionLine line) :
    ofLine line = comment ∨ ofLine line = blank ∨ ofLine line = text := by
  have hsays := says_ofLine line
  cases hkind : ofLine line <;> rw [hkind] at hsays
  case opener => exact absurd hsays h.1
  case closer => exact absurd hsays h.2.1
  case arrow => exact absurd hsays h.2.2
  all_goals simp

theorem ofLine_of_isSeparator {line : List Char} (h : IsSeparator line) :
    ofLine line = comment ∨ ofLine line = blank := by
  rcases ofLine_of_isSectionLine h.isSectionLine with hkind | hkind | hkind
  · exact .inl hkind
  · exact .inr hkind
  · have hsays := says_ofLine line
    rw [hkind] at hsays
    exact absurd h hsays.2

end LineKind

/-! ## One line -/

/-- A block with further lines in the section that is being read. -/
def Block.withLines (b : Block) (lines : List (List Char)) : Block :=
  match b.part with
  | .pattern => { b with patternLines := lines.reverse ++ b.patternLines }
  | .template => { b with templateLines := lines.reverse ++ b.templateLines }
  | .followUps => b

/-- The open blocks when another one is opened: the innermost one has come to its follow-ups. -/
def enter : List Block → List Block
  | [] => []
  | b :: outer => { b with part := .followUps } :: outer

namespace Reader

/-- What line `number` does to a reader. -/
inductive Step (number : Nat) : Reader → List Char → Reader → Prop
  | separator {rules : List Rule} {line : List Char} (h : IsSeparator line) :
      Step number ⟨rules, []⟩ line ⟨rules, []⟩
  | opener {rules : List Rule} {blocks : List Block} {line : List Char} (h : Opens line) :
      Step number ⟨rules, blocks⟩ line ⟨rules, .opened number :: enter blocks⟩
  | arrow {rules : List Rule} {b : Block} {outer : List Block} {line : List Char}
      (h : IsArrow line) (hpart : b.part = .pattern) :
      Step number ⟨rules, b :: outer⟩ line ⟨rules, { b with part := .template } :: outer⟩
  | sectionLine {rules : List Rule} {b : Block} {outer : List Block} {line : List Char}
      (h : IsSectionLine line) (hpart : b.part ≠ .followUps) :
      Step number ⟨rules, b :: outer⟩ line ⟨rules, b.withLines [line] :: outer⟩
  | closer {rules : List Rule} {b : Block} {outer : List Block} {line : List Char} {r : Rule}
      (h : Closes line) (hr : b.close = .ok r) :
      Step number ⟨rules, b :: outer⟩ line (add rules r outer)

/-- A line of a section goes to the section that is being read, if there is one. -/
theorem line_eq_ok_iff_of_isSectionLine {line : List Char} (h : IsSectionLine line)
    {rules : List Rule} {b : Block} {outer : List Block} {number : Nat} {s' : Reader} :
    Reader.line ⟨rules, b :: outer⟩ line number = .ok s' ↔
      b.part ≠ .followUps ∧ s' = ⟨rules, b.withLines [line] :: outer⟩ := by
  rcases LineKind.ofLine_of_isSectionLine h with hkind | hkind | hkind <;>
    cases hb : b.part <;> simp [Reader.line, hkind, Block.withLines, hb, eq_comm]

theorem step_of_line {s s' : Reader} {line : List Char} {number : Nat}
    (h : s.line line number = .ok s') : Step number s line s' := by
  have hkind := LineKind.says_ofLine line
  obtain ⟨rules, blocks⟩ := s
  cases blocks with
  | nil =>
    cases hline : LineKind.ofLine line <;> rw [hline] at hkind <;>
      simp only [Reader.line, hline, reduceCtorEq, Except.ok.injEq] at h
    case opener => exact h ▸ .opener hkind
    case comment | blank => exact h ▸ .separator hkind
  | cons b outer =>
    cases hline : LineKind.ofLine line <;> rw [hline] at hkind
    case opener =>
      simp only [Reader.line, hline] at h
      exact Except.ok.inj h ▸ .opener hkind
    case closer =>
      simp only [Reader.line, hline] at h
      obtain ⟨r, hr, h⟩ := exists_of_bind_eq_ok h
      exact Except.ok.inj h ▸ .closer hkind hr
    case arrow =>
      simp only [Reader.line, hline] at h
      cases hpart : b.part <;> simp only [hpart, reduceCtorEq, Except.ok.injEq] at h
      exact h ▸ .arrow hkind hpart
    case comment | blank =>
      have hsection : IsSectionLine line := IsSeparator.isSectionLine hkind
      obtain ⟨hpart, rfl⟩ := (line_eq_ok_iff_of_isSectionLine hsection).1 h
      exact .sectionLine hsection hpart
    case text =>
      obtain ⟨hpart, rfl⟩ := (line_eq_ok_iff_of_isSectionLine hkind.1).1 h
      exact .sectionLine hkind.1 hpart

theorem Step.line_eq {s s' : Reader} {line : List Char} {number : Nat}
    (h : Step number s line s') : s.line line number = .ok s' := by
  cases h with
  | separator h =>
    rcases LineKind.ofLine_of_isSeparator h with hkind | hkind <;>
      simp only [Reader.line, hkind]
  | @opener rules blocks _ h =>
    cases blocks <;> simp only [Reader.line, LineKind.ofLine_of_opens h, enter]
  | arrow h hpart => simp only [Reader.line, LineKind.ofLine_of_isArrow h, hpart]
  | sectionLine h hpart => exact (line_eq_ok_iff_of_isSectionLine h).2 ⟨hpart, rfl⟩
  | closer h hr =>
    simp only [Reader.line, LineKind.ofLine_of_closes h, hr]
    rfl

theorem line_eq_ok_iff {s s' : Reader} {line : List Char} {number : Nat} :
    s.line line number = .ok s' ↔ Step number s line s' :=
  ⟨step_of_line, Step.line_eq⟩

/-! ## Many lines -/

theorem lines_nil (s : Reader) (number : Nat) : s.lines [] number = .ok s := rfl

theorem lines_cons (s : Reader) (line : List Char) (lines : List (List Char)) (number : Nat) :
    s.lines (line :: lines) number =
      s.line line number >>= fun s => s.lines lines (number + 1) := by
  rw [Reader.lines, List.zipIdx_cons, List.foldlM_cons]
  rfl

theorem lines_append (s : Reader) (left right : List (List Char)) (number : Nat) :
    s.lines (left ++ right) number =
      s.lines left number >>= fun s => s.lines right (number + left.length) := by
  rw [Reader.lines, List.zipIdx_append, List.foldlM_append]
  rfl

theorem lines_cons_of_step {s s₁ : Reader} {line : List Char} {number : Nat}
    (h : Step number s line s₁) (lines : List (List Char)) :
    s.lines (line :: lines) number = s₁.lines lines (number + 1) := by
  rw [lines_cons, h.line_eq]
  rfl

theorem lines_append_of_eq {s s₁ : Reader} {left : List (List Char)} {number : Nat}
    (h : s.lines left number = .ok s₁) (right : List (List Char)) :
    s.lines (left ++ right) number = s₁.lines right (number + left.length) := by
  rw [lines_append, h]
  rfl

end Reader

/-! ## What a block says -/

namespace Head

/-- What a reader holds of a block when it has read the head. -/
def block (h : Head) (number : Nat) : Block :=
  match h.template? with
  | none => { Block.opened number with patternLines := h.pattern.reverse }
  | some (_, lines) =>
    { Block.opened number with
      part := .template, patternLines := h.pattern.reverse, templateLines := lines.reverse }

theorem line_block (h : Head) (number : Nat) : (h.block number).line = number := by
  unfold block
  split <;> rfl

theorem patternLines_block (h : Head) (number : Nat) :
    (h.block number).patternLines = h.pattern.reverse := by
  unfold block
  split <;> rfl

theorem saysPattern_iff {h : Head} {p : Pattern} (number : Nat) :
    h.SaysPattern p ↔ Pattern.ofText (sectionText (h.block number).patternLines) = .ok p := by
  rw [patternLines_block]
  constructor
  · rintro ⟨text, htext, hp⟩
    rwa [sectionText_eq_iff.2 htext]
  · intro hp
    exact ⟨_, isStripped_sectionText h.pattern, hp⟩

theorem saysTemplate_iff {h : Head} {t : Template} (number : Nat) :
    h.SaysTemplate t ↔ t = .ofText (sectionText (h.block number).templateLines) := by
  obtain ⟨opener, pattern, template?⟩ := h
  cases template? with
  | none =>
    have hempty : Template.ofText (sectionText []) = .empty := by
      rw [Template.ofText, show sectionText [] = [] from rfl, tokenize_nil]
      rfl
    show t = .empty ↔ t = .ofText (sectionText [])
    rw [hempty]
  | some written =>
    obtain ⟨arrow, lines⟩ := written
    constructor
    · rintro ⟨text, htext, rfl⟩
      rw [← sectionText_eq_iff.2 htext]
      rfl
    · intro ht
      exact ⟨_, isStripped_sectionText lines, ht⟩

theorem followUps_block (h : Head) (number : Nat) : (h.block number).followUps = [] := by
  unfold block
  split <;> rfl

/-- A head with an arrow. -/
def withArrow (h : Head) (arrow : List Char) : Head :=
  { h with template? := some (arrow, []) }

/-- A head with one more line in its last section. -/
def withLine (h : Head) (line : List Char) : Head :=
  match h.template? with
  | none => { h with pattern := h.pattern ++ [line] }
  | some (arrow, lines) => { h with template? := some (arrow, lines ++ [line]) }

theorem template?_eq_none_of_part_block {h : Head} {number : Nat}
    (hpart : (h.block number).part = .pattern) : h.template? = none := by
  unfold block at hpart
  split at hpart
  · assumption
  · exact absurd hpart (by simp)

theorem lines_withArrow {h : Head} (hnone : h.template? = none) (arrow : List Char) :
    (h.withArrow arrow).lines = h.lines ++ [arrow] := by
  simp [lines, templateLines, withArrow, hnone]

theorem block_withArrow {h : Head} (hnone : h.template? = none) (arrow : List Char) (number : Nat) :
    (h.withArrow arrow).block number = { h.block number with part := .template } := by
  simp [block, withArrow, hnone, Block.opened]

theorem Grammatical.withArrow {h : Head} (hh : h.Grammatical) {arrow : List Char}
    (harrow : IsArrow arrow) : (h.withArrow arrow).Grammatical := by
  refine ⟨hh.opener, hh.pattern, fun arrow' lines htemplate => ?_⟩
  obtain ⟨rfl, rfl⟩ := Prod.mk.inj (Option.some.inj htemplate)
  exact ⟨harrow, fun line hline => absurd hline (by simp)⟩

theorem lines_withLine (h : Head) (line : List Char) :
    (h.withLine line).lines = h.lines ++ [line] := by
  obtain ⟨opener, pattern, template?⟩ := h
  cases template? <;> simp [lines, templateLines, withLine]

theorem block_withLine (h : Head) (line : List Char) (number : Nat) :
    (h.withLine line).block number = (h.block number).withLines [line] := by
  obtain ⟨opener, pattern, template?⟩ := h
  cases template? <;> simp [block, withLine, Block.withLines, Block.opened]

theorem Grammatical.withLine {h : Head} (hh : h.Grammatical) {line : List Char}
    (hline : IsSectionLine line) : (h.withLine line).Grammatical := by
  have hconcat : ∀ {lines : List (List Char)}, (∀ l ∈ lines, IsSectionLine l) →
      ∀ l ∈ lines ++ [line], IsSectionLine l := fun hlines =>
    List.forall_mem_append.2 ⟨hlines, List.forall_mem_singleton.2 hline⟩
  unfold Head.withLine
  split
  next hnone => exact ⟨hh.opener, hconcat hh.pattern, hh.template⟩
  next arrow lines hsome =>
    obtain ⟨harrow, hlines⟩ := hh.template arrow lines hsome
    refine ⟨hh.opener, hh.pattern, fun arrow' lines' htemplate => ?_⟩
    obtain ⟨rfl, rfl⟩ := Prod.mk.inj (Option.some.inj htemplate)
    exact ⟨harrow, hconcat hlines⟩

/-- A closed block gives the rule that its head and the rules below it make up. -/
theorem close_block_eq_ok_iff {h : Head} {number : Nat} {part : Part} {below : List Rule}
    {r : Rule} :
    ({ h.block number with part := part, followUps := below.reverse } : Block).close = .ok r ↔
      r.line = number ∧ h.SaysPattern r.pattern ∧ h.SaysTemplate r.template ∧
        r.followUps = below := by
  rw [saysPattern_iff number, saysTemplate_iff number, Block.close]
  constructor
  · intro hclose
    split at hclose
    · exact absurd hclose (by simp)
    next p hp =>
      rw [← Except.ok.inj hclose]
      exact ⟨h.line_block number, hp, rfl, List.reverse_reverse below⟩
  · rintro ⟨hline, hpattern, htemplate, hbelow⟩
    obtain ⟨pattern, template, followUps, line⟩ := r
    simp only at hline hpattern htemplate hbelow
    simp only [hpattern, List.reverse_reverse, h.line_block, hline, htemplate, hbelow]

end Head

/-! ## A divided file is read -/

theorem Block.withLines_cons (b : Block) (line : List Char) (lines : List (List Char)) :
    b.withLines (line :: lines) = (b.withLines [line]).withLines lines := by
  cases hpart : b.part <;> simp [withLines, hpart]

theorem Block.part_withLines (b : Block) (lines : List (List Char)) :
    (b.withLines lines).part = b.part := by
  unfold withLines
  split <;> rfl

/-- The lines of a section go to the innermost block. -/
theorem Reader.lines_of_isSectionLine {rules : List Rule} {b : Block} (hpart : b.part ≠ .followUps)
    {outer : List Block} {lines : List (List Char)} (hlines : ∀ line ∈ lines, IsSectionLine line)
    (number : Nat) :
    Reader.lines ⟨rules, b :: outer⟩ lines number = .ok ⟨rules, b.withLines lines :: outer⟩ := by
  induction lines generalizing b number with
  | nil =>
    have hb : b.withLines [] = b := by
      unfold Block.withLines
      split <;> rfl
    rw [hb, lines_nil]
  | cons line lines ih =>
    obtain ⟨hline, hlines⟩ := List.forall_mem_cons.1 hlines
    rw [lines_cons_of_step (.sectionLine hline hpart), Block.withLines_cons b line lines]
    exact ih (by rwa [Block.part_withLines]) hlines (number + 1)

/-- The lines of a head open a block with the sections of the head. -/
theorem Head.Grammatical.lines_eq {h : Head} (hh : h.Grammatical) (rules : List Rule)
    (blocks : List Block) (number : Nat) :
    Reader.lines ⟨rules, blocks⟩ h.lines number = .ok ⟨rules, h.block number :: enter blocks⟩ := by
  obtain ⟨opener, pattern, template?⟩ := h
  rw [Head.lines, Reader.lines_cons_of_step (.opener hh.opener),
    Reader.lines_append_of_eq (Reader.lines_of_isSectionLine (by simp [Block.opened]) hh.pattern _)]
  cases template? with
  | none => simp [Head.templateLines, Head.block, Block.withLines, Block.opened, Reader.lines_nil]
  | some written =>
    obtain ⟨arrow, lines⟩ := written
    obtain ⟨harrow, hlines⟩ := hh.template arrow lines rfl
    rw [Head.templateLines, Reader.lines_cons_of_step (.arrow harrow rfl),
      Reader.lines_of_isSectionLine (by simp) hlines]
    simp [Head.block, Block.withLines, Block.opened]

namespace BlockTree

mutual

/-- A block is read and its rule put where it belongs. -/
theorem lines_eq_of_denotes : ∀ {b : BlockTree}, b.Grammatical → ∀ {number : Nat} {r : Rule},
    b.Denotes number r → ∀ (rules : List Rule) (blocks : List Block),
      Reader.lines ⟨rules, blocks⟩ b.lines number = .ok (Reader.add rules r (enter blocks))
  | ⟨head, nested, closer⟩, ⟨hhead, hnested, hcloser⟩, number, r, hdenotes, rules, blocks => by
    obtain ⟨hline, hpattern, htemplate, hbelow⟩ := hdenotes
    obtain ⟨part, hread⟩ := exists_lines_eq_of_allDenote hnested hbelow rules (head.block number)
      (enter blocks)
    have hclose : ({ head.block number with part := part, followUps := r.followUps.reverse } :
        Block).close = .ok r :=
      Head.close_block_eq_ok_iff.2 ⟨hline, hpattern, htemplate, rfl⟩
    rw [Head.followUps_block, List.append_nil] at hread
    rw [lines, Reader.lines_append_of_eq (hhead.lines_eq rules blocks number),
      Reader.lines_append_of_eq hread, Reader.lines_cons_of_step (.closer hcloser hclose),
      Reader.lines_nil]

/-- Blocks that follow each other are read and their rules put below the innermost block. -/
theorem exists_lines_eq_of_allDenote : ∀ {bs : List BlockTree}, (∀ b ∈ bs, b.Grammatical) →
    ∀ {number : Nat} {below : List Rule}, AllDenote number bs below →
      ∀ (rules : List Rule) (b : Block) (outer : List Block),
        ∃ part, Reader.lines ⟨rules, b :: outer⟩ (linesOfAll bs) number =
          .ok ⟨rules, { b with part := part, followUps := below.reverse ++ b.followUps } :: outer⟩
  | [], _, number, below, hbelow, rules, b, outer => by
    obtain rfl : below = [] := hbelow
    exact ⟨b.part, rfl⟩
  | c :: cs, hcs, number, below, hbelow, rules, b, outer => by
    obtain ⟨r, more, rfl, hr, hmore⟩ := hbelow
    obtain ⟨hc, hcs⟩ := List.forall_mem_cons.1 hcs
    have hfirst := lines_eq_of_denotes hc hr rules (b :: outer)
    obtain ⟨part, hrest⟩ := exists_lines_eq_of_allDenote hcs hmore rules
      { b with part := .followUps, followUps := r :: b.followUps } outer
    refine ⟨part, ?_⟩
    rw [linesOfAll, Reader.lines_append_of_eq hfirst]
    simpa [Reader.add, enter] using hrest

end

end BlockTree

/-- A divided file is read, and the rules are those that it says. -/
theorem Piece.lines_eq_of_allDenote : ∀ {file : List Piece}, (∀ piece ∈ file, piece.Grammatical) →
    ∀ {number : Nat} {rules : List Rule}, AllDenote number file rules → ∀ before : List Rule,
      Reader.lines ⟨before, []⟩ (file.flatMap Piece.lines) number =
        .ok ⟨rules.reverse ++ before, []⟩
  | [], _, number, rules, hrules, before => by
    obtain rfl : rules = [] := hrules
    rfl
  | separator line :: file, hfile, number, rules, hrules, before => by
    obtain ⟨hline, hfile⟩ := List.forall_mem_cons.1 hfile
    show Reader.lines _ (line :: file.flatMap Piece.lines) number = _
    rw [Reader.lines_cons_of_step (.separator hline)]
    exact lines_eq_of_allDenote hfile hrules before
  | block tree :: file, hfile, number, rules, hrules, before => by
    obtain ⟨htree, hfile⟩ := List.forall_mem_cons.1 hfile
    obtain ⟨r, more, rfl, hr, hmore⟩ := hrules
    show Reader.lines _ (tree.lines ++ file.flatMap Piece.lines) number = _
    rw [Reader.lines_append_of_eq (BlockTree.lines_eq_of_denotes htree hr before [])]
    simpa [Reader.add, enter] using lines_eq_of_allDenote hfile hmore (r :: before)

/-! ## What has been read is divided -/

theorem BlockTree.allDenote_concat : ∀ {bs : List BlockTree} {number : Nat} {below : List Rule},
    AllDenote number bs below → ∀ {b : BlockTree} {r : Rule},
      b.Denotes (number + (linesOfAll bs).length) r → AllDenote number (bs ++ [b]) (below ++ [r])
  | [], number, below, hbelow, b, r, hr => by
    obtain rfl : below = [] := hbelow
    exact ⟨r, [], rfl, hr, rfl⟩
  | c :: cs, number, below, hbelow, b, r, hr => by
    obtain ⟨r', more, rfl, hr', hmore⟩ := hbelow
    refine ⟨r', more ++ [r], rfl, hr', allDenote_concat hmore ?_⟩
    rwa [linesOfAll, List.length_append, ← Nat.add_assoc] at hr

theorem BlockTree.linesOfAll_concat (bs : List BlockTree) (b : BlockTree) :
    linesOfAll (bs ++ [b]) = linesOfAll bs ++ b.lines := by
  induction bs with
  | nil => simp [linesOfAll]
  | cons c cs ih => rw [List.cons_append, linesOfAll, linesOfAll, ih, List.append_assoc]

/-- A last piece adds to a file the rules that it says. -/
theorem Piece.allDenote_append : ∀ {file : List Piece} {number : Nat} {rules : List Rule},
    AllDenote number file rules → ∀ {file' : List Piece} {rules' : List Rule},
      AllDenote (number + (file.flatMap Piece.lines).length) file' rules' →
        AllDenote number (file ++ file') (rules ++ rules')
  | [], number, rules, hrules, file', rules', h => by
    obtain rfl : rules = [] := hrules
    exact h
  | separator line :: file, number, rules, hrules, file', rules', h => by
    have hfile : AllDenote (number + 1) file rules := hrules
    have h : AllDenote (number + 1 + (file.flatMap Piece.lines).length) file' rules' := by
      rwa [List.flatMap_cons, List.length_append, ← Nat.add_assoc] at h
    exact allDenote_append hfile h
  | block tree :: file, number, rules, hrules, file', rules', h => by
    obtain ⟨r, more, rfl, hr, hmore⟩ := hrules
    refine ⟨r, more ++ rules', rfl, hr, allDenote_append hmore ?_⟩
    rwa [List.flatMap_cons, List.length_append, ← Nat.add_assoc] at h

/-- A reader holds a division of the lines that it has read: a file in pieces and, for every open
block, the head and the blocks that are complete below it. -/
inductive Reading : Reader → List (List Char) → Prop
  | outside {rules : List Rule} {file : List Piece} (hfile : ∀ piece ∈ file, piece.Grammatical)
      (hrules : Piece.AllDenote 1 file rules.reverse) :
      Reading ⟨rules, []⟩ (file.flatMap Piece.lines)
  | inside {rules : List Rule} {outer : List Block} {read : List (List Char)} {head : Head}
      {nested : List BlockTree} {below : List Rule} {part : Part}
      (houter : Reading ⟨rules, outer⟩ read) (hentered : enter outer = outer)
      (hhead : head.Grammatical) (hnested : ∀ b ∈ nested, b.Grammatical)
      (hbelow : BlockTree.AllDenote (read.length + 1 + head.lines.length) nested below)
      (hpart : part = .followUps ∨ nested = [] ∧ part = (head.block (read.length + 1)).part) :
      Reading
        ⟨rules,
          { head.block (read.length + 1) with part := part, followUps := below.reverse } :: outer⟩
        (read ++ (head.lines ++ BlockTree.linesOfAll nested))

/-- Nothing has been read. -/
theorem reading_start : Reading Reader.start [] := by
  have hnone : ∀ piece ∈ ([] : List Piece), piece.Grammatical := List.forall_mem_nil _
  exact .outside hnone rfl

namespace Reading

theorem enter {rules : List Rule} {blocks : List Block} {read : List (List Char)}
    (h : Reading ⟨rules, blocks⟩ read) : Reading ⟨rules, RuleFile.enter blocks⟩ read := by
  cases h with
  | outside hfile hrules => exact .outside hfile hrules
  | inside houter hentered hhead hnested hbelow hpart =>
    exact .inside houter hentered hhead hnested hbelow (.inl rfl)

/-- A file goes on with a piece. -/
theorem outside_concat {rules : List Rule} {file : List Piece}
    (hfile : ∀ piece ∈ file, piece.Grammatical) (hrules : Piece.AllDenote 1 file rules.reverse)
    {piece : Piece} (hpiece : piece.Grammatical) {more : List Rule}
    (hmore : Piece.AllDenote ((file.flatMap Piece.lines).length + 1) [piece] more) :
    Reading ⟨more.reverse ++ rules, []⟩ (file.flatMap Piece.lines ++ piece.lines) := by
  have hadded : Piece.AllDenote 1 (file ++ [piece]) (more.reverse ++ rules).reverse := by
    rw [List.reverse_append, List.reverse_reverse]
    exact Piece.allDenote_append hrules (by rwa [Nat.add_comm])
  have hall : ∀ p ∈ file ++ [piece], p.Grammatical :=
    List.forall_mem_append.2 ⟨hfile, List.forall_mem_singleton.2 hpiece⟩
  have hread := outside hall hadded
  rwa [List.flatMap_append, List.flatMap_singleton] at hread

/-- A complete block goes to the block around it or to the file. -/
theorem add {rules : List Rule} {outer : List Block} {read : List (List Char)}
    (h : Reading ⟨rules, outer⟩ read) (hentered : RuleFile.enter outer = outer) {b : BlockTree}
    (hb : b.Grammatical) {r : Rule} (hr : b.Denotes (read.length + 1) r) :
    Reading (Reader.add rules r outer) (read ++ b.lines) := by
  cases h with
  | @outside _ file hfile hrules =>
    have hpiece : (Piece.block b).Grammatical := hb
    have hmore : Piece.AllDenote ((file.flatMap Piece.lines).length + 1) [.block b] [r] :=
      ⟨r, [], rfl, hr, rfl⟩
    exact outside_concat hfile hrules hpiece hmore
  | @inside _ outer read head nested below part houter hentered' hhead hnested hbelow hpart =>
    have hadded : BlockTree.AllDenote (read.length + 1 + head.lines.length) (nested ++ [b])
        (below ++ [r]) := by
      refine BlockTree.allDenote_concat hbelow ?_
      have hnumber : (read ++ (head.lines ++ BlockTree.linesOfAll nested)).length + 1 =
          read.length + 1 + head.lines.length + (BlockTree.linesOfAll nested).length := by
        simp only [List.length_append]
        omega
      rwa [← hnumber]
    have hall : ∀ c ∈ nested ++ [b], c.Grammatical :=
      List.forall_mem_append.2 ⟨hnested, List.forall_mem_singleton.2 hb⟩
    have hfollowUps : part = .followUps := congrArg Block.part (List.cons.inj hentered).1.symm
    have hread := inside houter hentered' hhead hall hadded (.inl hfollowUps)
    rw [BlockTree.linesOfAll_concat, List.reverse_concat] at hread
    rw [List.append_assoc, List.append_assoc]
    exact hread

/-- A block is open and nothing stands below it yet. -/
theorem inside_head {rules : List Rule} {outer : List Block} {read : List (List Char)}
    (houter : Reading ⟨rules, outer⟩ read) (hentered : RuleFile.enter outer = outer) {head : Head}
    (hhead : head.Grammatical) :
    Reading ⟨rules, head.block (read.length + 1) :: outer⟩ (read ++ head.lines) := by
  have hbelow : BlockTree.AllDenote (read.length + 1 + head.lines.length) [] [] := rfl
  have hnested : ∀ b ∈ ([] : List BlockTree), b.Grammatical := fun b hb => absurd hb (by simp)
  have hread := inside houter hentered hhead hnested hbelow (.inr ⟨rfl, rfl⟩)
  rw [List.reverse_nil, ← head.followUps_block (read.length + 1)] at hread
  rwa [BlockTree.linesOfAll, List.append_nil] at hread

/-- A block whose sections are being read is a head, and nothing stands below it. -/
theorem exists_head_of_part_ne {rules : List Rule} {b : Block} {outer : List Block}
    {read : List (List Char)} (h : Reading ⟨rules, b :: outer⟩ read) (hpart : b.part ≠ .followUps) :
    ∃ before head, read = before ++ Head.lines head ∧ b = head.block (before.length + 1) ∧
      head.Grammatical ∧ Reading ⟨rules, outer⟩ before ∧ RuleFile.enter outer = outer := by
  cases h with
  | @inside _ _ before head nested below part houter hentered hhead hnested hbelow hopen =>
    rcases hopen with hfollowUps | ⟨rfl, rfl⟩
    · exact absurd hfollowUps hpart
    · obtain rfl : below = [] := hbelow
      refine ⟨before, head, ?_, ?_, hhead, houter, hentered⟩
      · rw [BlockTree.linesOfAll, List.append_nil]
      · rw [List.reverse_nil, ← head.followUps_block (before.length + 1)]

/-- **Every line keeps the division**, and the division has the line. -/
theorem step {s s' : Reader} {read : List (List Char)} {line : List Char} (h : Reading s read)
    (hstep : Reader.Step (read.length + 1) s line s') : Reading s' (read ++ [line]) := by
  cases hstep with
  | separator hline =>
    cases h with
    | @outside rules file hfile hrules =>
      have hpiece : (Piece.separator line).Grammatical := hline
      have hmore : Piece.AllDenote ((file.flatMap Piece.lines).length + 1) [.separator line] [] :=
        rfl
      exact outside_concat hfile hrules hpiece hmore
  | @opener rules blocks _ hline =>
    have hentered : RuleFile.enter (RuleFile.enter blocks) = RuleFile.enter blocks := by
      cases blocks <;> rfl
    have hhead : Head.Grammatical ⟨line, [], none⟩ :=
      ⟨hline, fun _ h => absurd h (by simp), fun _ _ h => absurd h (by simp)⟩
    exact h.enter.inside_head hentered hhead
  | arrow hline hpart =>
    obtain ⟨before, head, rfl, rfl, hhead, houter, hentered⟩ :=
      h.exists_head_of_part_ne (by simp [hpart])
    have hnone := Head.template?_eq_none_of_part_block hpart
    have hread := houter.inside_head hentered (hhead.withArrow hline)
    rwa [Head.block_withArrow hnone, Head.lines_withArrow hnone, ← List.append_assoc] at hread
  | sectionLine hline hpart =>
    obtain ⟨before, head, rfl, rfl, hhead, houter, hentered⟩ := h.exists_head_of_part_ne hpart
    have hread := houter.inside_head hentered (hhead.withLine hline)
    rwa [Head.block_withLine, Head.lines_withLine, ← List.append_assoc] at hread
  | @closer rules b outer _ r hline hr =>
    cases h with
    | @inside _ _ read head nested below part houter hentered hhead hnested hbelow hpart =>
      obtain ⟨hnumber, hpattern, htemplate, rfl⟩ := Head.close_block_eq_ok_iff.1 hr
      have hb : BlockTree.Grammatical ⟨head, nested, line⟩ := .intro hhead hnested hline
      have hdenotes : BlockTree.Denotes (read.length + 1) ⟨head, nested, line⟩ r :=
        ⟨hnumber, hpattern, htemplate, hbelow⟩
      have hadded := houter.add hentered hb hdenotes
      simpa only [BlockTree.lines, List.append_assoc] using hadded

/-- A run of lines keeps the division. -/
theorem lines {read : List (List Char)} {more : List (List Char)} {s s' : Reader}
    (h : Reading s read) (hlines : s.lines more (read.length + 1) = .ok s') :
    Reading s' (read ++ more) := by
  induction more generalizing read s with
  | nil =>
    obtain rfl : s = s' := Except.ok.inj hlines
    rwa [List.append_nil]
  | cons line more ih =>
    rw [Reader.lines_cons] at hlines
    obtain ⟨s₁, hline, hmore⟩ := exists_of_bind_eq_ok hlines
    have hread := h.step (Reader.line_eq_ok_iff.1 hline)
    have hrest := ih hread (by rwa [List.length_append])
    rwa [List.append_assoc] at hrest

end Reading

/-- A reader that has read lines and has no open block holds a division of the lines. -/
theorem Reading.divides {s : Reader} {read : List (List Char)} (h : Reading s read)
    {rules : List Rule} (hfinish : s.finish = .ok rules) :
    ∃ file, Divides file read ∧ Piece.AllDenote 1 file rules := by
  cases h with
  | @outside rules' file hfile hrules =>
    obtain rfl : rules'.reverse = rules := Except.ok.inj hfinish
    exact ⟨file, ⟨hfile, rfl⟩, hrules⟩
  | inside => exact absurd hfinish (by simp [Reader.finish])

theorem readRules_eq_ok_iff {text : List Char} {rules : List Rule} :
    readRules text = .ok rules ↔
      ∃ file, Divides file (splitLines text) ∧ Piece.AllDenote 1 file rules := by
  constructor
  · intro h
    obtain ⟨s, hs, hfinish⟩ := exists_of_bind_eq_ok h
    exact (reading_start.lines hs).divides hfinish
  · rintro ⟨file, ⟨hgrammatical, hlines⟩, hrules⟩
    have hread := Piece.lines_eq_of_allDenote hgrammatical hrules []
    rw [readRules, ← hlines, Reader.start, hread]
    simp [Reader.finish, bind, Except.bind]

end TokenEdit.RuleFile
