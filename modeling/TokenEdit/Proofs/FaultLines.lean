import TokenEdit.Proofs.RuleReading

/-!
# The lines at which faults show

Three things can be wrong in a rule file, and at any depth.  They are found in the order of the
lines, not in the order of the blocks: a pattern is looked at when its block is closed, so the
pattern of an inner block comes before that of the block around it, and a line that may not stand
where it does comes before both if it stands further up.

What is told about a fault is nevertheless right.  The blocks that are open when a fault is found
are those whose opening lines have no partner above it, as with brackets, and the innermost of them
is the last such line.  This is read off the division of the lines that have been read
(`Reading`): behind an open block there are its sections and complete blocks, in which all lines
that open and close are in pairs (`OpenBlock.paired`).

* `Paired`, `Partners`: opening and closing lines as brackets.
* `Paired.exists_closer`: an opening line among paired lines has its partner there.
* `FoundAt`: how reading comes to a fault, with everything that is known then.
* `fault_shows_at_its_line`: what each of the three faults says about the lines.
-/

namespace TokenEdit.RuleFile

/-! ## Opening and closing lines as brackets -/

/-- The number of lines that open a block. -/
def openers (lines : List (List Char)) : Nat :=
  lines.countP fun line => Opens line

/-- The number of lines that close a block. -/
def closers (lines : List (List Char)) : Nat :=
  lines.countP fun line => Closes line

@[simp] theorem openers_append (left right : List (List Char)) :
    openers (left ++ right) = openers left + openers right :=
  List.countP_append

@[simp] theorem closers_append (left right : List (List Char)) :
    closers (left ++ right) = closers left + closers right :=
  List.countP_append

theorem openers_cons (line : List Char) (lines : List (List Char)) :
    openers (line :: lines) = openers lines + if Opens line then 1 else 0 := by
  simp [openers, List.countP_cons]

theorem closers_cons (line : List Char) (lines : List (List Char)) :
    closers (line :: lines) = closers lines + if Closes line then 1 else 0 := by
  simp [closers, List.countP_cons]

/-- The lines that open and close blocks are in pairs: no prefix closes more blocks than it opens,
and in all there are as many closing lines as opening ones. -/
structure Paired (lines : List (List Char)) : Prop where
  front_le : ∀ front, front <+: lines → closers front ≤ openers front
  closers_eq : closers lines = openers lines

/-- Line `number` is `line`, and the lines below it are `behind`. -/
def LineAt (lines : List (List Char)) (number : Nat) (line : List Char)
    (behind : List (List Char)) : Prop :=
  ∃ before, lines = before ++ line :: behind ∧ number = before.length + 1

/-- Line `closing` closes the block that line `opening` opens: between them all opening and closing
lines are in pairs. -/
def Partners (lines : List (List Char)) (opening closing : Nat) : Prop :=
  ∃ opener between closer behind, LineAt lines opening opener (between ++ closer :: behind) ∧
    Opens opener ∧ Closes closer ∧ Paired between ∧ closing = opening + between.length + 1

theorem paired_of_forall_not {lines : List (List Char)}
    (h : ∀ line ∈ lines, ¬ Opens line ∧ ¬ Closes line) : Paired lines := by
  have hopeners : ∀ front, front <+: lines → openers front = 0 := fun front hfront =>
    List.countP_eq_zero.2 fun line hline => by simpa using (h line (hfront.subset hline)).1
  have hclosers : ∀ front, front <+: lines → closers front = 0 := fun front hfront =>
    List.countP_eq_zero.2 fun line hline => by simpa using (h line (hfront.subset hline)).2
  refine ⟨fun front hfront => ?_, ?_⟩
  · rw [hclosers front hfront]
    exact Nat.zero_le _
  · rw [hopeners lines List.prefix_rfl, hclosers lines List.prefix_rfl]

theorem Paired.append {left right : List (List Char)} (hleft : Paired left)
    (hright : Paired right) : Paired (left ++ right) where
  front_le front hfront := by
    have hleftmost : left <+: left ++ right := List.prefix_append left right
    rcases List.prefix_or_prefix_of_prefix hfront hleftmost with hshort | ⟨more, rfl⟩
    · exact hleft.front_le front hshort
    · have hmore := hright.front_le more ((List.prefix_append_right_inj left).1 hfront)
      have hall := hleft.closers_eq
      rw [closers_append, openers_append]
      omega
  closers_eq := by rw [closers_append, openers_append, hleft.closers_eq, hright.closers_eq]

/-- Paired lines between a line that opens a block and one that closes it. -/
theorem Paired.enclose {opener closer : List Char} {between : List (List Char)}
    (h : Paired between) (hopener : Opens opener) (hcloser : Closes closer) :
    Paired (opener :: (between ++ [closer])) := by
  have hnot : ¬ Closes opener := fun hcloses => hcloses.not_opens hopener
  have hopeners (lines : List (List Char)) : openers (opener :: lines) = openers lines + 1 := by
    rw [openers_cons, if_pos hopener]
  have hclosers (lines : List (List Char)) : closers (opener :: lines) = closers lines := by
    rw [closers_cons, if_neg hnot, Nat.add_zero]
  have hlast : openers [closer] = 0 ∧ closers [closer] = 1 := by
    rw [openers_cons, closers_cons, if_neg hcloser.not_opens, if_pos hcloser]
    exact ⟨rfl, rfl⟩
  have hall := h.closers_eq
  refine ⟨fun front hfront => ?_, ?_⟩
  · rcases List.prefix_cons_iff.1 hfront with rfl | ⟨more, rfl, hmore⟩
    · exact Nat.le_refl 0
    · rw [hopeners, hclosers]
      rcases List.prefix_concat_iff.1 hmore with rfl | hwithin
      · rw [openers_append, closers_append]
        omega
      · exact Nat.le_succ_of_le (h.front_le more hwithin)
  · rw [hopeners, hclosers, openers_append, closers_append]
    omega

/-- The first line that closes more than `depth` open blocks and those opened before it. -/
theorem exists_closer {lines : List (List Char)} {depth : Nat}
    (h : depth + openers lines < closers lines) :
    ∃ between closer behind, lines = between ++ closer :: behind ∧ Closes closer ∧
      (∀ front, front <+: between → closers front ≤ depth + openers front) ∧
        closers between = depth + openers between := by
  induction lines generalizing depth with
  | nil => exact absurd h (Nat.not_lt_zero _)
  | cons line lines ih =>
    by_cases hfirst : Closes line ∧ depth = 0
    · obtain ⟨hcloses, rfl⟩ := hfirst
      refine ⟨[], line, lines, rfl, hcloses, fun front hfront => ?_, rfl⟩
      rw [List.prefix_nil.1 hfront]
      exact Nat.le_refl 0
    · -- the line leaves a number of blocks open, with which the lines below it are searched
      obtain ⟨depth', hdepth⟩ : ∃ depth', depth + openers [line] = depth' + closers [line] := by
        refine ⟨depth + openers [line] - closers [line], ?_⟩
        rw [openers_cons, closers_cons]
        by_cases hcloses : Closes line
        · have hpos : depth ≠ 0 := fun hzero => hfirst ⟨hcloses, hzero⟩
          rw [if_pos hcloses, if_neg hcloses.not_opens]
          simp only [openers, closers, List.countP_nil]
          omega
        · rw [if_neg hcloses]
          simp only [closers, List.countP_nil]
          omega
      have hopeners (front : List (List Char)) :
          openers (line :: front) = openers [line] + openers front :=
        openers_append [line] front
      have hclosers (front : List (List Char)) :
          closers (line :: front) = closers [line] + closers front :=
        closers_append [line] front
      have hbelow : depth' + openers lines < closers lines := by
        rw [hopeners, hclosers] at h
        omega
      obtain ⟨between, closer, behind, rfl, hcloser, hfront, hall⟩ := ih hbelow
      refine ⟨line :: between, closer, behind, rfl, hcloser, fun front hprefixed => ?_, ?_⟩
      · rcases List.prefix_cons_iff.1 hprefixed with rfl | ⟨more, rfl, hmore⟩
        · exact Nat.zero_le _
        · have hle := hfront more hmore
          rw [hopeners, hclosers]
          omega
      · rw [hopeners, hclosers]
        omega

/-- **An opening line among paired lines has its partner there.** -/
theorem Paired.exists_closer {before behind : List (List Char)} {opener : List Char}
    (h : Paired (before ++ opener :: behind)) (hopener : Opens opener) :
    ∃ between closer rest, behind = between ++ closer :: rest ∧ Closes closer ∧
      Paired between := by
  have hfront := h.front_le before (List.prefix_append _ _)
  have hall := h.closers_eq
  have hnot : ¬ Closes opener := fun hcloses => hcloses.not_opens hopener
  rw [openers_append, closers_append, openers_cons, closers_cons, if_pos hopener,
    if_neg hnot] at hall
  have hbelow : 0 + openers behind < closers behind := by omega
  obtain ⟨between, closer, rest, rfl, hcloser, hle, heq⟩ := RuleFile.exists_closer hbelow
  refine ⟨between, closer, rest, rfl, hcloser, fun front hprefixed => ?_, ?_⟩
  · have hfront := hle front hprefixed
    omega
  · omega

/-- Paired lines hold no line that closes a block opened above them. -/
theorem Paired.not_closes {between behind : List (List Char)} {closer : List Char}
    (h : Paired (between ++ closer :: behind)) (hbetween : Paired between) : ¬ Closes closer := by
  intro hcloser
  have hfront := h.front_le (between ++ [closer]) (by simp)
  have hall := hbetween.closers_eq
  rw [openers_append, closers_append, openers_cons, closers_cons, if_pos hcloser,
    if_neg hcloser.not_opens] at hfront
  simp only [openers, closers, List.countP_nil] at hfront hall
  omega

/-! ## Numbered lines -/

/-- A line with a larger number is one of the lines below. -/
theorem LineAt.exists_of_lt {lines : List (List Char)} {number number' : Nat}
    {line line' : List Char} {behind behind' : List (List Char)}
    (h : LineAt lines number line behind) (h' : LineAt lines number' line' behind')
    (hlt : number < number') :
    ∃ between, behind = between ++ line' :: behind' ∧ number' = number + between.length + 1 := by
  obtain ⟨before, rfl, rfl⟩ := h
  obtain ⟨before', heq, rfl⟩ := h'
  rcases List.append_eq_append_iff.1 heq with ⟨middle, rfl, hmiddle⟩ | ⟨middle, rfl, -⟩
  · cases middle with
    | nil => exact absurd hlt (by simp)
    | cons first between =>
      obtain ⟨rfl, rfl⟩ := List.cons.inj hmiddle
      exact ⟨between, rfl, by simp only [List.length_append, List.length_cons]; omega⟩
  · rw [List.length_append] at hlt
    omega

theorem LineAt.unique {lines : List (List Char)} {number : Nat} {line line' : List Char}
    {behind behind' : List (List Char)} (h : LineAt lines number line behind)
    (h' : LineAt lines number line' behind') : line = line' ∧ behind = behind' := by
  obtain ⟨before, rfl, rfl⟩ := h
  obtain ⟨before', heq, hnumber⟩ := h'
  obtain ⟨-, hcons⟩ := List.append_inj heq (Nat.succ.inj hnumber)
  exact List.cons.inj hcons

/-- The lines up to a line, when those in front of it are given. -/
theorem take_length_succ (read : List (List Char)) (line : List Char)
    (behind : List (List Char)) :
    (read ++ line :: behind).take (read.length + 1) = read ++ [line] := by
  rw [List.take_length_add_append, List.take_succ_cons, List.take_zero]

/-! ## Blocks -/

theorem Head.Grammatical.paired_sections {h : Head} (hh : h.Grammatical) :
    Paired (h.pattern ++ h.templateLines) := by
  refine paired_of_forall_not fun line hline => ?_
  rcases List.mem_append.1 hline with hline | hline
  · exact ⟨(hh.pattern line hline).1, (hh.pattern line hline).2.1⟩
  · unfold Head.templateLines at hline
    split at hline
    · exact absurd hline (by simp)
    next arrow lines htemplate =>
      obtain ⟨harrow, hlines⟩ := hh.template arrow lines htemplate
      rcases List.mem_cons.1 hline with rfl | hline
      · exact ⟨harrow.not_opens, harrow.not_closes⟩
      · exact ⟨(hlines line hline).1, (hlines line hline).2.1⟩

namespace BlockTree

mutual

/-- The lines of a block are in pairs. -/
theorem paired_lines : ∀ {b : BlockTree}, b.Grammatical → Paired b.lines
  | ⟨head, nested, closer⟩, ⟨hhead, hnested, hcloser⟩ => by
    have hpaired := (hhead.paired_sections.append (paired_linesOfAll hnested)).enclose
      hhead.opener hcloser
    simpa only [lines, Head.lines, List.cons_append, List.append_assoc] using hpaired

theorem paired_linesOfAll : ∀ {bs : List BlockTree}, (∀ b ∈ bs, b.Grammatical) →
    Paired (linesOfAll bs)
  | [], _ => paired_of_forall_not fun line hline => absurd hline (by simp [linesOfAll])
  | b :: bs, hbs => by
    obtain ⟨hb, hbs⟩ := List.forall_mem_cons.1 hbs
    exact (paired_lines hb).append (paired_linesOfAll hbs)

end

end BlockTree

/-! ## The innermost open block -/

/-- What has been read of an open block: behind the lines `before`, its head and the blocks
below it. -/
structure OpenBlock (b : Block) (read before : List (List Char)) (head : Head)
    (nested : List BlockTree) : Prop where
  read_eq : read = before ++ (head.lines ++ BlockTree.linesOfAll nested)
  line_eq : b.line = before.length + 1
  patternLines_eq : b.patternLines = head.pattern.reverse
  head : head.Grammatical
  nested : ∀ c ∈ nested, c.Grammatical

/-- A reader holds what it has read of the innermost open block. -/
theorem Reading.exists_openBlock {rules : List Rule} {b : Block} {outer : List Block}
    {read : List (List Char)} (h : Reading ⟨rules, b :: outer⟩ read) :
    ∃ before head nested, OpenBlock b read before head nested := by
  cases h with
  | @inside _ _ before head nested below part houter hentered hhead hnested hbelow hpart =>
    exact ⟨before, head, nested, rfl, head.line_block _, head.patternLines_block _, hhead, hnested⟩

/-- The lines `lines`, up to the next mark, are those of the pattern of a block whose opening line
stands above `behind`. -/
def LeadingSection (lines behind : List (List Char)) : Prop :=
  (∀ line ∈ lines, IsSectionLine line) ∧
    ∃ rest, behind = lines ++ rest ∧ ∀ line ∈ rest.head?, ¬ IsSectionLine line

namespace OpenBlock

/-- The lines of a block that have been read behind its opening line. -/
def behindOpener (head : Head) (nested : List BlockTree) : List (List Char) :=
  head.pattern ++ (head.templateLines ++ BlockTree.linesOfAll nested)

variable {b : Block} {read before : List (List Char)} {head : Head} {nested : List BlockTree}

theorem lineAt (h : OpenBlock b read before head nested) (rest : List (List Char)) :
    LineAt (read ++ rest) b.line head.opener (behindOpener head nested ++ rest) := by
  refine ⟨before, ?_, h.line_eq⟩
  rw [h.read_eq]
  simp only [Head.lines, behindOpener, List.append_assoc, List.cons_append]

theorem lineAt_read (h : OpenBlock b read before head nested) :
    LineAt read b.line head.opener (behindOpener head nested) := by
  have hline := h.lineAt []
  rwa [List.append_nil, List.append_nil] at hline

theorem length_read (h : OpenBlock b read before head nested) :
    read.length = b.line + (behindOpener head nested).length := by
  rw [h.read_eq, h.line_eq]
  simp only [Head.lines, behindOpener, List.length_append, List.length_cons]
  omega

theorem paired (h : OpenBlock b read before head nested) : Paired (behindOpener head nested) := by
  have hpaired := h.head.paired_sections.append (BlockTree.paired_linesOfAll h.nested)
  rwa [List.append_assoc] at hpaired

/-- A closing line closes the innermost open block. -/
theorem partners (h : OpenBlock b read before head nested) {closer : List Char}
    (hcloser : Closes closer) (rest : List (List Char)) :
    Partners (read ++ closer :: rest) b.line (read.length + 1) :=
  ⟨_, _, closer, rest, h.lineAt (closer :: rest), h.head.opener, hcloser, h.paired,
    congrArg (· + 1) h.length_read⟩

theorem leadingSection (h : OpenBlock b read before head nested) {closer : List Char}
    (hcloser : Closes closer) (rest : List (List Char)) :
    LeadingSection head.pattern (behindOpener head nested ++ closer :: rest) := by
  refine ⟨h.head.pattern, head.templateLines ++ (BlockTree.linesOfAll nested ++ closer :: rest),
    by simp only [behindOpener, List.append_assoc], ?_⟩
  exact h.head.not_isSectionLine_behind_pattern (BlockTree.behindHead h.nested hcloser rest)

/-- No line read closes the innermost open block. -/
theorem not_partners (h : OpenBlock b read before head nested) (closing : Nat) :
    ¬ Partners read b.line closing := by
  rintro ⟨opener, between, closer, behind, hline, -, hcloser, hbetween, -⟩
  obtain ⟨-, heq⟩ := h.lineAt_read.unique hline
  have hpaired := h.paired
  rw [heq] at hpaired
  exact hpaired.not_closes hbetween hcloser

/-- Every opening line below the one of the innermost open block has a partner. -/
theorem exists_partners (h : OpenBlock b read before head nested) {number : Nat}
    {opener : List Char} {behind : List (List Char)} (hlt : b.line < number)
    (hline : LineAt read number opener behind) (hopener : Opens opener) :
    ∃ closing, Partners read number closing := by
  obtain ⟨above, heq, -⟩ := h.lineAt_read.exists_of_lt hline hlt
  have hpaired := h.paired
  rw [heq] at hpaired
  obtain ⟨between, closer, rest, rfl, hcloser, hbetween⟩ := hpaired.exists_closer hopener
  exact ⟨_, opener, between, closer, rest, hline, hopener, hcloser, hbetween, rfl⟩

end OpenBlock

/-! ## How reading comes to a fault -/

/-- The text of a line without the blanks at its end. -/
def IsTrimmed (line text : List Char) : Prop :=
  ∃ trailing, line = text ++ trailing ∧ (∀ c ∈ trailing, Text.isBlank c = true) ∧
    ∀ c ∈ text.getLast?, Text.isBlank c = false

theorem isTrimmed_trimEnd (line : List Char) : IsTrimmed line (Text.trimEnd line) := by
  refine ⟨(line.reverse.takeWhile Text.isBlank).reverse, ?_, fun c hc => ?_, fun c hc => ?_⟩
  · rw [Text.trimEnd, ← List.reverse_append, List.takeWhile_append_dropWhile, List.reverse_reverse]
  · exact List.all_eq_true.1 List.all_takeWhile c (List.mem_reverse.1 hc)
  · rw [Text.trimEnd, List.getLast?_reverse, Option.mem_def] at hc
    have hnot := List.head?_dropWhile_not Text.isBlank line.reverse
    rw [hc] at hnot
    exact hnot

namespace Reader

/-- A line is a fault where it may not stand, or where it closes a block without a pattern. -/
theorem line_eq_error {s : Reader} {line : List Char} {number : Nat} {e : RuleFileError}
    (h : s.line line number = .error e) :
    e = ⟨number, .unexpectedLine (Text.trimEnd line)⟩ ∨
      ∃ rules b outer, s = ⟨rules, b :: outer⟩ ∧ Closes line ∧ b.close = .error e := by
  have hkind := LineKind.says_ofLine line
  obtain ⟨rules, blocks⟩ := s
  cases blocks with
  | nil =>
    cases hline : LineKind.ofLine line <;>
      simp only [Reader.line, hline, reduceCtorEq, Except.error.injEq] at h
    all_goals exact .inl h.symm
  | cons b outer =>
    cases hline : LineKind.ofLine line <;> simp only [Reader.line, hline] at h
    case opener => exact absurd h (by simp)
    case closer =>
      rw [hline] at hkind
      refine .inr ⟨rules, b, outer, rfl, hkind, ?_⟩
      cases hclose : b.close with
      | error e' =>
        rw [hclose] at h
        exact congrArg Except.error (Except.error.inj h)
      | ok r =>
        rw [hclose] at h
        exact absurd h (by simp [bind, Except.bind, pure, Except.pure])
    all_goals
      cases hpart : b.part <;> simp only [hpart, reduceCtorEq, Except.error.injEq] at h
      all_goals exact .inl h.symm

theorem exists_line_eq_error {s : Reader} {texts : List (List Char)} {number : Nat}
    {e : RuleFileError} (h : s.lines texts number = .error e) :
    ∃ read line behind s', texts = read ++ line :: behind ∧ s.lines read number = .ok s' ∧
      s'.line line (number + read.length) = .error e := by
  induction texts generalizing s number with
  | nil => exact absurd h (by simp [lines_nil])
  | cons text texts ih =>
    rw [lines_cons] at h
    cases hline : s.line text number with
    | error e' =>
      rw [hline] at h
      obtain rfl : e' = e := Except.error.inj h
      exact ⟨[], text, texts, s, rfl, rfl, hline⟩
    | ok s₁ =>
      rw [hline] at h
      obtain ⟨read, line, behind, s', rfl, hread, herror⟩ := ih h
      refine ⟨text :: read, line, behind, s', rfl, ?_, ?_⟩
      · rw [lines_cons, hline]
        exact hread
      · rwa [List.length_cons, Nat.add_comm read.length 1, ← Nat.add_assoc]

end Reader

theorem Block.close_eq_error {b : Block} {e : RuleFileError} (h : b.close = .error e) :
    ∃ error, Pattern.ofText (sectionText b.patternLines) = .error error ∧
      e = ⟨b.line, .invalidPattern error⟩ := by
  unfold Block.close at h
  split at h
  next error herror => exact ⟨error, herror, (Except.error.inj h).symm⟩
  · exact absurd h (by simp)

/-- How reading comes to a fault: at a line that may not stand where it does, at a line that closes
a block without a pattern, or at the end, when a block is open.  The first two are found when the
line and the lines above it have been read. -/
inductive FoundAt (lines : List (List Char)) : RuleFileError → Prop
  | unexpected {read behind : List (List Char)} {line : List Char}
      (hlines : lines = read ++ line :: behind)
      (hread : Reader.start.lines (read ++ [line]) 1 =
        .error ⟨read.length + 1, .unexpectedLine (Text.trimEnd line)⟩) :
      FoundAt lines ⟨read.length + 1, .unexpectedLine (Text.trimEnd line)⟩
  | invalid {read behind before : List (List Char)} {closer : List Char} {b : Block} {head : Head}
      {nested : List BlockTree} {error : PatternError} (hlines : lines = read ++ closer :: behind)
      (hcloser : Closes closer) (hopen : OpenBlock b read before head nested)
      (hpattern : Pattern.ofText (sectionText head.pattern.reverse) = .error error)
      (hread : Reader.start.lines (read ++ [closer]) 1 = .error ⟨b.line, .invalidPattern error⟩) :
      FoundAt lines ⟨b.line, .invalidPattern error⟩
  | unterminated {before : List (List Char)} {b : Block} {head : Head} {nested : List BlockTree}
      (hopen : OpenBlock b lines before head nested) : FoundAt lines ⟨b.line, .unterminatedBlock⟩

/-- A line that is a fault, behind lines that have been read. -/
theorem foundAt_of_line_eq_error {read behind : List (List Char)} {line : List Char} {s : Reader}
    {e : RuleFileError} (hs : Reader.start.lines read 1 = .ok s)
    (hline : s.line line (read.length + 1) = .error e) : FoundAt (read ++ line :: behind) e := by
  have hread : Reader.start.lines (read ++ [line]) 1 = .error e := by
    rw [Reader.lines_append_of_eq hs, Reader.lines_cons, Nat.add_comm, hline]
    rfl
  rcases Reader.line_eq_error hline with rfl | ⟨rules, b, outer, rfl, hcloser, hclose⟩
  · exact .unexpected rfl hread
  · obtain ⟨error, hpattern, rfl⟩ := Block.close_eq_error hclose
    obtain ⟨before, head, nested, hopen⟩ := (reading_start.lines hs).exists_openBlock
    exact .invalid rfl hcloser hopen (hopen.patternLines_eq ▸ hpattern) hread

/-- **Every fault is found in one of these ways.** -/
theorem foundAt_of_readRules_eq_error {text : List Char} {e : RuleFileError}
    (h : readRules text = .error e) : FoundAt (splitLines text) e := by
  cases hlines : Reader.start.lines (splitLines text) 1 with
  | error e' =>
    rw [readRules, hlines] at h
    obtain rfl : e' = e := Except.error.inj h
    obtain ⟨read, line, behind, s, hsplit, hread, hline⟩ := Reader.exists_line_eq_error hlines
    rw [Nat.add_comm] at hline
    rw [hsplit]
    exact foundAt_of_line_eq_error hread hline
  | ok s =>
    rw [readRules, hlines] at h
    obtain ⟨rules, blocks⟩ := s
    cases blocks with
    | nil => exact absurd h (by simp [bind, Except.bind, Reader.finish])
    | cons b outer =>
      obtain rfl : ⟨b.line, .unterminatedBlock⟩ = e := Except.error.inj h
      obtain ⟨before, head, nested, hopen⟩ := (reading_start.lines hlines).exists_openBlock
      exact .unterminated hopen

/-- A fault that shows in the first lines shows in every text with these lines. -/
theorem readRules_eq_error_of_take {lines : List (List Char)} {e : RuleFileError}
    (h : Reader.start.lines lines 1 = .error e) {text : List Char}
    (htake : (splitLines text).take lines.length = lines) : readRules text = .error e := by
  rw [readRules, ← List.take_append_drop lines.length (splitLines text), htake,
    Reader.lines_append, h]
  rfl

/-- **Faults show at the right line and only by what stands above.**  Let a rule file have a fault.

* A line that may not stand where it does is a line of the file, it has the number of the fault, and
  the fault tells its text without the blanks at the end.  Every text that has the same lines up to
  this one has the same fault.
* A pattern that is none belongs to a block that the line of the fault opens, and that a line
  further down closes.  It is the section behind the opening line, and reading it fails as the fault
  says.  Every text that has the same lines up to the closing one has the same fault.
* A block without an end is opened by the line of the fault.  No line closes it, and every block
  that is opened further down is closed. -/
theorem fault_shows_at_its_line {text : List Char} {e : RuleFileError}
    (h : readRules text = .error e) :
    (∀ x, e.fault = .unexpectedLine x →
        (∃ line behind, LineAt (splitLines text) e.line line behind ∧ IsTrimmed line x) ∧
          ∀ text', (splitLines text').take e.line = (splitLines text).take e.line →
            readRules text' = .error e) ∧
      (∀ error, e.fault = .invalidPattern error →
        ∃ opener behind patternLines patternText closing,
          LineAt (splitLines text) e.line opener behind ∧ Opens opener ∧
            e.line < closing ∧ Partners (splitLines text) e.line closing ∧
            LeadingSection patternLines behind ∧ IsStripped patternLines.flatten patternText ∧
            Pattern.ofText patternText = .error error ∧
            ∀ text', (splitLines text').take closing = (splitLines text).take closing →
              readRules text' = .error e) ∧
      (e.fault = .unterminatedBlock →
        (∃ opener behind, LineAt (splitLines text) e.line opener behind ∧ Opens opener) ∧
          (∀ closing, ¬ Partners (splitLines text) e.line closing) ∧
          ∀ number opener behind, e.line < number →
            LineAt (splitLines text) number opener behind → Opens opener →
              ∃ closing, Partners (splitLines text) number closing) := by
  cases foundAt_of_readRules_eq_error h with
  | @unexpected read behind line hlines hread =>
    refine ⟨fun x hx => ?_, fun error herror => absurd herror (by simp),
      fun hend => absurd hend (by simp)⟩
    obtain rfl := RuleFileFault.unexpectedLine.inj hx
    refine ⟨⟨line, behind, ⟨read, hlines, rfl⟩, isTrimmed_trimEnd line⟩, fun text' htake => ?_⟩
    rw [hlines, take_length_succ] at htake
    exact readRules_eq_error_of_take hread (by rwa [List.length_append])
  | @invalid read behind before closer b head nested error hlines hcloser hopen hpattern hread =>
    refine ⟨fun x hx => absurd hx (by simp), fun error' herror => ?_,
      fun hend => absurd hend (by simp)⟩
    obtain rfl := RuleFileFault.invalidPattern.inj herror
    have hlt : b.line < read.length + 1 := by
      have hlength := hopen.length_read
      omega
    rw [hlines]
    refine ⟨head.opener, _, head.pattern, _, read.length + 1, hopen.lineAt (closer :: behind),
      hopen.head.opener, hlt, hopen.partners hcloser behind, hopen.leadingSection hcloser behind,
      isStripped_sectionText head.pattern, hpattern, fun text' htake => ?_⟩
    rw [take_length_succ] at htake
    exact readRules_eq_error_of_take hread (by rwa [List.length_append])
  | @unterminated before b head nested hopen =>
    refine ⟨fun x hx => absurd hx (by simp), fun error herror => absurd herror (by simp),
      fun _ => ⟨⟨_, _, hopen.lineAt_read, hopen.head.opener⟩, hopen.not_partners, ?_⟩⟩
    intro number opener behind hlt hline hopener
    exact hopen.exists_partners hlt hline hopener

/-- A pattern that is none in an inner block, while the outer one is open; a line behind an inner
block; and an outer block without an end. -/
theorem faults_of_nested_blocks :
    let written (lines : List String) : List Char :=
      lines.flatMap fun line => line.toList ++ ['\n']
    let inner := written ["@@\x7b", "=>", "a", "@@\x7b", "ID", "\x7d@@"]
    let outer := written ["@@\x7b", "a", "@@\x7b", "b", "\x7d@@"]
    let error : PatternError := .missingCaptureName .ident
    (readRules inner = .error ⟨4, .invalidPattern error⟩ ∧
        ∃ closing, Partners (splitLines inner) 4 closing ∧
          ∀ text, (splitLines text).take closing = (splitLines inner).take closing →
            readRules text = .error ⟨4, .invalidPattern error⟩) ∧
      (readRules (outer ++ "c ".toList) = .error ⟨6, .unexpectedLine ['c']⟩ ∧
        ∃ line behind, LineAt (splitLines (outer ++ "c ".toList)) 6 line behind ∧
          IsTrimmed line ['c']) ∧
      readRules outer = .error ⟨1, .unterminatedBlock⟩ ∧
        (∃ closing, Partners (splitLines outer) 3 closing) ∧
        ∀ closing, ¬ Partners (splitLines outer) 1 closing := by
  intro written inner outer error
  -- faults can be told apart, answers cannot
  have hfault {text : List Char} {e : RuleFileError}
      (h : (match readRules text with | .error e => some e | .ok _ => none) = some e) :
      readRules text = .error e := by
    cases hread : readRules text with
    | error e' =>
      rw [hread] at h
      rw [Option.some.inj h]
    | ok rules =>
      rw [hread] at h
      exact absurd h (by simp)
  have hinner : readRules inner = .error ⟨4, .invalidPattern error⟩ :=
    hfault (by decide +kernel)
  have hline : readRules (outer ++ "c ".toList) = .error ⟨6, .unexpectedLine ['c']⟩ :=
    hfault (by decide +kernel)
  have houter : readRules outer = .error ⟨1, .unterminatedBlock⟩ := hfault (by decide +kernel)
  have hthird : LineAt (splitLines outer) 3 "@@\x7b\n".toList ["b\n".toList, "\x7d@@\n".toList] :=
    ⟨["@@\x7b\n".toList, "a\n".toList], by decide, rfl⟩
  obtain ⟨_, _, _, _, closing, -, -, -, hpartners, -, -, -, hsame⟩ :=
    (fault_shows_at_its_line hinner).2.1 error rfl
  obtain ⟨-, hopen, hclosed⟩ := (fault_shows_at_its_line houter).2.2 rfl
  exact ⟨⟨hinner, closing, hpartners, hsame⟩,
    ⟨hline, ((fault_shows_at_its_line hline).1 _ rfl).1⟩, houter,
    hclosed 3 _ _ (by decide) hthird (by decide), hopen⟩

end TokenEdit.RuleFile
