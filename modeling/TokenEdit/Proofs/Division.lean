import Mathlib.Logic.ExistsUnique
import TokenEdit.Proofs.Nesting
import TokenEdit.Proofs.Occurrence

/-!
# How a rule without follow-ups divides a list

A rule without follow-ups reads a list once.  What it does can be said by cutting the list into
pieces: tokens that are copied, an occurrence, tokens that are copied, another occurrence, and so
on, and at last the tokens that are not looked at, which are none or start at a bracket that
closes a scope opened before the list.

`Division.Fits` says which cuts are meant, without mention of the scan: the pattern occurs where a
piece starts, it occurs nowhere else among the tokens copied, the brackets copied never close more
than is open, and the list is cut off only where they do.  The statement of this module is that
there is exactly one such division, and that it gives the result of the scan, its number of
occurrences and its bindings.

A division is read from the left.  Its first token is copied, or starts an occurrence, or is where
the list is cut off, and the lemmas `Division.fits_cons_delimiter`,
`Division.fits_cons_significant`, `Division.fits_cons_piece` and `Division.fits_rest` open these
cases.  The cases exclude each other, hence there is at most one division; and they are the steps
of a scan, hence there is one.
-/

namespace TokenEdit

/-! ## Divisions -/

/-- An occurrence and the tokens copied behind it, up to the next one. -/
structure Piece where
  /-- The tokens of the occurrence. -/
  taken : List Token
  /-- The tokens put in their place. -/
  put : List Token
  /-- The bindings with the captures of the occurrence. -/
  bindings : Bindings
  /-- The tokens copied behind it. -/
  copied : List Token

namespace Piece

/-- The tokens that pieces are cut from. -/
def source (ps : List Piece) : List Token :=
  ps.flatMap fun p => p.taken ++ p.copied

/-- The tokens that pieces become. -/
def result (ps : List Piece) : List Token :=
  ps.flatMap fun p => p.put ++ p.copied

/-- The bindings behind pieces, when `b` are those in front of them. -/
def bindingsAfter (b : Bindings) (ps : List Piece) : Bindings :=
  ps.foldl (fun _ p => p.bindings) b

end Piece

/-- A list of tokens, cut into pieces. -/
structure Division where
  /-- The tokens copied in front of the first occurrence. -/
  lead : List Token
  pieces : List Piece
  /-- The tokens that are not looked at. -/
  rest : List Token

/-- The column reached by the delimiters among some tokens; no other token counts. -/
def delimiterColumn (column : Nat) (ts : List Token) : Nat :=
  (ts.filter Token.isDelimiter).foldl (fun column t => columnAfter column t.text) column

theorem delimiterColumn_cons_of_isDelimiter {t : Token} (ht : t.isDelimiter = true) (column : Nat)
    (ts : List Token) :
    delimiterColumn column (t :: ts) = delimiterColumn (columnAfter column t.text) ts := by
  rw [delimiterColumn, List.filter_cons_of_pos ht, List.foldl_cons, delimiterColumn]

theorem delimiterColumn_cons_of_significant {t : Token} (ht : t.isDelimiter = false)
    (column : Nat) (ts : List Token) :
    delimiterColumn column (t :: ts) = delimiterColumn column ts := by
  rw [delimiterColumn, List.filter_cons_of_neg (by simp [ht]), delimiterColumn]

/-- At no significant token among `ts`, which stand in front of `behind`, the pattern occurs. -/
def Pattern.Absent (p : Pattern) (b : Bindings) (ts behind : List Token) : Prop :=
  ∀ before t after, ts = before ++ t :: after → t.isDelimiter = false →
    (p.attempt b (t :: (after ++ behind))).1 = none

/-- The conditions on the pieces of a division.  In front of them the bindings are `b`, and
`copied` are all tokens copied.  Each piece starts with a significant token, at which the pattern
occurs; it takes the tokens of the piece.  The margin of the tokens put in is the column that the
delimiters copied until then have reached, and the pattern does not occur among the tokens copied
behind. -/
def Rule.Cuts (r : Rule) (column : Nat) (rest : List Token) :
    Bindings → List Token → List Piece → Prop
  | _, _, [] => True
  | b, copied, p :: ps =>
    (∃ t ts, p.taken = t :: ts ∧ t.isDelimiter = false) ∧
    r.pattern.attempt b (p.taken ++ (p.copied ++ (Piece.source ps ++ rest))) =
      (some p.taken.length, p.bindings) ∧
    p.put = r.template.expand p.bindings (delimiterColumn column copied) ∧
    r.pattern.Absent p.bindings p.copied (Piece.source ps ++ rest) ∧
    r.Cuts column rest p.bindings (copied ++ p.copied) ps

namespace Division

/-- The list that is divided. -/
def source (d : Division) : List Token :=
  d.lead ++ (Piece.source d.pieces ++ d.rest)

/-- What becomes of it. -/
def result (d : Division) : List Token :=
  d.lead ++ (Piece.result d.pieces ++ d.rest)

/-- The tokens copied, those behind the place where the list is cut off apart. -/
def copied (d : Division) : List Token :=
  d.lead ++ d.pieces.flatMap Piece.copied

/-- The bindings at the end. -/
def bindingsAfter (d : Division) (b : Bindings) : Bindings :=
  Piece.bindingsAfter b d.pieces

/-- The division is the one that a rule without follow-ups makes, when it starts with bindings `b`
at the given column and with `depth` brackets open. -/
structure Fits (r : Rule) (b : Bindings) (column depth : Nat) (d : Division) : Prop where
  lead : r.pattern.Absent b d.lead (Piece.source d.pieces ++ d.rest)
  pieces : r.Cuts column d.rest b d.lead d.pieces
  rest : (r.pattern.attempt (d.bindingsAfter b) d.rest).1 = none
  nested : Nested depth d.copied
  /-- The list ends, or it is cut off at a bracket whose partner is not in it. -/
  stop : d.rest = [] ∨
    (∃ t ts, d.rest = t :: ts ∧ t.isDelimiter = false ∧ t.text = ['}']) ∧ Closed depth d.copied

end Division

/-! ## Reading a division from the left -/

theorem Pattern.absent_nil (p : Pattern) (b : Bindings) (behind : List Token) :
    p.Absent b [] behind := by
  intro before t after h
  exact absurd h (by simp)

theorem Pattern.absent_cons_iff {p : Pattern} {b : Bindings} {t : Token} {ts behind : List Token} :
    p.Absent b (t :: ts) behind ↔
      (t.isDelimiter = false → (p.attempt b (t :: (ts ++ behind))).1 = none) ∧
        p.Absent b ts behind := by
  constructor
  · intro h
    refine ⟨h [] t ts rfl, fun before t' after hts ht' => ?_⟩
    exact h (t :: before) t' after (by rw [hts, List.cons_append]) ht'
  · rintro ⟨hfirst, h⟩ before t' after hts ht'
    cases before with
    | nil =>
      obtain ⟨rfl, rfl⟩ := List.cons.inj hts
      exact hfirst ht'
    | cons t'' before => exact h before t' after (List.cons.inj hts).2 ht'

/-- Only the column that the tokens copied have reached is of concern to the pieces. -/
theorem Rule.cuts_congr {r : Rule} {column column' : Nat} {rest : List Token} {ps : List Piece}
    {b : Bindings} {copied copied' : List Token}
    (h : ∀ more, delimiterColumn column (copied ++ more) =
      delimiterColumn column' (copied' ++ more)) :
    r.Cuts column rest b copied ps ↔ r.Cuts column' rest b copied' ps := by
  induction ps generalizing b copied copied' with
  | nil => exact Iff.rfl
  | cons p ps ih =>
    have hhere : delimiterColumn column copied = delimiterColumn column' copied' := by
      have hnil := h []
      rwa [List.append_nil, List.append_nil] at hnil
    have hnext : r.Cuts column rest p.bindings (copied ++ p.copied) ps ↔
        r.Cuts column' rest p.bindings (copied' ++ p.copied) ps :=
      ih fun more => by rw [List.append_assoc, List.append_assoc, h]
    rw [Rule.Cuts, Rule.Cuts, hhere, hnext]

namespace Division

variable {r : Rule} {b : Bindings} {column depth : Nat} {t : Token} {ts rest : List Token}
  {p : Piece} {ps : List Piece}

theorem source_cons_piece (p : Piece) (ps : List Piece) (rest : List Token) :
    source ⟨[], p :: ps, rest⟩ = p.taken ++ source ⟨p.copied, ps, rest⟩ := by
  simp [source, Piece.source]

/-- A division that starts with a delimiter: it is copied, and moves the column. -/
theorem fits_cons_delimiter (ht : t.isDelimiter = true) :
    Fits r b column depth ⟨t :: ts, ps, rest⟩ ↔
      Fits r b (columnAfter column t.text) depth ⟨ts, ps, rest⟩ := by
  have hcuts : r.Cuts column rest b (t :: ts) ps ↔
      r.Cuts (columnAfter column t.text) rest b ts ps :=
    Rule.cuts_congr fun more => delimiterColumn_cons_of_isDelimiter ht column (ts ++ more)
  have habsent (behind : List Token) :
      r.pattern.Absent b (t :: ts) behind ↔ r.pattern.Absent b ts behind := by
    simp [Pattern.absent_cons_iff, ht]
  constructor
  · intro h
    exact ⟨(habsent _).1 h.lead, hcuts.1 h.pieces, h.rest,
      (nested_cons_of_isDelimiter ht).1 h.nested,
      h.stop.imp_right (And.imp_right (closed_cons_of_isDelimiter ht).1)⟩
  · intro h
    exact ⟨(habsent _).2 h.lead, hcuts.2 h.pieces, h.rest,
      (nested_cons_of_isDelimiter ht).2 h.nested,
      h.stop.imp_right (And.imp_right (closed_cons_of_isDelimiter ht).2)⟩

/-- A division that starts with a significant token that is copied: the pattern does not occur
there, and the token leaves a number of open brackets. -/
theorem fits_cons_significant (ht : t.isDelimiter = false) :
    Fits r b column depth ⟨t :: ts, ps, rest⟩ ↔
      (r.pattern.attempt b (source ⟨t :: ts, ps, rest⟩)).1 = none ∧
        ∃ depth', Scan.depthAfter depth t.text = some depth' ∧
          Fits r b column depth' ⟨ts, ps, rest⟩ := by
  have hcuts : r.Cuts column rest b (t :: ts) ps ↔ r.Cuts column rest b ts ps :=
    Rule.cuts_congr fun more => delimiterColumn_cons_of_significant ht column (ts ++ more)
  constructor
  · intro h
    obtain ⟨hnone, hlead⟩ := Pattern.absent_cons_iff.1 h.lead
    obtain ⟨depth', hdepth, hnested⟩ := (nested_cons_of_significant ht).1 h.nested
    exact ⟨hnone ht, depth', hdepth, hlead, hcuts.1 h.pieces, h.rest, hnested,
      h.stop.imp_right (And.imp_right (closed_cons_of_significant ht hdepth).1)⟩
  · rintro ⟨hnone, depth', hdepth, h⟩
    exact ⟨Pattern.absent_cons_iff.2 ⟨fun _ => hnone, h.lead⟩, hcuts.2 h.pieces, h.rest,
      (nested_cons_of_significant ht).2 ⟨depth', hdepth, h.nested⟩,
      h.stop.imp_right (And.imp_right (closed_cons_of_significant ht hdepth).2)⟩

/-- A division that starts with an occurrence. -/
theorem fits_cons_piece :
    Fits r b column depth ⟨[], p :: ps, rest⟩ ↔
      (∃ t ts, p.taken = t :: ts ∧ t.isDelimiter = false) ∧
      r.pattern.attempt b (source ⟨[], p :: ps, rest⟩) = (some p.taken.length, p.bindings) ∧
      p.put = r.template.expand p.bindings column ∧
      Fits r p.bindings column depth ⟨p.copied, ps, rest⟩ := by
  rw [source_cons_piece]
  constructor
  · intro h
    obtain ⟨hhead, hattempt, hput, habsent, hcuts⟩ := h.pieces
    exact ⟨hhead, hattempt, hput, habsent, hcuts, h.rest, h.nested, h.stop⟩
  · rintro ⟨hhead, hattempt, hput, h⟩
    exact ⟨Pattern.absent_nil _ _ _, ⟨hhead, hattempt, hput, h.lead, h.pieces⟩, h.rest, h.nested,
      h.stop⟩

/-- A division in which nothing is looked at. -/
theorem fits_rest :
    Fits r b column depth ⟨[], [], rest⟩ ↔
      (r.pattern.attempt b rest).1 = none ∧
        (rest = [] ∨
          ∃ t ts, rest = t :: ts ∧ t.isDelimiter = false ∧
            Scan.depthAfter depth t.text = none) := by
  constructor
  · intro h
    refine ⟨h.rest, h.stop.imp_right ?_⟩
    rintro ⟨⟨t, ts, hrest, ht, htext⟩, hclosed⟩
    exact ⟨t, ts, hrest, ht, depthAfter_eq_none_iff.2 ⟨htext, closed_nil_iff.1 hclosed⟩⟩
  · rintro ⟨hnone, hstop⟩
    refine ⟨Pattern.absent_nil _ _ _, trivial, hnone, nested_nil depth, hstop.imp_right ?_⟩
    rintro ⟨t, ts, hrest, ht, hdepth⟩
    obtain ⟨htext, hzero⟩ := depthAfter_eq_none_iff.1 hdepth
    exact ⟨⟨t, ts, hrest, ht, htext⟩, closed_nil_iff.2 hzero⟩

/-! ## At most one division -/

/-- The first token is copied if it is a delimiter, or if the pattern does not occur there and the
token is no bracket without a partner. -/
theorem Fits.exists_lead {d : Division} (h : Fits r b column depth d) (hsource : d.source = t :: ts)
    (hcopied : t.isDelimiter = true ∨
      (r.pattern.attempt b d.source).1 = none ∧ Scan.depthAfter depth t.text ≠ none) :
    ∃ lead, d.lead = t :: lead := by
  obtain ⟨_ | ⟨t', lead⟩, _ | ⟨p, ps⟩, rest⟩ := d
  · obtain rfl : rest = t :: ts := hsource
    obtain ⟨-, hrest | ⟨t', ts', hrest, ht', hdepth⟩⟩ := fits_rest.1 h
    · exact absurd hrest (by simp)
    · obtain ⟨rfl, rfl⟩ := List.cons.inj hrest
      rcases hcopied with ht | ⟨-, hne⟩
      · exact absurd (ht.symm.trans ht') (by simp)
      · exact absurd hdepth hne
  · obtain ⟨⟨t', ts', htaken, ht'⟩, hattempt, -, -⟩ := fits_cons_piece.1 h
    rcases hcopied with ht | ⟨hnone, -⟩
    · rw [source_cons_piece, htaken] at hsource
      obtain rfl : t' = t := (List.cons.inj hsource).1
      exact absurd (ht.symm.trans ht') (by simp)
    · rw [hattempt] at hnone
      exact absurd hnone (by simp)
  all_goals exact ⟨lead, congrArg (· :: lead) (List.cons.inj hsource).1⟩

/-- The first tokens are an occurrence if the pattern occurs there and they do not start with a
delimiter. -/
theorem Fits.exists_piece {d : Division} (h : Fits r b column depth d)
    (hsource : d.source = t :: ts) (ht : t.isDelimiter = false)
    (hattempt : (r.pattern.attempt b d.source).1 ≠ none) :
    d.lead = [] ∧ ∃ p ps, d.pieces = p :: ps := by
  obtain ⟨_ | ⟨t', lead⟩, ps, rest⟩ := d
  · cases ps with
    | nil => exact absurd (fits_rest.1 h).1 hattempt
    | cons p ps => exact ⟨rfl, p, ps, rfl⟩
  · obtain rfl : t' = t := (List.cons.inj hsource).1
    exact absurd ((fits_cons_significant ht).1 h).1 hattempt

/-- Nothing is looked at if nothing is there, or if the first token is a bracket without a partner
at which the pattern does not occur. -/
theorem Fits.lead_pieces_eq_nil {d : Division} (h : Fits r b column depth d)
    (hnone : (r.pattern.attempt b d.source).1 = none)
    (hstop : d.source = [] ∨ ∃ t ts, d.source = t :: ts ∧ t.isDelimiter = false ∧
      Scan.depthAfter depth t.text = none) : d.lead = [] ∧ d.pieces = [] := by
  obtain ⟨_ | ⟨t', lead⟩, _ | ⟨p, ps⟩, rest⟩ := d
  · exact ⟨rfl, rfl⟩
  · obtain ⟨-, hattempt, -, -⟩ := fits_cons_piece.1 h
    rw [hattempt] at hnone
    exact absurd hnone (by simp)
  all_goals
    rcases hstop with hnil | ⟨t, ts, hsource, ht, hdepth⟩
    · exact absurd hnil (List.cons_ne_nil _ _)
    · obtain rfl : t' = t := (List.cons.inj hsource).1
      obtain ⟨-, depth', hdepth', -⟩ := (fits_cons_significant ht).1 h
      exact absurd (hdepth.symm.trans hdepth') (by simp)

/-- **There is at most one division.**  The induction is on the length of the list: the first
token decides how both divisions start, and what comes behind is a division of a shorter list. -/
theorem Fits.unique {d d' : Division} (h : Fits r b column depth d)
    (h' : Fits r b column depth d') (hsource : d.source = d'.source) : d = d' := by
  induction hn : d.source.length using Nat.strongRecOn generalizing b column depth d d' with
  | ind n ih =>
    obtain ⟨_ | ⟨t, lead⟩, ps, rest⟩ := d
    · cases ps with
      | nil =>
        obtain ⟨hnone, hstop⟩ := fits_rest.1 h
        have hrest : rest = d'.source := hsource
        rw [hrest] at hnone hstop
        obtain ⟨lead', pieces', rest'⟩ := d'
        obtain ⟨rfl, rfl⟩ := h'.lead_pieces_eq_nil hnone hstop
        exact congrArg (Division.mk [] []) hrest
      | cons p ps =>
        obtain ⟨⟨t, ts, htaken, ht⟩, hattempt, hput, hnext⟩ := fits_cons_piece.1 h
        have hfirst : d'.source = t :: (ts ++ source ⟨p.copied, ps, rest⟩) := by
          rw [← hsource, source_cons_piece, htaken, List.cons_append]
        rw [hsource] at hattempt
        obtain ⟨lead', pieces', rest'⟩ := d'
        obtain ⟨rfl, p', ps', rfl⟩ := h'.exists_piece hfirst ht (by rw [hattempt]; simp)
        obtain ⟨-, hattempt', hput', hnext'⟩ := fits_cons_piece.1 h'
        obtain ⟨hlength, hbindings⟩ := Prod.mk.inj (hattempt.symm.trans hattempt')
        rw [source_cons_piece, source_cons_piece] at hsource
        obtain ⟨htaken', hbehind⟩ := List.append_inj hsource (Option.some.inj hlength)
        rw [← hbindings] at hnext' hput'
        have hlt : (source ⟨p.copied, ps, rest⟩).length < n := by
          rw [← hn, source_cons_piece, htaken, List.length_append, List.length_cons]
          omega
        have heq := ih _ hlt hnext hnext' hbehind rfl
        obtain ⟨hcopied, hps, hrest⟩ := Division.mk.inj heq
        obtain ⟨taken, put, bindings, copied⟩ := p
        obtain ⟨taken', put', bindings', copied'⟩ := p'
        simp only at htaken' hbindings hcopied hput hput'
        rw [htaken', hput, hput', hbindings, hcopied, hps, hrest]
    · have hlt : (source ⟨lead, ps, rest⟩).length < n := by
        rw [← hn]
        exact Nat.lt_succ_self _
      cases ht : t.isDelimiter with
      | true =>
        obtain ⟨lead', hlead'⟩ := h'.exists_lead hsource.symm (.inl ht)
        obtain ⟨_, ps', rest'⟩ := d'
        subst hlead'
        have heq := ih _ hlt ((fits_cons_delimiter ht).1 h) ((fits_cons_delimiter ht).1 h')
          (List.cons.inj hsource).2 rfl
        obtain ⟨rfl, rfl, rfl⟩ := Division.mk.inj heq
        rfl
      | false =>
        obtain ⟨hnone, depth₁, hdepth, hnext⟩ := (fits_cons_significant ht).1 h
        rw [hsource] at hnone
        obtain ⟨lead', hlead'⟩ := h'.exists_lead hsource.symm (.inr ⟨hnone, by simp [hdepth]⟩)
        obtain ⟨_, ps', rest'⟩ := d'
        subst hlead'
        obtain ⟨-, depth₂, hdepth', hnext'⟩ := (fits_cons_significant ht).1 h'
        obtain rfl : depth₁ = depth₂ := Option.some.inj (hdepth.symm.trans hdepth')
        have heq := ih _ hlt hnext hnext' (List.cons.inj hsource).2 rfl
        obtain ⟨rfl, rfl, rfl⟩ := Division.mk.inj heq
        rfl

end Division

/-! ## The division of a scan -/

namespace Scan

/-- The division tells what a scan does from the first state to the second. -/
structure Divides (role : Role) (r : Rule) (s u : Scan) (d : Division) : Prop where
  source : d.source = s.rest
  fits : d.Fits r s.bindings s.column s.depth
  result : u.tokens = s.written.reverse ++ d.result
  rest : u.rest = d.rest
  count : u.matchCount role = s.matchCount role + d.pieces.length
  bindings : u.bindings = d.bindingsAfter s.bindings

variable {role : Role} {r : Rule} {s u : Scan} {d : Division} {t : Token} {ts : List Token}

/-- A state in which there is nothing more to do. -/
theorem Divides.halt (hnone : r.pattern.match? s.bindings s.rest = none)
    (hstop : s.rest = [] ∨ ∃ t ts, s.rest = t :: ts ∧ t.isDelimiter = false ∧
      depthAfter s.depth t.text = none) : Divides role r s s ⟨[], [], s.rest⟩ where
  source := rfl
  fits := Division.fits_rest.2 ⟨Pattern.attempt_fst_eq_none_iff.2 hnone, hstop⟩
  result := rfl
  rest := rfl
  count := rfl
  bindings := rfl

theorem Divides.delimiter (hrest : s.rest = t :: ts) (ht : t.isDelimiter = true)
    (h : Divides role r (s.copyDelimiter t ts) u d) :
    Divides role r s u ⟨t :: d.lead, d.pieces, d.rest⟩ where
  source := by
    rw [hrest]
    exact congrArg (t :: ·) h.source
  fits := (Division.fits_cons_delimiter ht).2 h.fits
  result := by
    rw [h.result]
    simp [copyDelimiter, copy, Division.result]
  rest := h.rest
  count := h.count
  bindings := h.bindings

theorem Divides.significant {depth : Nat} (hrest : s.rest = t :: ts) (ht : t.isDelimiter = false)
    (hm : r.pattern.match? s.bindings s.rest = none)
    (hdepth : depthAfter s.depth t.text = some depth)
    (h : Divides role r (s.copySignificant t ts depth) u d) :
    Divides role r s u ⟨t :: d.lead, d.pieces, d.rest⟩ := by
  have hsource : Division.source ⟨t :: d.lead, d.pieces, d.rest⟩ = s.rest := by
    rw [hrest]
    exact congrArg (t :: ·) h.source
  exact {
    source := hsource
    fits := by
      refine (Division.fits_cons_significant ht).2 ⟨?_, depth, hdepth, h.fits⟩
      rw [hsource]
      exact Pattern.attempt_fst_eq_none_iff.2 hm
    result := by
      rw [h.result]
      simp [copySignificant, copy, Division.result]
    rest := h.rest
    count := h.count
    bindings := h.bindings }

theorem Divides.occurrence {taken : Nat} {b : Bindings} (hrest : s.rest = t :: ts)
    (ht : t.isDelimiter = false) (hm : r.pattern.match? s.bindings s.rest = some (taken, b))
    (h : Divides role r (s.replace role r taken b) u d) :
    Divides role r s u
      ⟨[], ⟨s.rest.take taken, r.template.expand b s.column, b, d.lead⟩ :: d.pieces, d.rest⟩ := by
  have hsource : Division.source
      ⟨[], ⟨s.rest.take taken, r.template.expand b s.column, b, d.lead⟩ :: d.pieces, d.rest⟩ =
        s.rest := by
    have hbehind : d.source = s.rest.drop taken := h.source
    rw [Division.source_cons_piece]
    exact (congrArg (s.rest.take taken ++ ·) hbehind).trans (List.take_append_drop taken s.rest)
  exact {
    source := hsource
    fits := by
      refine Division.fits_cons_piece.2 ⟨?_, ?_, rfl, h.fits⟩
      · cases taken with
        | zero => exact absurd (Pattern.match?_pos hm) (Nat.lt_irrefl 0)
        | succ taken => exact ⟨t, ts.take taken, by simp [hrest], ht⟩
      · rw [hsource, Pattern.attempt_of_match?_eq_some hm]
        simp only [List.length_take_of_le (Pattern.match?_le_length hm)]
    result := by
      rw [h.result]
      simp [replace, Division.result, Piece.result]
    rest := h.rest
    count := by
      rw [h.count, matchCount_replace, if_pos rfl, List.length_cons]
      omega
    bindings := h.bindings }

/-- **A scan without follow-ups comes to an end**, and a division tells what it has done.  Every
step reads a token. -/
theorem exists_runs_and_divides (hr : r.followUps = []) (role : Role) (s : Scan) :
    ∃ u d, Runs (.scan role r) s u ∧ Divides role r s u d := by
  induction hn : s.rest.length using Nat.strongRecOn generalizing s with
  | ind n ih =>
    cases hrest : s.rest with
    | nil =>
      have hnone : r.pattern.match? s.bindings s.rest = none := by rw [hrest, Pattern.match?_nil]
      exact ⟨s, _, ⟨_, .finish hrest⟩, .halt hnone (.inl hrest)⟩
    | cons t ts =>
      have hlt : ts.length < n := by
        rw [← hn, hrest]
        exact Nat.lt_succ_self _
      cases ht : t.isDelimiter with
      | true =>
        obtain ⟨u, d, ⟨_, hruns⟩, hd⟩ := ih _ hlt (s.copyDelimiter t ts) rfl
        exact ⟨u, _, ⟨_, .delimiter hrest ht hruns⟩, hd.delimiter hrest ht⟩
      | false =>
        cases hm : r.pattern.match? s.bindings s.rest with
        | none =>
          cases hdepth : depthAfter s.depth t.text with
          | none =>
            exact ⟨s, _, ⟨_, .stop hrest ht hm hdepth⟩,
              .halt hm (.inr ⟨t, ts, hrest, ht, hdepth⟩)⟩
          | some depth =>
            obtain ⟨u, d, ⟨_, hruns⟩, hd⟩ := ih _ hlt (s.copySignificant t ts depth) rfl
            exact ⟨u, _, ⟨_, .significant hrest ht hm hdepth hruns⟩,
              hd.significant hrest ht hm hdepth⟩
        | some result =>
          obtain ⟨taken, b⟩ := result
          have hshorter : (s.rest.drop taken).length < n := by
            have hpos := Pattern.match?_pos hm
            have hle := Pattern.match?_le_length hm
            rw [List.length_drop]
            omega
          obtain ⟨u, d, ⟨_, hruns⟩, hd⟩ := ih _ hshorter (s.replace role r taken b) rfl
          have hfollow : Traced (.followUps r.followUps) (s.replace role r taken b) []
              (s.replace role r taken b) := by
            rw [hr]
            exact .done
          exact ⟨u, _, ⟨_, .occurrence hrest ht hm hfollow hruns⟩, hd.occurrence hrest ht hm⟩

end Scan

/-- **A rule without follow-ups divides a list in exactly one way.**

Whatever the bindings and the tokens, the application comes to an end.  Exactly one division of
the tokens fits the rule, with column zero and no open bracket at the start, and has the result of
the application, its number of occurrences and its bindings. -/
theorem existsUnique_division_of_application (r : Rule) (hr : r.followUps = []) (b : Bindings)
    (ts : List Token) :
    ∃ fuel s, r.apply fuel b ts = some s ∧
      ∃! d : Division, d.source = ts ∧ d.result = s.tokens ∧
        d.pieces.length = s.matchCount .root ∧ d.Fits r b 0 0 ∧ d.bindingsAfter b = s.bindings := by
  obtain ⟨s, d, hruns, hd⟩ := Scan.exists_runs_and_divides hr .root (Scan.start b [] ts)
  obtain ⟨fuel, hfuel⟩ := Rule.exists_apply_iff_runs.2 hruns
  have hcount : d.pieces.length = s.matchCount .root := by
    rw [hd.count]
    exact (Nat.zero_add _).symm
  refine ⟨fuel, s, hfuel, d, ⟨hd.source, hd.result.symm, hcount, hd.fits, hd.bindings.symm⟩, ?_⟩
  rintro d' ⟨hsource', -, -, hfits', -⟩
  exact hfits'.unique hd.fits (hsource'.trans hd.source.symm)

/-- A list with an occurrence in front of a bracket that closes a scope opened before. -/
theorem existsUnique_division_before_closing_bracket :
    let token (kind : Kind) (c : Char) : Token := ⟨kind, [c]⟩
    let r : Rule := ⟨⟨[.literal (token .identifier 'a')], List.cons_ne_nil _ _⟩, .empty, [], 0⟩
    let ts := [token .identifier 'a', token .bracket '}', token .identifier 'a']
    r.followUps = [] ∧ ∃ fuel s, r.apply fuel .empty ts = some s ∧
      ∃! d : Division, d.source = ts ∧ d.result = s.tokens ∧
        d.pieces.length = s.matchCount .root ∧ d.Fits r .empty 0 0 ∧
          d.bindingsAfter .empty = s.bindings := by
  intro token r ts
  exact ⟨rfl, existsUnique_division_of_application r rfl .empty ts⟩

end TokenEdit
