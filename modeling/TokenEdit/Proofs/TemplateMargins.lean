import Mathlib.Data.List.Induction
import TokenEdit.Proofs.MaximalMunch
import TokenEdit.Template

/-!
# The lines of a template that are moved

An expanded template has a margin behind every token that is a line feed.  Which line feeds of a
written template these are depends on how the text is cut: a line feed is a token of its own only
where it does not belong to a run of blanks or to a comment.

In terms of the text: a run of blanks takes all blanks that follow it, so behind a token that is
neither a line feed nor blank every line feed is a token until the first other blank, and none
after that.  A line feed opens a line (`OpensLine`) when it lies outside comments and there are
only line feeds between it and the last token in front of it that is not blank.

The one thing to show is that a line feed opens a line exactly if it is a token
(`opensLine_iff_newline`).  Going back from a line feed that is a token, a run of blanks cannot be
met, since no blank follows such a run.

* `PlacedToken`: a token with the position at which it starts.
* `OpensLine`: the line feeds in question, by position.
* `insertBehind`: what putting in margins does to a text.
* `Template.render_expand_margins`: a written template in which nothing is bound.
-/

namespace TokenEdit

/-! ## Tokens with their positions -/

/-- A class of blanks. -/
def Kind.isBlank : Kind → Bool
  | newline | whitespace => true
  | lineComment | blockComment | identifier | number | bracket | other => false

/-- A class of comments. -/
def Kind.isComment : Kind → Bool
  | lineComment | blockComment => true
  | newline | whitespace | identifier | number | bracket | other => false

theorem Kind.isDelimiter_eq (k : Kind) : k.isDelimiter = (k.isBlank || k.isComment) := by
  cases k <;> rfl

/-- A token that starts at a position of a text. -/
structure PlacedToken where
  start : Nat
  token : Token
  deriving DecidableEq

namespace PlacedToken

/-- The position behind the token. -/
def stop (p : PlacedToken) : Nat :=
  p.start + p.token.text.length

/-- The position is that of a character of the token. -/
def Covers (p : PlacedToken) (i : Nat) : Prop :=
  p.start ≤ i ∧ i < p.stop

instance (p : PlacedToken) (i : Nat) : Decidable (p.Covers i) :=
  inferInstanceAs (Decidable (_ ∧ _))

end PlacedToken

/-- Tokens with their positions, when the first of them starts at `start`. -/
def Token.placed (start : Nat) : List Token → List PlacedToken
  | [] => []
  | t :: ts => ⟨start, t⟩ :: placed (start + t.text.length) ts

namespace Token

@[simp] theorem placed_nil (start : Nat) : placed start [] = [] := rfl

theorem placed_append (start : Nat) (left right : List Token) :
    placed start (left ++ right) =
      placed start left ++ placed (start + (render left).length) right := by
  induction left generalizing start with
  | nil => rfl
  | cons t left ih =>
    rw [List.cons_append, placed, ih, placed, List.cons_append, render_cons, List.length_append,
      Nat.add_assoc]

/-- Placed tokens lie within their text. -/
theorem bounds_of_mem_placed {start : Nat} {ts : List Token} {p : PlacedToken}
    (h : p ∈ placed start ts) : start ≤ p.start ∧ p.stop ≤ start + (render ts).length := by
  induction ts generalizing start with
  | nil => exact absurd h (by simp)
  | cons t ts ih =>
    rw [render_cons, List.length_append]
    rcases List.mem_cons.1 h with rfl | h
    · exact ⟨Nat.le_refl _, Nat.add_le_add_left (Nat.le_add_right _ _) _⟩
    · have hbounds := ih h
      omega

/-- A token with the tokens in front of it and behind it. -/
theorem exists_split_of_mem_placed {ts : List Token} {p : PlacedToken} (h : p ∈ placed 0 ts) :
    ∃ before behind, ts = before ++ p.token :: behind ∧ p.start = (render before).length := by
  suffices hsplit : ∀ start, p ∈ placed start ts →
      ∃ before behind, ts = before ++ p.token :: behind ∧
        p.start = start + (render before).length by
    obtain ⟨before, behind, hts, hstart⟩ := hsplit 0 h
    exact ⟨before, behind, hts, by rw [hstart, Nat.zero_add]⟩
  clear h
  induction ts with
  | nil => exact fun start h => absurd h (by simp)
  | cons t ts ih =>
    intro start h
    rcases List.mem_cons.1 h with rfl | h
    · exact ⟨[], ts, rfl, rfl⟩
    · obtain ⟨before, behind, rfl, hstart⟩ := ih _ h
      refine ⟨t :: before, behind, rfl, ?_⟩
      rw [hstart, render_cons, List.length_append, Nat.add_assoc]

end Token

/-! ## Line feeds that open lines -/

/-- The position of a line feed outside comments, with nothing but line feeds between it and the
last token in front of it that is not blank, or the start of the text. -/
structure OpensLine (source : List Char) (i : Nat) : Prop where
  lineFeed : source[i]? = some '\n'
  outside : ∀ p ∈ Token.placed 0 (tokenize source), p.token.kind.isComment = true → ¬ p.Covers i
  /-- All positions in front that are not in front of the end of such a token. -/
  reached : ∀ j < i,
    (∀ p ∈ Token.placed 0 (tokenize source),
      p.token.kind.isBlank = false → p.stop ≤ i → p.stop ≤ j) → source[j]? = some '\n'

instance (source : List Char) (i : Nat) : Decidable (OpensLine source i) :=
  decidable_of_iff
    (source[i]? = some '\n' ∧
      (∀ p ∈ Token.placed 0 (tokenize source), p.token.kind.isComment = true → ¬ p.Covers i) ∧
      ∀ j < i,
        (∀ p ∈ Token.placed 0 (tokenize source),
          p.token.kind.isBlank = false → p.stop ≤ i → p.stop ≤ j) → source[j]? = some '\n')
    ⟨fun h => ⟨h.1, h.2.1, h.2.2⟩, fun h => ⟨h.lineFeed, h.outside, h.reached⟩⟩

/-- A run of blanks has no blank behind it, so a blank token in front of a blank is a line feed. -/
theorem Kind.Form.eq_newline_of_blank_behind {k : Kind} {text rest : List Char}
    (h : k.Form text rest) (hk : k.isBlank = true) (hrest : ∃ c ∈ rest.head?, c ∈ blanks) :
    k = .newline := by
  cases k with
  | newline => rfl
  | whitespace =>
    obtain ⟨c, hc, hblank⟩ := hrest
    exact absurd hblank (h.2.2 c hc)
  | lineComment | blockComment | identifier | number | bracket | other =>
    exact absurd hk (by decide)

/-- **Back from a blank there are only line feeds** until a token that is not blank. -/
theorem getElem?_eq_lineFeed_of_blank_behind {before : List Token} {t : Token}
    {behind : List Token} (hmunch : Token.MaximalMunch (before ++ t :: behind))
    (ht : ∃ c ∈ t.text.head?, c ∈ blanks) {j : Nat} (hj : j < (Token.render before).length)
    (hreached : ∀ p ∈ Token.placed 0 before, p.token.kind.isBlank = false → p.stop ≤ j) :
    (Token.render before)[j]? = some '\n' := by
  induction before using List.reverseRecOn generalizing t behind with
  | nil => exact absurd hj (by simp)
  | append_singleton before u ih =>
    rw [List.append_assoc, List.singleton_append] at hmunch
    rw [Token.placed_append, List.forall_mem_append] at hreached
    rw [Token.render_append, Token.render_cons, Token.render_nil, List.append_nil] at hj ⊢
    obtain ⟨hne, hform⟩ := hmunch before u (t :: behind) rfl
    have hbehind : ∃ c ∈ (Token.render (t :: behind)).head?, c ∈ blanks := by
      obtain ⟨c, hc, hblank⟩ := ht
      refine ⟨c, ?_, hblank⟩
      rw [Token.render_cons, List.head?_append, Option.mem_def.1 hc]
      rfl
    have hblank : u.kind.isBlank = true := by
      refine Decidable.byContradiction fun hnot => ?_
      have hstop := hreached.2 _ List.mem_cons_self (Bool.eq_false_iff.2 hnot)
      rw [List.length_append] at hj
      simp only [PlacedToken.stop] at hstop
      omega
    have hnewline := hform.eq_newline_of_blank_behind hblank hbehind
    have htext : u.text = ['\n'] := by
      rw [hnewline] at hform
      exact hform
    by_cases hfront : j < (Token.render before).length
    · rw [List.getElem?_append_left hfront]
      exact ih hmunch ⟨'\n', by rw [htext]; rfl, by decide⟩ hfront hreached.1
    · have hlast : j = (Token.render before).length := by
        rw [List.length_append, htext, List.length_singleton] at hj
        omega
      rw [hlast, List.getElem?_append_right (Nat.le_refl _), Nat.sub_self, htext]
      rfl

/-- No significant token has a blank in it. -/
theorem Kind.Form.blank_not_mem {k : Kind} {text rest : List Char} (h : k.Form text rest)
    (hk : k.isDelimiter = false) {c : Char} (hc : c ∈ blanks) : c ∉ text := by
  intro hmem
  rw [← isBlankChar_iff] at hc
  cases k with
  | newline | whitespace | lineComment | blockComment => exact absurd hk (by decide)
  | identifier =>
    rw [isBlankChar_eq_false_of_class (p := fun c => IsLetter c ∨ IsDigit c) (by decide)
      (h.2.1 c hmem)] at hc
    exact absurd hc (by decide)
  | number =>
    have hdigit : IsDigit c := h.1 c hmem
    rw [isBlankChar_eq_false_of_class (by decide) hdigit] at hc
    exact absurd hc (by decide)
  | bracket =>
    obtain ⟨d, hd, rfl⟩ := h
    rw [List.mem_singleton.1 hmem, isBlankChar_eq_false_of_class (by decide) hd] at hc
    exact absurd hc (by decide)
  | other =>
    obtain ⟨d, rfl, hd, -⟩ := h
    rw [List.mem_singleton.1 hmem, isBlankChar_iff] at hc
    exact hd.1 hc

/-- A comment starts with a slash. -/
theorem Kind.Form.head?_of_isComment {k : Kind} {text rest : List Char} (h : k.Form text rest)
    (hk : k.isComment = true) : text.head? = some '/' := by
  cases k with
  | lineComment | blockComment =>
    obtain ⟨tail, rfl⟩ := h.1
    rfl
  | newline | whitespace | identifier | number | bracket | other => exact absurd hk (by decide)

section Position

variable {source : List Char} {before behind : List Token} {t : Token}

/-- The tokens that end in front of a character of a token come before that token. -/
theorem stop_le_of_split (h : tokenize source = before ++ t :: behind) {i : Nat}
    (hi : PlacedToken.Covers ⟨(Token.render before).length, t⟩ i) {p : PlacedToken}
    (hp : p ∈ Token.placed 0 (tokenize source)) (hstop : p.stop ≤ i) :
    p.stop ≤ (Token.render before).length := by
  rw [h, Token.placed_append, Nat.zero_add] at hp
  rcases List.mem_append.1 hp with hp | hp
  · have hbounds := Token.bounds_of_mem_placed hp
    omega
  · rcases List.mem_cons.1 hp with rfl | hp
    · exact absurd hi.2 (Nat.not_lt.2 hstop)
    · have hbounds := Token.bounds_of_mem_placed hp
      have hcovers := hi.2
      simp only [PlacedToken.stop] at hcovers hstop
      omega

/-- No two tokens cover the same position. -/
theorem eq_of_covers (h : tokenize source = before ++ t :: behind) {i : Nat}
    (hi : PlacedToken.Covers ⟨(Token.render before).length, t⟩ i) {p : PlacedToken}
    (hp : p ∈ Token.placed 0 (tokenize source)) (hcovers : p.Covers i) :
    p = ⟨(Token.render before).length, t⟩ := by
  rw [h, Token.placed_append, Nat.zero_add] at hp
  rcases List.mem_append.1 hp with hp | hp
  · have hbounds := Token.bounds_of_mem_placed hp
    have hstart := hi.1
    have hstop := hcovers.2
    simp only at hstart
    omega
  · rcases List.mem_cons.1 hp with rfl | hp
    · rfl
    · have hbounds := Token.bounds_of_mem_placed hp
      have hstart := hcovers.1
      have hstop := hi.2
      simp only [PlacedToken.stop] at hstop
      omega

/-- The text of a token, read by positions. -/
theorem getElem?_of_covers (h : tokenize source = before ++ t :: behind) {i : Nat}
    (hi : PlacedToken.Covers ⟨(Token.render before).length, t⟩ i) :
    source[i]? = t.text[i - (Token.render before).length]? := by
  have hsource : source = Token.render before ++ (t.text ++ Token.render behind) := by
    rw [← render_tokenize source, h, Token.render_append, Token.render_cons]
  obtain ⟨hstart, hstop⟩ := hi
  simp only [PlacedToken.stop] at hstart hstop
  rw [hsource, List.getElem?_append_right hstart, List.getElem?_append_left (by omega)]

theorem mem_placed_of_split (h : tokenize source = before ++ t :: behind) :
    ⟨(Token.render before).length, t⟩ ∈ Token.placed 0 (tokenize source) := by
  rw [h, Token.placed_append, Nat.zero_add]
  exact List.mem_append_right _ List.mem_cons_self

theorem text_of_newline (h : tokenize source = before ++ t :: behind) (hkind : t.kind = .newline) :
    t.text = ['\n'] := by
  have hform := (maximalMunch_tokenize source before t behind h).2
  rw [hkind] at hform
  exact hform

theorem OpensLine.eq_newline (h : tokenize source = before ++ t :: behind) {i : Nat}
    (hi : PlacedToken.Covers ⟨(Token.render before).length, t⟩ i) (hopens : OpensLine source i) :
    t.kind = .newline := by
  obtain ⟨hne, hform⟩ := maximalMunch_tokenize source before t behind h
  cases hkind : t.kind with
  | newline => rfl
  | whitespace =>
    -- the run starts with another blank, and between it and the line feed no token ends
    rw [hkind] at hform
    obtain ⟨c, cs, htext⟩ := List.exists_cons_of_ne_nil hne
    have hc : c ≠ '\n' := by
      rintro rfl
      exact hform.1 (by rw [htext, List.head?_cons])
    have hstart : source[(Token.render before).length]? = some c := by
      rw [getElem?_of_covers h ⟨Nat.le_refl _, Nat.lt_of_le_of_lt hi.1 hi.2⟩, Nat.sub_self, htext]
      rfl
    have hlt : (Token.render before).length < i := by
      refine Nat.lt_of_le_of_ne hi.1 ?_
      rintro rfl
      exact hc (Option.some.inj (hstart.symm.trans hopens.lineFeed))
    have hreached := hopens.reached _ hlt fun p hp _ hstop => stop_le_of_split h hi hp hstop
    exact absurd (Option.some.inj (hstart.symm.trans hreached)) hc
  | lineComment | blockComment =>
    exact absurd hi (hopens.outside _ (mem_placed_of_split h) (by rw [hkind]; rfl))
  | identifier | number | bracket | other =>
    have hmem : '\n' ∈ t.text :=
      List.mem_of_getElem? ((getElem?_of_covers h hi).symm.trans hopens.lineFeed)
    exact absurd hmem (hform.blank_not_mem (by rw [hkind]; rfl) (by decide))

theorem opensLine_of_newline (h : tokenize source = before ++ t :: behind) {i : Nat}
    (hi : PlacedToken.Covers ⟨(Token.render before).length, t⟩ i) (hkind : t.kind = .newline) :
    OpensLine source i := by
  have hmunch := maximalMunch_tokenize source
  rw [h] at hmunch
  have htext := text_of_newline h hkind
  have hlast : i = (Token.render before).length := by
    obtain ⟨hstart, hstop⟩ := hi
    simp only [PlacedToken.stop, htext, List.length_singleton] at hstart hstop
    omega
  refine ⟨?_, fun p hp hcomment hcovers => ?_, fun j hj hreached => ?_⟩
  · rw [getElem?_of_covers h hi, hlast, Nat.sub_self, htext]
    rfl
  · rw [eq_of_covers h hi hp hcovers, hkind] at hcomment
    exact absurd hcomment (by decide)
  · rw [hlast] at hj hreached
    have hback : (Token.render before)[j]? = some '\n' := by
      refine getElem?_eq_lineFeed_of_blank_behind hmunch ⟨'\n', by rw [htext]; rfl, by decide⟩ hj ?_
      intro p hp hblank
      have hbounds := Token.bounds_of_mem_placed hp
      refine hreached p ?_ hblank (by omega)
      rw [h, Token.placed_append]
      exact List.mem_append_left _ hp
    rw [← render_tokenize source, h, Token.render_append, List.getElem?_append_left hj, hback]

/-- **A line feed opens a line exactly if it is a token.** -/
theorem opensLine_iff_newline (h : tokenize source = before ++ t :: behind) {i : Nat}
    (hi : PlacedToken.Covers ⟨(Token.render before).length, t⟩ i) :
    OpensLine source i ↔ t.kind = .newline :=
  ⟨OpensLine.eq_newline h hi, opensLine_of_newline h hi⟩

/-- A blank in a token that is not blank is in a comment, and not its first character. -/
theorem isComment_of_blank_within (h : tokenize source = before ++ t :: behind) {i : Nat}
    (hi : PlacedToken.Covers ⟨(Token.render before).length, t⟩ i)
    (hkind : t.kind.isBlank = false) (hblank : ∃ c ∈ blanks, source[i]? = some c) :
    t.kind.isComment = true ∧ i ≠ (Token.render before).length := by
  obtain ⟨c, hc, hchar⟩ := hblank
  rw [getElem?_of_covers h hi] at hchar
  have hform := (maximalMunch_tokenize source before t behind h).2
  have hcomment : t.kind.isComment = true := by
    refine Decidable.byContradiction fun hnot => ?_
    refine hform.blank_not_mem ?_ hc (List.mem_of_getElem? hchar)
    rw [Kind.isDelimiter_eq, hkind, Bool.eq_false_iff.2 hnot]
    rfl
  refine ⟨hcomment, ?_⟩
  rintro rfl
  rw [Nat.sub_self, ← List.head?_eq_getElem?, hform.head?_of_isComment hcomment] at hchar
  rw [← Option.some.inj hchar] at hc
  exact absurd hc (by decide)

/-- Behind a space, tab or carriage return outside comments no line is opened as long as only
blanks follow. -/
theorem not_opensLine_of_blanks {i j : Nat} {c : Char} (hj : j < i)
    (hc : source[j]? = some c) (hline : c ≠ '\n')
    (houtside : ∀ p ∈ Token.placed 0 (tokenize source), p.token.kind.isComment = true →
      ¬ p.Covers j)
    (hblanks : ∀ k, j ≤ k → k < i → ∃ d ∈ blanks, source[k]? = some d) :
    ¬ OpensLine source i := by
  intro hopens
  refine hline (Option.some.inj (hc.symm.trans (hopens.reached j hj fun p hp hkind hstop => ?_)))
  -- a token that ended behind `j` would have one of the blanks in it
  refine Nat.not_lt.1 fun hbehind => ?_
  obtain ⟨before, behind, h, hstart⟩ := Token.exists_split_of_mem_placed hp
  obtain ⟨start, t⟩ := p
  obtain rfl : start = (Token.render before).length := hstart
  have hpos : 0 < t.text.length :=
    List.length_pos_iff.2 (maximalMunch_tokenize source before t behind h).1
  simp only [PlacedToken.stop] at hstop hbehind
  have hcomment : t.kind.isComment = true := by
    have hlast : PlacedToken.Covers ⟨(Token.render before).length, t⟩
        ((Token.render before).length + t.text.length - 1) := by
      simp only [PlacedToken.Covers, PlacedToken.stop]
      omega
    exact (isComment_of_blank_within h hlast hkind (hblanks _ (by omega) (by omega))).1
  refine houtside _ hp hcomment ⟨Nat.not_lt.1 fun hafter => ?_, hbehind⟩
  simp only at hafter
  have hfirst : PlacedToken.Covers ⟨(Token.render before).length, t⟩ (Token.render before).length :=
    ⟨Nat.le_refl _, Nat.lt_add_of_pos_right hpos⟩
  have hblank := hblanks _ (Nat.le_of_lt hafter) (by omega)
  exact (isComment_of_blank_within h hfirst hkind hblank).2 rfl

end Position

/-! ## Putting in margins -/

/-- A text with `margin` put in behind the characters at the positions that `p` says. -/
def insertBehind (margin : List Char) (p : Nat → Prop) [DecidablePred p] (text : List Char) :
    List Char :=
  text.zipIdx.flatMap fun ci => ci.1 :: if p ci.2 then margin else []

/-- Where nothing is put in, the characters stay. -/
theorem flatMap_zipIdx_of_forall {margin : List Char} {p : Nat → Prop} [DecidablePred p]
    {text : List Char} {start : Nat}
    (h : ∀ i, start ≤ i → i < start + text.length → p i → margin = []) :
    (text.zipIdx start).flatMap (fun ci => ci.1 :: if p ci.2 then margin else []) = text := by
  induction text generalizing start with
  | nil => rfl
  | cons c text ih =>
    rw [List.length_cons] at h
    have hfirst : (if p start then margin else []) = [] :=
      ite_eq_right_iff.2 (h start (Nat.le_refl _) (by omega))
    rw [List.zipIdx_cons, List.flatMap_cons, hfirst,
      ih fun i hstart hstop => h i (by omega) (by omega)]
    rfl

/-- **Margins by position are margins by token.** -/
theorem insertBehind_opensLine (margin source : List Char) :
    insertBehind margin (OpensLine source) source =
      (tokenize source).flatMap fun t => t.text ++ if t.kind = .newline then margin else [] := by
  -- the tokens in front of those at hand say at which position these start
  have hfrom : ∀ ts before, tokenize source = before ++ ts →
      ((Token.render ts).zipIdx (Token.render before).length).flatMap
          (fun ci => ci.1 :: if OpensLine source ci.2 then margin else []) =
        ts.flatMap fun t => t.text ++ if t.kind = .newline then margin else [] := by
    intro ts
    induction ts with
    | nil => exact fun _ _ => rfl
    | cons t ts ih =>
      intro before h
      have hrest := ih (before ++ [t]) (by rw [h, List.append_assoc, List.singleton_append])
      rw [Token.render_append, Token.render_cons, Token.render_nil, List.append_nil,
        List.length_append] at hrest
      rw [Token.render_cons, List.zipIdx_append, List.flatMap_append, List.flatMap_cons, hrest]
      congr 1
      by_cases hkind : t.kind = .newline
      · have htext := text_of_newline h hkind
        have hcovers : PlacedToken.Covers ⟨(Token.render before).length, t⟩
            (Token.render before).length :=
          ⟨Nat.le_refl _, by simp [PlacedToken.stop, htext]⟩
        simp [htext, hkind, opensLine_of_newline h hcovers hkind]
      · rw [if_neg hkind, List.append_nil]
        exact flatMap_zipIdx_of_forall fun i hstart hstop hopens =>
          absurd ((opensLine_iff_newline h ⟨hstart, hstop⟩).1 hopens) hkind
  have hall := hfrom (tokenize source) [] rfl
  rwa [render_tokenize] at hall

namespace Template

theorem render_margin (indent : Nat) (t : Token) :
    Token.render (margin indent t) =
      if t.kind = .newline then List.replicate indent ' ' else [] := by
  by_cases hkind : t.kind = .newline
  · by_cases hindent : indent = 0
    · simp [margin, hindent]
    · simp [margin, hkind, hindent, Token.spaces]
  · simp [margin, hkind]

/-- Where no token is a bound name, only margins are put in. -/
theorem render_expand_of_unbound {template : Template} {b : Bindings}
    (h : ∀ t ∈ template.tokens, b.get? t.text = none) (indent : Nat) :
    Token.render (template.expand b indent) =
      template.tokens.flatMap fun t =>
        t.text ++ if t.kind = .newline then List.replicate indent ' ' else [] := by
  have htoken : ∀ t ∈ template.tokens, Token.render (expandToken b indent t) =
      t.text ++ if t.kind = .newline then List.replicate indent ' ' else [] := by
    intro t ht
    rw [expandToken, h t ht, Option.getD_none, Token.render_append, render_margin,
      Token.render_cons, Token.render_nil, List.append_nil]
  rw [expand, Token.render, List.flatMap_assoc]
  exact congrArg List.flatten (List.map_congr_left htoken)

/-- **Which lines of a written template are moved.**  When none of its tokens is a bound name, an
indented expansion is the text itself with the indentation behind the line feeds that open a line,
and an expansion without indentation is the text.  The line feeds of block comments are not among
these line feeds, nor are those that have a space, tab or carriage return in front of them with
only blanks between. -/
theorem render_expand_margins (text : List Char) (b : Bindings)
    (h : ∀ t ∈ tokenize text, b.get? t.text = none) :
    (∀ indent, 0 < indent → Token.render ((ofText text).expand b indent) =
        insertBehind (List.replicate indent ' ') (OpensLine text) text) ∧
      Token.render ((ofText text).expand b 0) = text ∧
      (∀ i, ∀ p ∈ Token.placed 0 (tokenize text), p.token.kind = .blockComment → p.Covers i →
        ¬ OpensLine text i) ∧
      ∀ i j, j < i → (text[j]? = some ' ' ∨ text[j]? = some '\t' ∨ text[j]? = some '\r') →
        (∀ p ∈ Token.placed 0 (tokenize text), p.token.kind.isComment = true → ¬ p.Covers j) →
        (∀ k, j ≤ k → k < i → ∃ c ∈ blanks, text[k]? = some c) → ¬ OpensLine text i := by
  have hexpand : ∀ indent, Token.render ((ofText text).expand b indent) =
      insertBehind (List.replicate indent ' ') (OpensLine text) text := by
    intro indent
    rw [insertBehind_opensLine]
    exact render_expand_of_unbound h indent
  refine ⟨fun indent _ => hexpand indent, ?_, ?_, ?_⟩
  · rw [hexpand, List.replicate_zero]
    exact flatMap_zipIdx_of_forall fun _ _ _ _ => rfl
  · intro i p hp hkind hcovers hopens
    exact hopens.outside p hp (by rw [hkind]; rfl) hcovers
  · rintro i j hj (hc | hc | hc) houtside hblanks
    all_goals exact not_opensLine_of_blanks hj hc (by decide) houtside hblanks

/-- A template with line feeds in and around comments and behind blanks. -/
def commented : List Char :=
  "f(a)\n\n /*\n*/ \n// c \n\r\n\tb;\nend".toList

theorem render_expand_margins_around_comments :
    (∀ t ∈ tokenize commented,
        (Bindings.empty.insert "x".toList [Token.spaces 1]).get? t.text = none) ∧
      Token.render ((ofText commented).expand
          (Bindings.empty.insert "x".toList [Token.spaces 1]) 2) =
        "f(a)\n  \n   /*\n*/ \n// c \n  \r\n\tb;\n  end".toList ∧
      ¬ OpensLine commented 9 ∧ ¬ OpensLine commented 13 := by
  have h : ∀ t ∈ tokenize commented,
      (Bindings.empty.insert "x".toList [Token.spaces 1]).get? t.text = none := by
    decide +kernel
  obtain ⟨hexpand, -, hcomment, hblank⟩ := render_expand_margins _ _ h
  refine ⟨h, (hexpand 2 (by decide)).trans (by decide +kernel), ?_, ?_⟩
  · exact hcomment 9 ⟨7, ⟨.blockComment, "/*\n*/".toList⟩⟩ (by decide +kernel) rfl (by decide)
  · refine hblank 13 12 (by decide) (.inl (by decide)) (by decide +kernel) fun k hstart hstop => ?_
    obtain rfl : k = 12 := by omega
    exact ⟨' ', by decide, by decide⟩

end Template

end TokenEdit
