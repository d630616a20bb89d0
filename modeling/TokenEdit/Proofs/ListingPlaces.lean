import Mathlib.Data.List.Induction
import TokenEdit.Proofs.Lines
import TokenEdit.Token.Listing

/-!
# The places in a listing

A listing has a line for every token, and the line starts with the place of the token.  The place
is kept up to date while the tokens are listed: lines are counted, and the column goes on from the
token before or starts again behind a line feed.  In terms of the text, it is the number of line
feeds in front of the token and the number of characters behind the last of them.

That the lines of a listing belong to the tokens one by one needs that no line feed is shown as it
is, whatever a token holds (`Token.lineFeed_not_mem_dropLast`).

* `Token.linesFrom`: the lines of a listing, from a place on.
* `RuleFile.splitLines_listing`: these are the lines that a reader of the listing sees.
* `exists_lastLine`: the column reached by a text.
* `listing_shows_places`: the places of all tokens.
-/

namespace TokenEdit

/-! ## What is shown has no line feed -/

theorem lineFeed_not_mem_toDigits {b : Nat} (hb : 1 < b) (n : Nat) : '\n' ∉ Nat.toDigits b n := by
  induction n using Nat.strongRecOn with
  | ind n ih =>
    have hdigit : ∀ digit : Nat, '\n' ∉ [digit.digitChar] := fun digit hmem =>
      Nat.digitChar_ne '\n' (by decide) (List.mem_singleton.1 hmem).symm
    rw [Nat.toDigits_eq_if hb]
    split
    · exact hdigit n
    · exact List.not_mem_append (ih (n / b) (Nat.div_lt_self (by omega) hb)) (hdigit _)

namespace Text

theorem lineFeed_not_mem_codePoint (c : Char) : '\n' ∉ codePoint c := by
  simp [codePoint, lineFeed_not_mem_toDigits]

/-- A line feed is shown by other characters. -/
theorem lineFeed_not_mem_quoteChar (c : Char) : '\n' ∉ quoteChar c := by
  by_cases hc : c = '\n'
  · rw [hc]
    decide
  · have hown : '\n' ∉ [c] := fun hmem => hc (List.mem_singleton.1 hmem).symm
    rw [quoteChar, if_neg hc]
    repeat' split
    · decide
    · decide
    · decide
    · exact List.not_mem_cons_of_ne_of_not_mem (by decide) hown
    · exact hown
    · exact lineFeed_not_mem_codePoint c

theorem lineFeed_not_mem_quoted (cs : List Char) : '\n' ∉ quoted cs := by
  simp [quoted, lineFeed_not_mem_quoteChar]

end Text

theorem Kind.lineFeed_not_mem_name (k : Kind) : '\n' ∉ k.name.toList := by
  cases k <;> decide

namespace Token

/-- A line of a listing has a line feed at its end only. -/
theorem lineFeed_not_mem_dropLast (p : Place) (t : Token) : '\n' ∉ (listingLine p t).dropLast := by
  rw [listingLine, List.dropLast_concat]
  simp [lineFeed_not_mem_toDigits, Kind.lineFeed_not_mem_name, Text.lineFeed_not_mem_quoted]

theorem getLast?_listingLine (p : Place) (t : Token) :
    (listingLine p t).getLast? = some '\n' := by
  rw [listingLine, List.getLast?_concat]

/-! ## The lines of a listing -/

/-- The lines for tokens of which the first starts at `p`. -/
def linesFrom (p : Place) : List Token → List (List Char)
  | [] => []
  | t :: ts => listingLine p t :: linesFrom (p.after t.text) ts

theorem foldl_listNext (ts : List Token) (p : Place) (shown : List (List Char)) :
    (ts.foldl listNext (p, shown)).2 = (linesFrom p ts).reverse ++ shown := by
  induction ts generalizing p shown with
  | nil => rfl
  | cons t ts ih =>
    rw [List.foldl_cons, listNext, ih, linesFrom, List.reverse_cons, List.append_assoc,
      List.singleton_append]

theorem flatten_linesFrom (ts : List Token) : (linesFrom .start ts).flatten = listing ts := by
  rw [listing, foldl_listNext, List.append_nil, List.reverse_reverse]

theorem length_linesFrom (p : Place) (ts : List Token) : (linesFrom p ts).length = ts.length := by
  induction ts generalizing p with
  | nil => rfl
  | cons t ts ih => rw [linesFrom, List.length_cons, List.length_cons, ih]

/-- The line of a token starts at the place behind the tokens in front of it. -/
theorem getElem?_linesFrom (p : Place) (ts : List Token) (i : Nat) :
    (linesFrom p ts)[i]? = ts[i]?.map (listingLine (p.after (render (ts.take i)))) := by
  induction ts generalizing p i with
  | nil => rfl
  | cons t ts ih =>
    cases i with
    | zero => rfl
    | succ i =>
      rw [linesFrom, List.getElem?_cons_succ, List.getElem?_cons_succ, ih, List.take_succ_cons,
        render_cons, Place.after_append]

theorem exists_of_mem_linesFrom {p : Place} {ts : List Token} {line : List Char}
    (h : line ∈ linesFrom p ts) : ∃ q t, line = listingLine q t := by
  obtain ⟨i, hi⟩ := List.mem_iff_getElem?.1 h
  rw [getElem?_linesFrom] at hi
  obtain ⟨t, -, rfl⟩ := Option.map_eq_some_iff.1 hi
  exact ⟨_, t, rfl⟩

theorem endAtLineFeeds_linesFrom (p : Place) (ts : List Token) :
    RuleFile.EndAtLineFeeds (linesFrom p ts) := by
  intro before line behind h
  have hline : line ∈ linesFrom p ts := by
    rw [h]
    exact List.mem_append_right _ List.mem_cons_self
  obtain ⟨q, t, rfl⟩ := exists_of_mem_linesFrom hline
  refine ⟨?_, lineFeed_not_mem_dropLast q t, fun _ => getLast?_listingLine q t⟩
  exact List.append_ne_nil_of_right_ne_nil _ (List.cons_ne_nil _ _)

end Token

/-- **Every token has a line of the listing.** -/
theorem RuleFile.splitLines_listing (ts : List Token) :
    splitLines (Token.listing ts) = Token.linesFrom .start ts :=
  splitLines_eq_iff.2 ⟨Token.flatten_linesFrom ts, Token.endAtLineFeeds_linesFrom _ ts⟩

/-! ## Places -/

/-- The column is the number of characters behind the last line feed. -/
theorem exists_lastLine (text : List Char) :
    ∃ lines last, text = lines ++ last ∧ (lines = [] ∨ lines.getLast? = some '\n') ∧
      '\n' ∉ last ∧ columnAfter 0 text = last.length := by
  induction text using List.reverseRecOn with
  | nil => exact ⟨[], [], rfl, .inl rfl, by simp, rfl⟩
  | append_singleton text c ih =>
    obtain ⟨lines, last, rfl, hlines, hlast, hcolumn⟩ := ih
    rw [columnAfter_append, hcolumn]
    by_cases hc : c = '\n'
    · refine ⟨lines ++ last ++ [c], [], (List.append_nil _).symm, .inr ?_, by simp, ?_⟩
      · rw [List.getLast?_concat, hc]
      · simp [columnAfter, hc]
    · refine ⟨lines, last ++ [c], List.append_assoc .., hlines, ?_, by simp [columnAfter, hc]⟩
      exact List.not_mem_append hlast fun hmem => hc (List.mem_singleton.1 hmem).symm

/-- **The places in a listing are those of the tokens.**  A listing has one line for every token, in
their order, and each of the lines ends with a line feed.  The line of a token starts with the line
and the column of its first character, both counted from one: by the line feeds in front of the
token, and by the characters behind the last of these. -/
theorem listing_shows_places (source : List Char) :
    (RuleFile.splitLines (listText .plain source)).length = (tokenize source).length ∧
      (∀ line ∈ RuleFile.splitLines (listText .plain source), line.getLast? = some '\n') ∧
      ∀ i t, (tokenize source)[i]? = some t →
        ∃ front lines last behind, front = Token.render ((tokenize source).take i) ∧
          source = front ++ t.text ++ behind ∧ t.text ≠ [] ∧
          front = lines ++ last ∧ (lines = [] ∨ lines.getLast? = some '\n') ∧ '\n' ∉ last ∧
          (RuleFile.splitLines (listText .plain source))[i]? =
            some (Nat.toDigits 10 (1 + front.count '\n') ++ ':' ::
              Nat.toDigits 10 (1 + last.length) ++ ' ' :: t.kind.name.toList ++ ' ' ::
              Text.quoted t.text ++ ['\n']) := by
  have hlines : RuleFile.splitLines (listText .plain source) =
      Token.linesFrom .start (tokenize source) :=
    RuleFile.splitLines_listing (tokenize source)
  rw [hlines]
  refine ⟨Token.length_linesFrom _ _, ?_, ?_⟩
  · intro line hline
    obtain ⟨p, t, rfl⟩ := Token.exists_of_mem_linesFrom hline
    exact Token.getLast?_listingLine p t
  · intro i t ht
    obtain ⟨lines, last, hfront, hends, hlast, hcolumn⟩ :=
      exists_lastLine (Token.render ((tokenize source).take i))
    have hsplit : tokenize source =
        (tokenize source).take i ++ t :: (tokenize source).drop (i + 1) := by
      obtain ⟨hlt, rfl⟩ := List.getElem?_eq_some_iff.1 ht
      rw [← List.drop_eq_getElem_cons hlt, List.take_append_drop]
    have hsource : source = Token.render ((tokenize source).take i) ++ t.text ++
        Token.render ((tokenize source).drop (i + 1)) := by
      rw [List.append_assoc, ← Token.render_cons, ← Token.render_append, ← hsplit,
        render_tokenize]
    have hne := (maximalMunch_tokenize source _ t _ hsplit).1
    refine ⟨_, lines, last, _, rfl, hsource, hne, hfront, hends, hlast, ?_⟩
    rw [Token.getElem?_linesFrom, ht, Option.map_some, Token.listingLine, Place.after, Place.start,
      hcolumn, Nat.add_comm last.length]

/-- The place of a name behind a comment with two line feeds and characters of several bytes. -/
theorem listing_shows_places_behind_comment :
    let source := "é /*\n\n€*/ x\ny".toList
    (tokenize source)[4]? = some ⟨.identifier, ['x']⟩ ∧
      (∃ lines last, Token.render ((tokenize source).take 4) = lines ++ last ∧
        (lines = [] ∨ lines.getLast? = some '\n') ∧ '\n' ∉ last ∧
        (RuleFile.splitLines (listText .plain source))[4]? =
          some (Nat.toDigits 10 (1 + 2) ++ ':' :: Nat.toDigits 10 (1 + last.length) ++
            " identifier \"x\"\n".toList)) ∧
      (RuleFile.splitLines (listText .plain source))[4]? =
        some "3:5 identifier \"x\"\n".toList := by
  intro source
  have ht : (tokenize source)[4]? = some ⟨.identifier, ['x']⟩ := by decide +kernel
  obtain ⟨front, lines, last, behind, rfl, -, -, hfront, hends, hlast, hline⟩ :=
    (listing_shows_places source).2.2 4 _ ht
  have hcount : (Token.render ((tokenize source).take 4)).count '\n' = 2 := by decide +kernel
  have hquoted : Text.quoted ['x'] = "\"x\"".toList := by decide +kernel
  refine ⟨ht, ⟨lines, last, hfront, hends, hlast, ?_⟩, by decide +kernel⟩
  rw [hline, hcount]
  simp [Kind.name, hquoted]

end TokenEdit
