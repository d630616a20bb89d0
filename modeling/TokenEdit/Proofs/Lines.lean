import TokenEdit.Proofs.MaximalMunch
import TokenEdit.RuleFile.Line

/-!
# The lines of a text

A text is divided into lines by what the lines look like (`RuleFile.EndAtLineFeeds`), and not by how
they are found.  There is one such division, and `RuleFile.splitLines` finds it.
-/

namespace TokenEdit.RuleFile

/-- Every line has some text, ends with a line feed if another line follows, and has no line feed
before its end. -/
def EndAtLineFeeds (lines : List (List Char)) : Prop :=
  ∀ before line behind, lines = before ++ line :: behind →
    line ≠ [] ∧ '\n' ∉ line.dropLast ∧ (behind ≠ [] → line.getLast? = some '\n')

theorem endAtLineFeeds_nil : EndAtLineFeeds [] := by
  intro before line behind h
  exact absurd h (by simp)

theorem endAtLineFeeds_cons_iff {line : List Char} {lines : List (List Char)} :
    EndAtLineFeeds (line :: lines) ↔
      (line ≠ [] ∧ '\n' ∉ line.dropLast ∧ (lines ≠ [] → line.getLast? = some '\n')) ∧
        EndAtLineFeeds lines :=
  forall_split_cons_iff

theorem endAtLineFeeds_splitLinesFrom {seen : List Char} (hseen : '\n' ∉ seen) (cs : List Char) :
    EndAtLineFeeds (splitLinesFrom seen cs) := by
  induction cs generalizing seen with
  | nil =>
    cases seen with
    | nil => exact endAtLineFeeds_nil
    | cons c seen =>
      refine endAtLineFeeds_cons_iff.2 ⟨⟨by simp, fun hmem => ?_, absurd rfl⟩, endAtLineFeeds_nil⟩
      exact hseen (List.mem_reverse.1 (List.dropLast_subset _ hmem))
  | cons c cs ih =>
    by_cases hc : c = '\n'
    · rw [splitLinesFrom, if_pos hc, endAtLineFeeds_cons_iff]
      refine ⟨⟨by simp, ?_, fun _ => by simp [hc]⟩, ih (by simp)⟩
      rw [List.reverse_cons, List.dropLast_concat]
      simpa using hseen
    · rw [splitLinesFrom, if_neg hc]
      exact ih fun hmem => (List.mem_cons.1 hmem).elim (fun h => hc h.symm) hseen

/-- A line that another division makes longer has a line feed before its end. -/
theorem eq_nil_of_longer_line {line more rest : List Char} {lines : List (List Char)}
    (hlast : lines ≠ [] → line.getLast? = some '\n') (hlines : lines.flatten = more ++ rest)
    (hlonger : '\n' ∉ (line ++ more).dropLast) : more = [] := by
  cases more with
  | nil => rfl
  | cons c cs =>
    have hne : lines ≠ [] := by
      rintro rfl
      exact absurd hlines (by simp)
    rw [List.dropLast_append_cons] at hlonger
    exact absurd (List.mem_append_left _ (List.mem_of_getLast? (hlast hne))) hlonger

theorem EndAtLineFeeds.eq_of_flatten : ∀ {lines lines' : List (List Char)}, EndAtLineFeeds lines →
    EndAtLineFeeds lines' → lines.flatten = lines'.flatten → lines = lines'
  | [], [], _, _, _ => rfl
  | [], line' :: lines', _, h', heq => by
    exact absurd (List.append_eq_nil_iff.1 heq.symm).1 (endAtLineFeeds_cons_iff.1 h').1.1
  | line :: lines, [], h, _, heq => by
    exact absurd (List.append_eq_nil_iff.1 heq).1 (endAtLineFeeds_cons_iff.1 h).1.1
  | line :: lines, line' :: lines', h, h', heq => by
    obtain ⟨⟨-, hinner, hlast⟩, hlines⟩ := endAtLineFeeds_cons_iff.1 h
    obtain ⟨⟨-, hinner', hlast'⟩, hlines'⟩ := endAtLineFeeds_cons_iff.1 h'
    have hline : line = line' := by
      rcases List.append_eq_append_iff.1 heq with ⟨more, rfl, hrest⟩ | ⟨more, rfl, hrest⟩
      · rw [eq_nil_of_longer_line hlast hrest hinner', List.append_nil]
      · rw [eq_nil_of_longer_line hlast' hrest hinner, List.append_nil]
    subst hline
    rw [hlines.eq_of_flatten hlines' (List.append_cancel_left heq)]

/-- **The lines of a text** are the only division of it that ends lines at line feeds. -/
theorem splitLines_eq_iff {text : List Char} {lines : List (List Char)} :
    splitLines text = lines ↔ lines.flatten = text ∧ EndAtLineFeeds lines := by
  have hsplit : EndAtLineFeeds (splitLines text) := endAtLineFeeds_splitLinesFrom (by simp) text
  constructor
  · rintro rfl
    exact ⟨flatten_splitLines text, hsplit⟩
  · rintro ⟨rfl, hlines⟩
    exact hsplit.eq_of_flatten hlines (flatten_splitLines _)

end TokenEdit.RuleFile
