import TokenEdit.Proofs.MaximalMunch

/-!
# The text behind a token

Whether a token is of its form depends on the text behind it, but not on much of it: only its first
character counts, and of a letter not which one it is.  A token stays of its form when nothing is
left behind it, and when a blank takes the place of what was there.

* `Kind.Form.of_startAlike`: forms see of the text behind a token only how it starts.
* `Kind.Form.alone`, `Kind.Form.before_space`: nothing and a blank behind a token.
* `Token.Whole`: the tokens that are the only tokens of their texts.
-/

namespace TokenEdit

theorem IsRun.before {p : Char → Prop} {text rest rest' : List Char} (h : IsRun p text rest)
    (hrest' : ∀ c ∈ rest'.head?, ¬ p c) : IsRun p text rest' :=
  ⟨h.1, hrest'⟩

/-- A token is still of its form when nothing follows it. -/
theorem Kind.Form.alone {k : Kind} {text rest : List Char} (h : k.Form text rest) :
    k.Form text [] := by
  have hnone : ∀ {p : Char → Prop}, ∀ c ∈ ([] : List Char).head?, ¬ p c :=
    fun c hc => absurd hc (by simp)
  cases k with
  | newline | bracket => exact h
  | whitespace | lineComment | identifier => exact ⟨h.1, h.2.before hnone⟩
  | number => exact IsRun.before h hnone
  | blockComment => exact ⟨h.1, h.2.imp_right fun htail => ⟨htail.1, rfl⟩⟩
  | other =>
    obtain ⟨c, htext, hc, -⟩ := h
    exact ⟨c, htext, hc, fun _ => by simp⟩

/-- A significant token is still of its form when a blank follows it. -/
theorem Kind.Form.before_space {k : Kind} (hk : k.isDelimiter = false) {text rest : List Char}
    (h : k.Form text rest) (rest' : List Char) : k.Form text (' ' :: rest') := by
  have hspace : ∀ {p : Char → Prop}, ¬ p ' ' → ∀ c ∈ (' ' :: rest').head?, ¬ p c := by
    intro p hp c hc
    obtain rfl : ' ' = c := Option.some.inj hc
    exact hp
  cases k with
  | newline | whitespace | lineComment | blockComment => exact absurd hk (by decide)
  | bracket => exact h
  | identifier => exact ⟨h.1, h.2.before (hspace (by decide))⟩
  | number => exact IsRun.before h (hspace (by decide))
  | other =>
    obtain ⟨c, htext, hc, -⟩ := h
    exact ⟨c, htext, hc, fun _ => ⟨by simp, by simp⟩⟩

theorem IsLetter.not_mem_blanks {c : Char} (h : IsLetter c) : c ∉ blanks := by
  rw [← isBlankChar_iff, isBlankChar_eq_false_of_class (by decide) h]
  decide

/-- Texts that start with the same character, or each with a letter, or that are both empty. -/
def StartAlike (rest rest' : List Char) : Prop :=
  rest.head? = rest'.head? ∨ (∃ c ∈ rest.head?, IsLetter c) ∧ ∃ c ∈ rest'.head?, IsLetter c

/-- A run ends before texts that start alike, when its class has all letters or none. -/
theorem IsRun.of_startAlike {p : Char → Prop}
    (hp : (∀ c, IsLetter c → p c) ∨ ∀ c, IsLetter c → ¬ p c) {text rest rest' : List Char}
    (h : IsRun p text rest) (hstart : StartAlike rest rest') : IsRun p text rest' := by
  refine h.before fun c hc => ?_
  rcases hstart with hsame | ⟨⟨c₁, hc₁, hletter₁⟩, c₂, hc₂, hletter₂⟩
  · exact h.2 c (hsame ▸ hc)
  · obtain rfl : c₂ = c := Option.some.inj (hc₂.symm.trans hc)
    rcases hp with hall | hnone
    · exact absurd (hall c₁ hletter₁) (h.2 c₁ hc₁)
    · exact hnone c₂ hletter₂

/-- **Forms see of the text behind a token only how it starts.** -/
theorem Kind.Form.of_startAlike {k : Kind} {text rest rest' : List Char} (h : k.Form text rest)
    (hstart : StartAlike rest rest') : k.Form text rest' := by
  cases k with
  | newline | bracket => exact h
  | whitespace =>
    exact ⟨h.1, h.2.of_startAlike (.inr fun _ hc => hc.not_mem_blanks) hstart⟩
  | lineComment =>
    have hletters : ∀ c, IsLetter c → c ≠ '\n' := by
      rintro c hc rfl
      exact absurd hc (by decide)
    exact ⟨h.1, h.2.of_startAlike (.inl hletters) hstart⟩
  | blockComment =>
    -- a comment that is not closed has nothing behind it
    refine ⟨h.1, h.2.imp_right fun htail => ⟨htail.1, ?_⟩⟩
    obtain rfl := htail.2
    rcases hstart with hsame | ⟨⟨c, hc, -⟩, -⟩
    · exact List.head?_eq_none_iff.1 hsame.symm
    · exact absurd hc (by simp)
  | identifier => exact ⟨h.1, h.2.of_startAlike (.inl fun _ hc => .inl hc) hstart⟩
  | number => exact IsRun.of_startAlike (.inr fun _ hc hdigit => hdigit.not_isLetter hc) h hstart
  | other =>
    obtain ⟨c, htext, hc, hslash⟩ := h
    refine ⟨c, htext, hc, fun heq => ?_⟩
    rcases hstart with hsame | ⟨-, c', hc', hletter⟩
    · exact hsame ▸ hslash heq
    · rw [Option.mem_def.1 hc']
      constructor <;>
      · intro hmark
        rw [Option.some.inj hmark] at hletter
        exact absurd hletter (by decide)

/-- A token is still of its form when only a part of the text behind it is left. -/
theorem Kind.Form.of_isPrefix {k : Kind} {text rest rest' : List Char} (h : k.Form text rest)
    (hrest : rest' <+: rest) : k.Form text rest' := by
  cases rest' with
  | nil => exact h.alone
  | cons c cs =>
    obtain ⟨more, rfl⟩ := hrest
    exact h.of_startAlike (.inl rfl)

namespace Token

/-- A token that is the only token of its text. -/
def Whole (t : Token) : Prop :=
  t.text ≠ [] ∧ t.kind.Form t.text []

theorem Whole.classified {t : Token} (h : t.Whole) : t.Classified := by
  have hkind := h.2.ofText_eq h.1
  rw [List.append_nil] at hkind
  exact hkind.symm

theorem whole_of_mem_tokenize {source : List Char} {t : Token} (h : t ∈ tokenize source) :
    t.Whole := by
  obtain ⟨before, behind, hsplit⟩ := List.append_of_mem h
  obtain ⟨hne, hform⟩ := maximalMunch_tokenize source before t behind hsplit
  exact ⟨hne, hform.alone⟩

end Token

end TokenEdit
