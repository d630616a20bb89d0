import TokenEdit.Proofs.Runs

/-!
# Counting curly brackets

A scan keeps the number of brackets that it has copied and that are still open.  Here the number
is tied to the brackets of the tokens copied: behind some tokens it is what was open before, plus
the opening brackets, less the closing ones; and it can be kept up as long as no prefix of the
tokens closes more brackets than were open.

* `Nested depth ts`: no prefix of the tokens closes more than is open, when `depth` brackets are
  open at their start.
* `nested_cons_of_significant`: it is what `Scan.depthAfter` decides, token by token.
* `openAfter?`: the number itself, read off the tokens; `openAfter?_append` cuts a list, and
  `nested_and_closed_iff` goes back to prefixes and totals.
* `Balanced`: all brackets have their partners in the list.
-/

namespace TokenEdit

/-- An opening curly bracket. -/
def Token.opens (t : Token) : Bool :=
  !t.isDelimiter && t.text = ['{']

/-- A closing curly bracket. -/
def Token.closes (t : Token) : Bool :=
  !t.isDelimiter && t.text = ['}']

/-- No prefix closes more brackets than it opens, besides the `depth` brackets that are open at
the start. -/
def Nested (depth : Nat) (ts : List Token) : Prop :=
  ∀ front, front <+: ts → front.countP Token.closes ≤ depth + front.countP Token.opens

/-- All brackets are closed at the end, also those that are open at the start. -/
def Closed (depth : Nat) (ts : List Token) : Prop :=
  ts.countP Token.closes = depth + ts.countP Token.opens

theorem nested_nil (depth : Nat) : Nested depth [] := by
  intro front hfront
  rw [List.prefix_nil.1 hfront]
  exact Nat.zero_le _

theorem closed_nil_iff {depth : Nat} : Closed depth [] ↔ depth = 0 := by
  simp [Closed, eq_comm]

theorem countP_cons_eq (p : Token → Bool) (t : Token) (ts : List Token) :
    (t :: ts).countP p = [t].countP p + ts.countP p := by
  rw [← List.singleton_append, List.countP_append]

/-- To be nested is to be nested at the first token and behind it. -/
theorem nested_cons_iff {depth : Nat} {t : Token} {ts : List Token} :
    Nested depth (t :: ts) ↔
      [t].countP Token.closes ≤ depth + [t].countP Token.opens ∧
        Nested (depth + [t].countP Token.opens - [t].countP Token.closes) ts := by
  constructor
  · intro h
    have hfirst := h [t] (List.cons_prefix_cons.2 ⟨rfl, List.nil_prefix⟩)
    refine ⟨hfirst, fun front hfront => ?_⟩
    have hmore := h (t :: front) (List.cons_prefix_cons.2 ⟨rfl, hfront⟩)
    rw [countP_cons_eq Token.closes t front, countP_cons_eq Token.opens t front] at hmore
    omega
  · rintro ⟨hfirst, h⟩ front hfront
    cases front with
    | nil => exact Nat.zero_le _
    | cons t' front =>
      obtain ⟨rfl, hprefix⟩ := List.cons_prefix_cons.1 hfront
      have hmore := h front hprefix
      rw [countP_cons_eq Token.closes t' front, countP_cons_eq Token.opens t' front]
      omega

theorem countP_delimiter {t : Token} (ht : t.isDelimiter = true) :
    [t].countP Token.opens = 0 ∧ [t].countP Token.closes = 0 := by
  simp [Token.opens, Token.closes, ht]

/-- A delimiter is no bracket. -/
theorem nested_cons_of_isDelimiter {depth : Nat} {t : Token} (ht : t.isDelimiter = true)
    {ts : List Token} : Nested depth (t :: ts) ↔ Nested depth ts := by
  rw [nested_cons_iff, (countP_delimiter ht).1, (countP_delimiter ht).2]
  simp

theorem closed_cons_of_isDelimiter {depth : Nat} {t : Token} (ht : t.isDelimiter = true)
    {ts : List Token} : Closed depth (t :: ts) ↔ Closed depth ts := by
  simp [Closed, Token.opens, Token.closes, ht]

/-- What a significant token does to the number of open brackets. -/
theorem depthAfter_eq_some_iff {t : Token} (ht : t.isDelimiter = false) {depth depth' : Nat} :
    Scan.depthAfter depth t.text = some depth' ↔
      [t].countP Token.closes ≤ depth + [t].countP Token.opens ∧
        depth' = depth + [t].countP Token.opens - [t].countP Token.closes := by
  have hopen : [t].countP Token.opens = if t.text = ['{'] then 1 else 0 := by
    simp [Token.opens, ht, List.countP_singleton]
  have hclose : [t].countP Token.closes = if t.text = ['}'] then 1 else 0 := by
    simp [Token.closes, ht, List.countP_singleton]
  rw [hopen, hclose, Scan.depthAfter]
  by_cases h₁ : t.text = ['{']
  · simp [h₁, eq_comm]
  · by_cases h₂ : t.text = ['}']
    · by_cases h₃ : depth = 0
      · simp [h₂, h₃]
      · simp [h₂, h₃, eq_comm]
        omega
    · simp [h₁, h₂, eq_comm]

/-- A significant token is nested when it leaves a number of open brackets, with which the tokens
behind it are nested. -/
theorem nested_cons_of_significant {depth : Nat} {t : Token} (ht : t.isDelimiter = false)
    {ts : List Token} :
    Nested depth (t :: ts) ↔
      ∃ depth', Scan.depthAfter depth t.text = some depth' ∧ Nested depth' ts := by
  rw [nested_cons_iff]
  constructor
  · rintro ⟨hle, h⟩
    exact ⟨_, (depthAfter_eq_some_iff ht).2 ⟨hle, rfl⟩, h⟩
  · rintro ⟨depth', hdepth, h⟩
    obtain ⟨hle, rfl⟩ := (depthAfter_eq_some_iff ht).1 hdepth
    exact ⟨hle, h⟩

theorem closed_cons_of_significant {depth depth' : Nat} {t : Token} (ht : t.isDelimiter = false)
    (hdepth : Scan.depthAfter depth t.text = some depth') {ts : List Token} :
    Closed depth (t :: ts) ↔ Closed depth' ts := by
  obtain ⟨hle, rfl⟩ := (depthAfter_eq_some_iff ht).1 hdepth
  rw [Closed, Closed, countP_cons_eq Token.closes t ts, countP_cons_eq Token.opens t ts]
  omega

/-- Only a closing bracket ends a scan, where no bracket is open. -/
theorem depthAfter_eq_none_iff {depth : Nat} {text : List Char} :
    Scan.depthAfter depth text = none ↔ text = ['}'] ∧ depth = 0 := by
  unfold Scan.depthAfter
  by_cases h₁ : text = ['{']
  · simp [h₁]
  · by_cases h₂ : text = ['}'] <;> simp [h₁, h₂]

/-! ## The brackets open behind a list -/

/-- The number of brackets open behind some tokens, when `depth` brackets are open in front of
them; `none` where a closing bracket has no partner. -/
def openAfter? (depth : Nat) : List Token → Option Nat
  | [] => some depth
  | t :: ts =>
    if t.isDelimiter then openAfter? depth ts
    else (Scan.depthAfter depth t.text).bind fun depth => openAfter? depth ts

@[simp] theorem openAfter?_nil (depth : Nat) : openAfter? depth [] = some depth := rfl

theorem openAfter?_cons_of_isDelimiter {t : Token} (ht : t.isDelimiter = true) (depth : Nat)
    (ts : List Token) : openAfter? depth (t :: ts) = openAfter? depth ts := by
  rw [openAfter?, if_pos ht]

theorem openAfter?_cons_of_significant {t : Token} (ht : t.isDelimiter = false) (depth : Nat)
    (ts : List Token) : openAfter? depth (t :: ts) =
      (Scan.depthAfter depth t.text).bind fun depth => openAfter? depth ts := by
  rw [openAfter?, if_neg (by simp [ht])]

theorem openAfter?_append (depth : Nat) (left right : List Token) :
    openAfter? depth (left ++ right) =
      (openAfter? depth left).bind fun depth => openAfter? depth right := by
  induction left generalizing depth with
  | nil => rfl
  | cons t left ih =>
    rw [List.cons_append]
    cases ht : t.isDelimiter with
    | true => rw [openAfter?_cons_of_isDelimiter ht, openAfter?_cons_of_isDelimiter ht, ih]
    | false =>
      rw [openAfter?_cons_of_significant ht, openAfter?_cons_of_significant ht,
        Option.bind_assoc]
      simp only [ih]

/-- Brackets that are open further out stay open. -/
theorem depthAfter_add {depth depth' : Nat} {text : List Char}
    (h : Scan.depthAfter depth text = some depth') (outer : Nat) :
    Scan.depthAfter (outer + depth) text = some (outer + depth') := by
  unfold Scan.depthAfter at h ⊢
  by_cases hopen : text = ['{']
  · rw [if_pos hopen, Option.some.injEq] at h ⊢
    omega
  · rw [if_neg hopen] at h ⊢
    by_cases hclose : text = ['}']
    · rw [if_pos hclose, Option.ite_none_left_eq_some, Option.some.injEq] at h ⊢
      omega
    · rw [if_neg hclose, Option.some.injEq] at h ⊢
      omega

theorem openAfter?_add {depth depth' : Nat} {ts : List Token}
    (h : openAfter? depth ts = some depth') (outer : Nat) :
    openAfter? (outer + depth) ts = some (outer + depth') := by
  induction ts generalizing depth with
  | nil =>
    rw [openAfter?_nil, Option.some.injEq] at h ⊢
    omega
  | cons t ts ih =>
    cases ht : t.isDelimiter with
    | true =>
      rw [openAfter?_cons_of_isDelimiter ht] at h ⊢
      exact ih h
    | false =>
      rw [openAfter?_cons_of_significant ht] at h ⊢
      obtain ⟨depth₁, hdepth₁, h⟩ := Option.bind_eq_some_iff.1 h
      rw [depthAfter_add hdepth₁, Option.bind_some]
      exact ih h

/-- Prefixes and totals of the brackets, read token by token. -/
theorem nested_and_closed_iff {depth : Nat} {ts : List Token} :
    Nested depth ts ∧ Closed depth ts ↔ openAfter? depth ts = some 0 := by
  induction ts generalizing depth with
  | nil => simp [nested_nil, closed_nil_iff]
  | cons t ts ih =>
    cases ht : t.isDelimiter with
    | true =>
      rw [nested_cons_of_isDelimiter ht, closed_cons_of_isDelimiter ht,
        openAfter?_cons_of_isDelimiter ht, ih]
    | false =>
      rw [nested_cons_of_significant ht, openAfter?_cons_of_significant ht,
        Option.bind_eq_some_iff]
      constructor
      · rintro ⟨⟨depth', hdepth, hnested⟩, hclosed⟩
        exact ⟨depth', hdepth, ih.1 ⟨hnested, (closed_cons_of_significant ht hdepth).1 hclosed⟩⟩
      · rintro ⟨depth', hdepth, h⟩
        obtain ⟨hnested, hclosed⟩ := ih.2 h
        exact ⟨⟨depth', hdepth, hnested⟩, (closed_cons_of_significant ht hdepth).2 hclosed⟩

/-- All brackets among the tokens have their partners there: no prefix closes more of them than it
opens, and in all there are as many opening as closing ones. -/
def Balanced (ts : List Token) : Prop :=
  Nested 0 ts ∧ Closed 0 ts

instance : DecidablePred Balanced := fun _ => decidable_of_iff _ nested_and_closed_iff.symm

/-- Balanced tokens leave open what was open. -/
theorem Balanced.openAfter? {ts : List Token} (h : Balanced ts) (depth : Nat) :
    openAfter? depth ts = some depth :=
  openAfter?_add (nested_and_closed_iff.1 h) depth

end TokenEdit
