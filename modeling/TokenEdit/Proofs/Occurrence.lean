import TokenEdit.Proofs.Rollback

/-!
# What an occurrence looks at

An occurrence takes at least one token, and it looks at nothing behind the tokens that it takes:
whatever stands there, the tokens alone are the same occurrence.  Both hold of a span together
with its terminator, so they hold of an item and then of items one behind the other.

* `spanLengthFrom?_split`, `Item.match?_split`, `Item.matchAll?_split`: the tokens taken, cut off
  from what stands behind them.
* `Pattern.match?_take_append`: the same of a whole pattern.
* `Pattern.match?_append`, `Pattern.match?_of_append`: occurrences in a list and in a longer one.
-/

namespace TokenEdit

/-! ## Spans -/

/-- The end of a span is seen as soon as its terminator has been read. -/
theorem spanLengthFrom?_split {terminator : List Char} {passed n : Nat}
    {closers : List (List Char)} {ts : List Token}
    (h : spanLengthFrom? terminator passed closers ts = some n) :
    ∃ span t rest, ts = span ++ t :: rest ∧ t.text = terminator ∧ n = passed + span.length ∧
      ∀ more, spanLengthFrom? terminator passed closers (span ++ t :: more) = some n := by
  induction ts generalizing passed closers with
  | nil => simp at h
  | cons t ts ih =>
    by_cases ht : t.text = closers.headD terminator
    · cases closers with
      | nil =>
        replace ht : t.text = terminator := ht
        rw [spanLengthFrom?_terminator ht] at h
        refine ⟨[], t, ts, rfl, ht, (Option.some.inj h).symm, fun more => ?_⟩
        rw [List.nil_append, spanLengthFrom?_terminator ht, h]
      | cons closer outer =>
        replace ht : t.text = closer := ht
        rw [spanLengthFrom?_closer ht] at h
        obtain ⟨span, t', rest, rfl, ht', hn, hmore⟩ := ih h
        refine ⟨t :: span, t', rest, rfl, ht', ?_, fun more => ?_⟩
        · rw [hn, List.length_cons]
          omega
        · rw [List.cons_append, spanLengthFrom?_closer ht, hmore]
    · rw [spanLengthFrom?_other ht] at h
      obtain ⟨span, t', rest, rfl, ht', hn, hmore⟩ := ih h
      refine ⟨t :: span, t', rest, rfl, ht', ?_, fun more => ?_⟩
      · rw [hn, List.length_cons]
        omega
      · rw [List.cons_append, spanLengthFrom?_other ht, hmore]

/-! ## Items -/

namespace Item

@[simp] theorem match?_nil (b : Bindings) (item : Item) : item.match? b [] = none := by
  cases item <;> rfl

/-- A delimiter in front of an item is taken along. -/
theorem match?_cons_of_isDelimiter {t : Token} (ht : t.isDelimiter = true) (b : Bindings)
    (item : Item) (ts : List Token) :
    item.match? b (t :: ts) = (item.match? b ts).map fun (taken, b) => (taken + 1, b) := by
  rw [match?, match?, List.dropWhile_cons_of_pos ht, List.takeWhile_cons_of_pos ht,
    Option.map_map, List.length_cons]
  congr 1
  funext result
  exact Prod.ext (Nat.add_right_comm _ 1 _) rfl

theorem match?_cons_of_isDelimiter_eq_some_iff {t : Token} (ht : t.isDelimiter = true)
    {b b' : Bindings} {item : Item} {ts : List Token} {n : Nat} :
    item.match? b (t :: ts) = some (n, b') ↔
      ∃ taken, item.match? b ts = some (taken, b') ∧ n = taken + 1 := by
  rw [match?_cons_of_isDelimiter ht, Option.map_eq_some_iff]
  constructor
  · rintro ⟨⟨taken, b₁⟩, h, heq⟩
    obtain ⟨rfl, rfl⟩ := Prod.mk.inj heq
    exact ⟨taken, h, rfl⟩
  · rintro ⟨taken, h, rfl⟩
    exact ⟨(taken, b'), h, rfl⟩

theorem match?_cons_of_significant {t : Token} (ht : t.isDelimiter = false) (b : Bindings)
    (item : Item) (ts : List Token) : item.match? b (t :: ts) = item.matchHere? b (t :: ts) := by
  rw [match?, List.dropWhile_cons_of_neg (by simp [ht]), List.takeWhile_cons_of_neg (by simp [ht]),
    List.length_nil]
  cases item.matchHere? b (t :: ts) with
  | none => rfl
  | some result => exact congrArg some (Prod.ext (Nat.zero_add _) rfl)

/-- The expression item, opened: its span, its capture and its terminator. -/
theorem matchHere?_expr_eq_some_iff {b b' : Bindings} {name : List Char} {terminator : Token}
    {ts : List Token} {taken : Nat} :
    (expr name terminator).matchHere? b ts = some (taken, b') ↔
      ∃ length, spanLength? terminator.text ts = some length ∧
        b.bind? name (ts.take length) = some b' ∧ taken = length + 1 := by
  cases ts with
  | nil => simp [matchHere?, spanLength?, spanLengthFrom?]
  | cons t ts =>
    simp only [matchHere?, Option.bind_eq_bind, Option.bind_eq_some_iff]
    constructor
    · rintro ⟨length, hlength, b₁, hbind, heq⟩
      obtain ⟨rfl, rfl⟩ := Prod.mk.inj (Option.some.inj heq)
      exact ⟨length, hlength, hbind, rfl⟩
    · rintro ⟨length, hlength, hbind, rfl⟩
      exact ⟨length, hlength, b', hbind, rfl⟩

theorem matchHere?_split {b b' : Bindings} {item : Item} {ts : List Token} {taken : Nat}
    (h : item.matchHere? b ts = some (taken, b')) :
    ∃ used rest, ts = used ++ rest ∧ used.length = taken ∧ 0 < taken ∧
      ∀ more, item.matchHere? b (used ++ more) = some (taken, b') := by
  cases item with
  | literal l =>
    cases ts with
    | nil => simp [matchHere?] at h
    | cons t ts =>
      simp only [matchHere?, Option.ite_none_right_eq_some, Option.some.injEq,
        Prod.mk.injEq] at h
      obtain ⟨htext, rfl, rfl⟩ := h
      exact ⟨[t], ts, rfl, rfl, Nat.one_pos, fun more => by simp [matchHere?, htext]⟩
  | ident name =>
    cases ts with
    | nil => simp [matchHere?] at h
    | cons t ts =>
      simp only [matchHere?, Option.ite_none_right_eq_some, Option.map_eq_some_iff,
        Prod.mk.injEq] at h
      obtain ⟨hkind, b₁, hbind, rfl, rfl⟩ := h
      exact ⟨[t], ts, rfl, rfl, Nat.one_pos, fun more => by simp [matchHere?, hkind, hbind]⟩
  | expr name terminator =>
    obtain ⟨length, hlength, hbind, rfl⟩ := matchHere?_expr_eq_some_iff.1 h
    obtain ⟨span, t, rest, rfl, -, hn, hmore⟩ := spanLengthFrom?_split hlength
    have hspan : length = span.length := by rw [hn, Nat.zero_add]
    refine ⟨span ++ [t], rest, by simp, by simp [hspan], Nat.succ_pos _, fun more => ?_⟩
    rw [List.append_assoc, List.singleton_append]
    refine matchHere?_expr_eq_some_iff.2 ⟨length, hmore more, ?_, rfl⟩
    rw [hspan, List.take_left] at hbind ⊢
    exact hbind

/-- An item takes a token and looks at nothing behind the tokens that it takes. -/
theorem match?_split {b b' : Bindings} {item : Item} {ts : List Token} {taken : Nat}
    (h : item.match? b ts = some (taken, b')) :
    ∃ used rest, ts = used ++ rest ∧ used.length = taken ∧ 0 < taken ∧
      ∀ more, item.match? b (used ++ more) = some (taken, b') := by
  induction ts generalizing taken with
  | nil => simp at h
  | cons t ts ih =>
    cases ht : t.isDelimiter with
    | true =>
      obtain ⟨taken', htaken, rfl⟩ := (match?_cons_of_isDelimiter_eq_some_iff ht).1 h
      obtain ⟨used, rest, rfl, hlength, -, hmore⟩ := ih htaken
      refine ⟨t :: used, rest, rfl, by simp [hlength], Nat.succ_pos _, fun more => ?_⟩
      exact (match?_cons_of_isDelimiter_eq_some_iff ht).2 ⟨taken', hmore more, rfl⟩
    | false =>
      rw [match?_cons_of_significant ht] at h
      obtain ⟨used, rest, hts, hlength, hpos, hmore⟩ := matchHere?_split h
      refine ⟨used, rest, hts, hlength, hpos, fun more => ?_⟩
      cases used with
      | nil => exact absurd hlength (Nat.ne_of_lt hpos)
      | cons t' used =>
        obtain ⟨rfl, -⟩ := List.cons.inj hts
        rw [← hmore more]
        exact match?_cons_of_significant ht b item _

/-- Items one behind the other look at nothing behind the tokens that they take. -/
theorem matchAll?_split {b b' : Bindings} {items : List Item} {ts : List Token} {taken : Nat}
    (h : matchAll? b items ts = some (taken, b')) :
    ∃ used rest, ts = used ++ rest ∧ used.length = taken ∧ items.length ≤ taken ∧
      ∀ more, matchAll? b items (used ++ more) = some (taken, b') := by
  induction items generalizing b ts taken with
  | nil =>
    obtain ⟨rfl, rfl⟩ := Prod.mk.inj (Option.some.inj h)
    exact ⟨[], ts, rfl, rfl, Nat.le_refl _, fun _ => rfl⟩
  | cons item items ih =>
    obtain ⟨first, b₁, more, hfirst, hmore, rfl⟩ := matchAll?_cons_eq_some_iff.1 h
    obtain ⟨used, rest, rfl, rfl, hpos, hused⟩ := match?_split hfirst
    rw [List.drop_left] at hmore
    obtain ⟨used', rest', rfl, rfl, hle, hused'⟩ := ih hmore
    refine ⟨used ++ used', rest', by simp, by simp, ?_, fun behind => ?_⟩
    · rw [List.length_cons]
      omega
    · rw [List.append_assoc]
      refine matchAll?_cons_eq_some_iff.2 ⟨used.length, b₁, used'.length, hused _, ?_, rfl⟩
      rw [List.drop_left]
      exact hused' behind

end Item

/-! ## Patterns -/

namespace Pattern

theorem match?_split {b b' : Bindings} {p : Pattern} {ts : List Token} {taken : Nat}
    (h : p.match? b ts = some (taken, b')) :
    ∃ used rest, ts = used ++ rest ∧ used.length = taken ∧ 0 < taken ∧
      ∀ more, p.match? b (used ++ more) = some (taken, b') := by
  obtain ⟨used, rest, hts, hlength, hle, hmore⟩ := Item.matchAll?_split h
  have hitems : 0 < p.items.length := List.length_pos_iff.2 p.items_ne_nil
  exact ⟨used, rest, hts, hlength, by omega, hmore⟩

/-- **The tokens taken are an occurrence by themselves**, whatever stands behind them. -/
theorem match?_take_append {b b' : Bindings} {p : Pattern} {ts : List Token} {taken : Nat}
    (h : p.match? b ts = some (taken, b')) (more : List Token) :
    p.match? b (ts.take taken ++ more) = some (taken, b') := by
  obtain ⟨used, rest, rfl, rfl, -, hmore⟩ := match?_split h
  rw [List.take_left]
  exact hmore more

/-- Tokens behind a list do not undo an occurrence at its start. -/
theorem match?_append {b b' : Bindings} {p : Pattern} {ts : List Token} {taken : Nat}
    (h : p.match? b ts = some (taken, b')) (more : List Token) :
    p.match? b (ts ++ more) = some (taken, b') := by
  have hmore := match?_take_append h (ts.drop taken ++ more)
  rwa [← List.append_assoc, List.take_append_drop] at hmore

/-- An occurrence in a longer list is one in the list, if it does not reach beyond its end. -/
theorem match?_of_append {b b' : Bindings} {p : Pattern} {ts more : List Token} {taken : Nat}
    (h : p.match? b (ts ++ more) = some (taken, b')) (hle : taken ≤ ts.length) :
    p.match? b ts = some (taken, b') := by
  have hinside := match?_take_append h (ts.drop taken)
  rwa [List.take_append_of_le_length hle, List.take_append_drop] at hinside

theorem match?_eq_none_of_append {b : Bindings} {p : Pattern} {ts more : List Token}
    (h : p.match? b (ts ++ more) = none) : p.match? b ts = none := by
  cases hm : p.match? b ts with
  | none => rfl
  | some result =>
    rw [match?_append hm more] at h
    exact absurd h (by simp)

/-- An occurrence takes a token. -/
theorem match?_pos {b b' : Bindings} {p : Pattern} {ts : List Token} {taken : Nat}
    (h : p.match? b ts = some (taken, b')) : 0 < taken := by
  obtain ⟨_, _, _, _, hpos, _⟩ := match?_split h
  exact hpos

/-- An occurrence takes a token for each item at least. -/
theorem length_items_le_of_match? {b b' : Bindings} {p : Pattern} {ts : List Token} {taken : Nat}
    (h : p.match? b ts = some (taken, b')) : p.items.length ≤ taken := by
  obtain ⟨_, _, _, _, hle, _⟩ := Item.matchAll?_split h
  exact hle

/-- An occurrence takes tokens that are there. -/
theorem match?_le_length {b b' : Bindings} {p : Pattern} {ts : List Token} {taken : Nat}
    (h : p.match? b ts = some (taken, b')) : taken ≤ ts.length := by
  obtain ⟨used, rest, rfl, rfl, -, -⟩ := match?_split h
  rw [List.length_append]
  omega

@[simp] theorem match?_nil (b : Bindings) (p : Pattern) : p.match? b [] = none := by
  cases hm : p.match? b [] with
  | none => rfl
  | some result =>
    have hpos := match?_pos hm
    have hle := match?_le_length hm
    exact absurd (Nat.lt_of_lt_of_le hpos hle) (Nat.lt_irrefl 0)

end Pattern

end TokenEdit
