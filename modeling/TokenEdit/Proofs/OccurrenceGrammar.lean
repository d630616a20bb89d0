import Mathlib.Data.List.Forall2
import TokenEdit.Proofs.Agreement
import TokenEdit.Proofs.MaximalMunch
import TokenEdit.Proofs.SpanGrammar

/-!
# Occurrences by a grammar

An attempt at a pattern takes the first tokens that fit, item by item, and never gives them back.
One would think that it misses occurrences in this way.  It does not, because there is never a
second choice.  Seen from the outside, the tokens of an occurrence are cut into shares, one for each
item: some delimiters, and behind them the token of a literal, an identifier, or a span with its
terminator.  The delimiters end at the first token that is none, and a span ends at its first
unprotected terminator; so the shares of a list are determined by the list, and where they exist
the attempt finds them.

What remains is the condition on names.  The spans under one name have the same significant texts,
and the name stands for the first of them.

* `Item.Takes`: the share of an item.
* `Pattern.Covers`: the shares of a pattern, at the start of a list.
* `Item.readAll?_eq_some_iff`: reading finds the shares.
* `Item.takes_unique`, `Item.takeAll_unique`: there are no others.
* `Pattern.attempt_complete_for_grammar`: all together.
-/

namespace TokenEdit

/-! ## Shares -/

/-- What an item takes behind the delimiters: a token, or a span with the token that ends it. -/
inductive Core where
  | single (t : Token)
  | spanned (span : Span) (terminator : Token)
  deriving DecidableEq

namespace Core

def tokens : Core → List Token
  | single t => [t]
  | spanned span terminator => span.tokens ++ [terminator]

/-- What is captured, if something is. -/
def captured : Core → List Token
  | single t => [t]
  | spanned span _ => span.tokens

theorem tokens_ne_nil (core : Core) : core.tokens ≠ [] := by
  cases core <;> simp [tokens]

end Core

/-- What an item takes: delimiters, and what stands behind them. -/
structure Share where
  front : List Token
  core : Core
  deriving DecidableEq

/-- The tokens of a share, in order. -/
def Share.tokens (share : Share) : List Token :=
  share.front ++ share.core.tokens

namespace Item

/-- What an item stands for.  A literal is compared by its text, and so is a terminator; an
identifier is told by its kind. -/
def Fits : Item → Core → Prop
  | literal l, .single t => t.text = l.text
  | ident _, .single t => t.kind = .identifier
  | expr _ terminator, .spanned span t => span.UpTo terminator.text ∧ t.text = terminator.text
  | _, _ => False

instance : ∀ (item : Item) (core : Core), Decidable (item.Fits core)
  | literal _, .single _ => inferInstanceAs (Decidable (_ = _))
  | ident _, .single _ => inferInstanceAs (Decidable (_ = _))
  | expr _ _, .spanned _ _ => inferInstanceAs (Decidable (_ ∧ _))
  | literal _, .spanned _ _ | ident _, .spanned _ _ | expr _ _, .single _ =>
    inferInstanceAs (Decidable False)

/-- **The share of an item**: any delimiters, and what the item stands for, which does not start
with a delimiter. -/
structure Takes (item : Item) (share : Share) : Prop where
  front : ∀ t ∈ share.front, t.isDelimiter = true
  head : ∀ t ∈ share.core.tokens.head?, t.isDelimiter = false
  fits : item.Fits share.core

/-- The capture of an item that takes a share. -/
def capturesOf (item : Item) (share : Share) : List Capture :=
  (item.captureName?.map fun name => ⟨name, share.core.captured⟩).toList

/-- The captures of items that take one share each, in order. -/
def capturesOfAll (items : List Item) (shares : List Share) : List Capture :=
  (List.zipWith capturesOf items shares).flatten

/-! ## Reading finds the shares -/

theorem readHere?_expr (name : List Char) (terminator : Token) (ts : List Token) :
    (expr name terminator).readHere? ts = (spanLength? terminator.text ts).map fun length =>
      (length + 1, [⟨name, ts.take length⟩]) := by
  cases ts <;> rfl

theorem readHere?_eq_some_iff {item : Item} {ts : List Token} {n : Nat}
    {captures : List Capture} :
    item.readHere? ts = some (n, captures) ↔ ∃ core rest, ts = core.tokens ++ rest ∧
      item.Fits core ∧ n = core.tokens.length ∧ captures = item.capturesOf ⟨[], core⟩ := by
  cases item with
  | literal _ | ident _ =>
    constructor
    · intro h
      cases ts with
      | nil => simp [readHere?] at h
      | cons t ts =>
        simp only [readHere?, Option.ite_none_right_eq_some, Option.some.injEq,
          Prod.mk.injEq] at h
        obtain ⟨ht, rfl, rfl⟩ := h
        exact ⟨.single t, ts, rfl, ht, rfl, rfl⟩
    · rintro ⟨core, rest, rfl, hfits, rfl, rfl⟩
      cases core with
      | single t => exact if_pos hfits
      | spanned span t => exact hfits.elim
  | expr name terminator =>
    rw [readHere?_expr, Option.map_eq_some_iff]
    constructor
    · rintro ⟨length, hlength, heq⟩
      obtain ⟨rfl, rfl⟩ := Prod.mk.inj heq
      obtain ⟨span, t, rest, rfl, hspan, ht, rfl⟩ := spanLength?_eq_some_iff.1 hlength
      refine ⟨.spanned span t, rest, ?_, ⟨hspan, ht⟩, ?_, ?_⟩
      · rw [Core.tokens, List.append_assoc, List.singleton_append]
      · rw [Core.tokens, List.length_append, List.length_singleton]
      · rw [List.take_left]
        rfl
    · rintro ⟨core, rest, rfl, hfits, rfl, rfl⟩
      cases core with
      | single t => exact hfits.elim
      | spanned span t =>
        obtain ⟨hspan, ht⟩ := hfits
        have htokens : (Core.spanned span t).tokens ++ rest = span.tokens ++ t :: rest := by
          rw [Core.tokens, List.append_assoc, List.singleton_append]
        refine ⟨span.tokens.length, spanLength?_eq_some_iff.2
          ⟨span, t, rest, htokens, hspan, ht, rfl⟩, ?_⟩
        rw [htokens, List.take_left, Core.tokens, List.length_append, List.length_singleton]
        rfl

/-- Behind the delimiters that a list starts with there is no further one. -/
theorem isDelimiter_of_head?_dropWhile (ts : List Token) :
    ∀ t ∈ (ts.dropWhile Token.isDelimiter).head?, t.isDelimiter = false := by
  intro t ht
  have hnot := List.head?_dropWhile_not Token.isDelimiter ts
  rw [Option.mem_def.1 ht] at hnot
  simpa using hnot

/-- The tokens of a share, in front of others: its delimiters are all that the list starts with. -/
theorem Takes.takeWhile_eq {item : Item} {share : Share} (h : item.Takes share)
    (rest : List Token) :
    (share.tokens ++ rest).takeWhile Token.isDelimiter = share.front ∧
      (share.tokens ++ rest).dropWhile Token.isDelimiter = share.core.tokens ++ rest := by
  have hfront : ∀ t ∈ (share.tokens ++ rest).takeWhile Token.isDelimiter, t.isDelimiter = true :=
    List.all_eq_true.1 List.all_takeWhile
  refine eq_of_append_eq_append hfront h.front ?_ ?_ ?_
  · intro t ht
    exact Bool.not_eq_true _ ▸ isDelimiter_of_head?_dropWhile _ t ht
  · rw [List.head?_append_of_ne_nil _ share.core.tokens_ne_nil]
    intro t ht
    exact Bool.not_eq_true _ ▸ h.head t ht
  · rw [List.takeWhile_append_dropWhile, Share.tokens, List.append_assoc]

theorem read?_eq_some_iff {item : Item} {ts : List Token} {n : Nat} {captures : List Capture} :
    item.read? ts = some (n, captures) ↔ ∃ share rest, ts = share.tokens ++ rest ∧
      item.Takes share ∧ n = share.tokens.length ∧ captures = item.capturesOf share := by
  rw [read?, Option.map_eq_some_iff]
  constructor
  · rintro ⟨⟨n', captures'⟩, hhere, heq⟩
    obtain ⟨rfl, rfl⟩ := Prod.mk.inj heq
    obtain ⟨core, rest, hcore, hfits, rfl, rfl⟩ := readHere?_eq_some_iff.1 hhere
    have hhead : ∀ t ∈ core.tokens.head?, t.isDelimiter = false := by
      have hbehind := isDelimiter_of_head?_dropWhile ts
      rwa [hcore, List.head?_append_of_ne_nil _ core.tokens_ne_nil] at hbehind
    refine ⟨⟨ts.takeWhile Token.isDelimiter, core⟩, rest, ?_,
      ⟨List.all_eq_true.1 List.all_takeWhile, hhead, hfits⟩, ?_, rfl⟩
    · rw [Share.tokens, List.append_assoc, ← hcore, List.takeWhile_append_dropWhile]
    · rw [Share.tokens, List.length_append]
  · rintro ⟨share, rest, rfl, htakes, rfl, rfl⟩
    obtain ⟨hfront, hcore⟩ := htakes.takeWhile_eq rest
    refine ⟨(share.core.tokens.length, item.capturesOf share), ?_, ?_⟩
    · rw [hcore]
      exact readHere?_eq_some_iff.2 ⟨share.core, rest, rfl, htakes.fits, rfl, rfl⟩
    · rw [hfront, Share.tokens, List.length_append]

/-- **Reading finds the shares**: items can be read one behind the other where the tokens are cut
into shares. -/
theorem readAll?_eq_some_iff {items : List Item} {ts : List Token} {n : Nat}
    {captures : List Capture} :
    readAll? items ts = some (n, captures) ↔ ∃ shares rest,
      ts = shares.flatMap Share.tokens ++ rest ∧ List.Forall₂ Takes items shares ∧
        n = (shares.flatMap Share.tokens).length ∧ captures = capturesOfAll items shares := by
  induction items generalizing ts n captures with
  | nil =>
    constructor
    · intro h
      obtain ⟨rfl, rfl⟩ := Prod.mk.inj (Option.some.inj h)
      exact ⟨[], ts, rfl, .nil, rfl, rfl⟩
    · rintro ⟨shares, rest, -, hshares, rfl, rfl⟩
      cases hshares
      rfl
  | cons item items ih =>
    rw [readAll?_cons_eq_some_iff]
    constructor
    · rintro ⟨taken, first, more, behind, hfirst, hmore, rfl, rfl⟩
      obtain ⟨share, rest, rfl, htakes, rfl, rfl⟩ := read?_eq_some_iff.1 hfirst
      rw [List.drop_left] at hmore
      obtain ⟨shares, rest, rfl, hshares, rfl, rfl⟩ := ih.1 hmore
      refine ⟨share :: shares, rest, ?_, .cons htakes hshares, ?_, rfl⟩
      · rw [List.flatMap_cons, List.append_assoc]
      · rw [List.flatMap_cons, List.length_append]
    · rintro ⟨shares, rest, rfl, hshares, rfl, rfl⟩
      cases hshares with
      | @cons _ share _ shares htakes hshares =>
        rw [List.flatMap_cons, List.append_assoc, List.length_append]
        refine ⟨share.tokens.length, item.capturesOf share, _, _,
          read?_eq_some_iff.2 ⟨share, _, rfl, htakes, rfl, rfl⟩, ?_, rfl, rfl⟩
        rw [List.drop_left]
        exact ih.2 ⟨shares, rest, rfl, hshares, rfl, rfl⟩

/-! ## There are no other shares -/

/-- What an item stands for is determined by the tokens. -/
theorem fits_unique {item : Item} {core core' : Core} {rest rest' : List Token}
    (h : item.Fits core) (h' : item.Fits core')
    (heq : core.tokens ++ rest = core'.tokens ++ rest') : core = core' ∧ rest = rest' := by
  cases item with
  | literal _ | ident _ =>
    cases core with
    | spanned => exact h.elim
    | single t =>
      cases core' with
      | spanned => exact h'.elim
      | single t' =>
        obtain ⟨rfl, rfl⟩ := List.cons.inj heq
        exact ⟨rfl, rfl⟩
  | expr name terminator =>
    cases core with
    | single => exact h.elim
    | spanned span t =>
      cases core' with
      | single => exact h'.elim
      | spanned span' t' =>
        rw [Core.tokens, Core.tokens, List.append_assoc, List.append_assoc] at heq
        obtain ⟨rfl, rfl, rfl⟩ := h.1.unique h'.1 h.2 h'.2 heq
        exact ⟨rfl, rfl⟩

theorem takes_unique {item : Item} {share share' : Share} {rest rest' : List Token}
    (h : item.Takes share) (h' : item.Takes share')
    (heq : share.tokens ++ rest = share'.tokens ++ rest') : share = share' ∧ rest = rest' := by
  obtain ⟨hfront, hcore⟩ := h.takeWhile_eq rest
  obtain ⟨hfront', hcore'⟩ := h'.takeWhile_eq rest'
  rw [heq] at hfront hcore
  obtain ⟨hcores, hrest⟩ := fits_unique h.fits h'.fits (hcore.symm.trans hcore')
  exact ⟨(Share.mk.injEq ..).mpr ⟨hfront.symm.trans hfront', hcores⟩, hrest⟩

/-- **A list starts with the shares of items in one way at most.** -/
theorem takeAll_unique {items : List Item} {shares shares' : List Share}
    {rest rest' : List Token} (h : List.Forall₂ Takes items shares)
    (h' : List.Forall₂ Takes items shares')
    (heq : shares.flatMap Share.tokens ++ rest = shares'.flatMap Share.tokens ++ rest') :
    shares = shares' := by
  induction h generalizing shares' with
  | nil =>
    cases h'
    rfl
  | cons htakes _ ih =>
    cases h' with
    | cons htakes' hshares' =>
      rw [List.flatMap_cons, List.flatMap_cons, List.append_assoc, List.append_assoc] at heq
      obtain ⟨rfl, hbehind⟩ := takes_unique htakes htakes' heq
      rw [ih hshares' hbehind]

end Item

/-! ## Patterns -/

namespace Pattern

/-- The first `n` tokens of a list, cut into shares, one for each item of the pattern. -/
structure Covers (p : Pattern) (ts : List Token) (n : Nat) (shares : List Share) : Prop where
  le_length : n ≤ ts.length
  takes : List.Forall₂ Item.Takes p.items shares
  tokens_eq : shares.flatMap Share.tokens = ts.take n

theorem Covers.length_eq {p : Pattern} {ts : List Token} {n : Nat} {shares : List Share}
    (h : p.Covers ts n shares) : (shares.flatMap Share.tokens).length = n := by
  rw [h.tokens_eq, List.length_take, Nat.min_eq_left h.le_length]

theorem read?_eq_some_iff_covers {p : Pattern} {ts : List Token} {n : Nat}
    {captures : List Capture} :
    p.read? ts = some (n, captures) ↔
      ∃ shares, p.Covers ts n shares ∧ captures = Item.capturesOfAll p.items shares := by
  rw [read?, Item.readAll?_eq_some_iff]
  constructor
  · rintro ⟨shares, rest, rfl, htakes, rfl, hcaptures⟩
    refine ⟨shares, ⟨?_, htakes, (List.take_left ..).symm⟩, hcaptures⟩
    rw [List.length_append]
    exact Nat.le_add_right _ _
  · rintro ⟨shares, hcovers, hcaptures⟩
    refine ⟨shares, ts.drop n, ?_, hcovers.takes, ?_, hcaptures⟩
    · rw [hcovers.tokens_eq, List.take_append_drop]
    · exact hcovers.length_eq.symm

/-- The shares of a pattern at the start of a list do not depend on how far they are known to
reach. -/
theorem Covers.unique {p : Pattern} {ts : List Token} {n n' : Nat} {shares shares' : List Share}
    (h : p.Covers ts n shares) (h' : p.Covers ts n' shares') : shares = shares' := by
  have heq : shares.flatMap Share.tokens ++ ts.drop n =
      shares'.flatMap Share.tokens ++ ts.drop n' := by
    rw [h.tokens_eq, h'.tokens_eq, List.take_append_drop, List.take_append_drop]
  exact Item.takeAll_unique h.takes h'.takes heq

/-- **Matching without second thoughts is complete for its grammar.**

From empty bindings, a pattern occurs at the start of a list and takes `n` tokens if and only if
the first `n` tokens can be cut into shares of its items such that the spans captured under one name
have the same significant texts; the bindings are then those in which each name stands for the very
tokens of its first span, and which were made in the order of first appearance.

The shares are unique, with the regions in their spans, also among shares of another number of
tokens.  An occurrence takes at least a token for each item and no more tokens than there are, and
what is found depends on the tokens taken and on no others. -/
theorem attempt_complete_for_grammar (p : Pattern) (ts : List Token) :
    (∀ (n : Nat) (b : Bindings), p.attempt .empty ts = (some n, b) ↔
      ∃ shares, p.Covers ts n shares ∧ Capture.Agree (Item.capturesOfAll p.items shares) ∧
        b = .ofFirst (Item.capturesOfAll p.items shares)) ∧
    (∀ n n' shares shares', p.Covers ts n shares → p.Covers ts n' shares' →
      n = n' ∧ shares = shares') ∧
    ∀ (n : Nat) (b : Bindings), p.attempt .empty ts = (some n, b) →
      (∀ shares, p.Covers ts n shares → ∀ x,
        b.get? x = Capture.first? (Item.capturesOfAll p.items shares) x) ∧
      p.items.length ≤ n ∧ n ≤ ts.length ∧
      ∀ ts', ts'.take n = ts.take n → p.attempt .empty ts' = (some n, b) := by
  have hiff : ∀ (n : Nat) (b : Bindings), p.attempt .empty ts = (some n, b) ↔
      ∃ shares, p.Covers ts n shares ∧
        Bindings.empty.bindAll? (Item.capturesOfAll p.items shares) = some b := by
    intro n b
    rw [attempt_eq_some_iff, match?_eq_some_iff]
    constructor
    · rintro ⟨captures, hread, hbind⟩
      obtain ⟨shares, hcovers, rfl⟩ := read?_eq_some_iff_covers.1 hread
      exact ⟨shares, hcovers, hbind⟩
    · rintro ⟨shares, hcovers, hbind⟩
      exact ⟨_, read?_eq_some_iff_covers.2 ⟨shares, hcovers, rfl⟩, hbind⟩
  refine ⟨fun n b => ?_, fun n n' shares shares' h h' => ?_, fun n b h => ?_⟩
  · simp only [hiff, Bindings.bindAll?_empty_eq_some_iff]
  · have hshares := h.unique h'
    refine ⟨?_, hshares⟩
    rw [← h.length_eq, ← h'.length_eq, hshares]
  · obtain ⟨shares, hcovers, hbind⟩ := (hiff n b).1 h
    have hm := attempt_eq_some_iff.1 h
    refine ⟨fun shares' hcovers' x => ?_, length_items_le_of_match? hm, match?_le_length hm,
      fun ts' hts' => ?_⟩
    · rw [hcovers'.unique hcovers, Bindings.get?_eq_of_bindAll? hbind, Bindings.get?_empty,
        Option.none_or]
    · refine attempt_of_match?_eq_some ?_
      have happend := match?_take_append hm (ts'.drop n)
      rwa [← hts', List.take_append_drop] at happend

/-- A call with the same argument twice, up to layout.  The comma and the closing bracket inside the
argument are protected, and the blank in front of the second argument is not captured. -/
theorem protected_arguments_found :
    let word (c : Char) : Token := ⟨.identifier, [c]⟩
    let other (c : Char) : Token := ⟨.other, [c]⟩
    let bracket (c : Char) : Token := ⟨.bracket, [c]⟩
    let blank : Token := ⟨.whitespace, [' ']⟩
    let p : Pattern := ⟨[.literal (word 'f'), .literal (bracket '('), .expr ['e'] (other ','),
      .expr ['e'] (bracket ')')], List.cons_ne_nil _ _⟩
    let inside : Span := .token (word 'a') (.token (other ',') (.token (bracket ')') .nil))
    let first : Span := .region (bracket '{') inside (bracket '}') (.token blank
      (.token (word 'b') .nil))
    let second : Span := .region (bracket '{') (.token blank inside) (bracket '}')
      (.token ⟨.blockComment, "/**/".toList⟩ (.token (word 'b') .nil))
    let shares : List Share := [⟨[], .single (word 'f')⟩, ⟨[blank], .single (bracket '(')⟩,
      ⟨[], .spanned first (other ',')⟩, ⟨[blank], .spanned second (bracket ')')⟩]
    let ts := tokenize (("f (".toList ++ '{' :: "a,)".toList ++ '}' :: " b, ".toList) ++
      ('{' :: " a,)".toList ++ '}' :: "/**/b) c".toList))
    p.Covers ts 21 shares ∧ (∀ n shares', p.Covers ts n shares' → shares' = shares) ∧
      ∃ b, p.attempt .empty ts = (some 21, b) ∧ b.get? ['e'] = some first.tokens ∧
        p.attempt .empty (ts.take 21) = (some 21, b) := by
  intro word other bracket blank p inside first second shares ts
  obtain ⟨hiff, hunique, hfound⟩ := attempt_complete_for_grammar p ts
  have hcovers : p.Covers ts 21 shares := by
    refine ⟨by decide +kernel, ?_, by decide +kernel⟩
    refine .cons ⟨?_, ?_, ?_⟩ (.cons ⟨?_, ?_, ?_⟩ (.cons ⟨?_, ?_, ?_⟩ (.cons ⟨?_, ?_, ?_⟩ .nil)))
    all_goals decide +kernel
  have hagree : Capture.Agree (Item.capturesOfAll p.items shares) := by
    unfold Capture.Agree
    decide +kernel
  have hattempt := (hiff 21 _).2 ⟨shares, hcovers, hagree, rfl⟩
  obtain ⟨hget, -, -, honly⟩ := hfound 21 _ hattempt
  refine ⟨hcovers, fun n shares' h => (hunique n 21 shares' shares h hcovers).2, _, hattempt, ?_,
    honly _ (List.take_take ..)⟩
  rw [hget shares hcovers]
  decide +kernel

end Pattern

end TokenEdit
