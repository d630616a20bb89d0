import TokenEdit.Proofs.Nesting
import TokenEdit.Proofs.Provenance
import TokenEdit.Proofs.TokenClass

/-!
# Rules without curly brackets

A rule without curly brackets, neither in its pattern nor in its template, and without captures of
whole expressions, neither takes curly brackets nor puts any in.  Its pattern takes tokens that it
names, none of them a bracket, and identifiers; and what it puts in are tokens of the template and
captures, which are identifiers again.

An identifier with the text of a bracket would spoil this.  No text is cut into such tokens, and a
run makes none.

* `Rule.CurlyFree`: such a rule.
* `Pattern.isDelimiter_or_identifier_of_match?`: what its pattern takes.
* `Scan.CurlyFree`: a state without such identifiers and without brackets in its bindings.
* `Scan.Traced.curlyFree`: a run leads from such states to such states, and its occurrences take
  and put in brackets in pairs, since they take and put in none.
-/

namespace TokenEdit

/-! ## Tokens -/

namespace Token

/-- A token with the text of a curly bracket, whatever its class. -/
def IsCurly (t : Token) : Prop :=
  t.text = ['{'] ∨ t.text = ['}']

instance : DecidablePred IsCurly := fun _ => inferInstanceAs (Decidable (_ ∨ _))

/-- The token is no identifier with the text of a curly bracket. -/
def Tame (t : Token) : Prop :=
  t.kind = .identifier → ¬ t.IsCurly

theorem not_isCurly_spaces (width : Nat) : ¬ (spaces width).IsCurly := by
  have hnot (c : Char) (hc : c ≠ ' ') : (spaces width).text ≠ [c] := fun htext =>
    hc (List.eq_of_mem_replicate (htext ▸ List.mem_singleton_self c))
  rintro (htext | htext)
  · exact hnot '{' (by decide) htext
  · exact hnot '}' (by decide) htext

/-- No identifier has the text of a bracket, where texts tell the classes. -/
theorem Classified.tame {t : Token} (h : t.Classified) : t.Tame := by
  intro hkind hcurly
  have hclass : t.kind = Kind.ofText t.text := h
  rcases hcurly with htext | htext
  all_goals
    rw [hkind, htext] at hclass
    exact absurd hclass (by decide)

end Token

/-- Tokens among which there is no curly bracket have their brackets in pairs. -/
theorem balanced_of_isDelimiter {ts : List Token}
    (h : ∀ t ∈ ts, t.IsCurly → t.isDelimiter = true) : Balanced ts := by
  refine nested_and_closed_iff.2 ?_
  induction ts with
  | nil => rfl
  | cons t ts ih =>
    obtain ⟨ht, hts⟩ := List.forall_mem_cons.1 h
    cases hdelimiter : t.isDelimiter with
    | true => rw [openAfter?_cons_of_isDelimiter hdelimiter, ih hts]
    | false =>
      have hcurly : ¬ t.IsCurly := fun hcurly => absurd (ht hcurly) (by simp [hdelimiter])
      obtain ⟨hopen, hclose⟩ := not_or.1 hcurly
      have hdepth : Scan.depthAfter 0 t.text = some 0 := by
        rw [Scan.depthAfter, if_neg hopen, if_neg hclose]
      rw [openAfter?_cons_of_significant hdelimiter, hdepth, Option.bind_some, ih hts]

/-! ## Patterns -/

namespace Item

/-- An item that can take no curly bracket: it names another token, or it takes an identifier. -/
def CurlyFree : Item → Prop
  | literal t => ¬ t.IsCurly
  | ident _ => True
  | expr _ _ => False

instance : DecidablePred CurlyFree
  | literal t => inferInstanceAs (Decidable (¬ t.IsCurly))
  | ident _ => .isTrue trivial
  | expr _ _ => .isFalse id

/-- What an item without brackets takes, and what it captures. -/
theorem isDelimiter_or_identifier_of_read? {item : Item} (hitem : item.CurlyFree)
    {ts : List Token} {taken : Nat} {captures : List Capture}
    (h : item.read? ts = some (taken, captures)) :
    (∀ t ∈ ts.take taken, t.IsCurly → t.isDelimiter = true ∨ t.kind = .identifier) ∧
      ∀ c ∈ captures, ∀ t ∈ c.span, t.kind = .identifier := by
  obtain ⟨front, here, n, rfl, hfront, hhere, htake⟩ := exists_readHere?_of_read? h
  rw [htake]
  cases here with
  | nil => exact absurd hhere (by simp [readHere?])
  | cons t here =>
    have hused (ht : t.IsCurly → t.kind = .identifier) :
        ∀ t' ∈ front ++ [t], t'.IsCurly → t'.isDelimiter = true ∨ t'.kind = .identifier :=
      List.forall_mem_append.2 ⟨fun t' ht' _ => .inl (hfront t' ht'),
        List.forall_mem_singleton.2 fun hcurly => .inr (ht hcurly)⟩
    cases item with
    | literal l =>
      simp only [readHere?, Option.ite_none_right_eq_some, Option.some.injEq,
        Prod.mk.injEq] at hhere
      obtain ⟨htext, rfl, rfl⟩ := hhere
      refine ⟨hused fun hcurly => absurd ?_ hitem, List.forall_mem_nil _⟩
      rwa [Token.IsCurly, ← htext]
    | ident name =>
      simp only [readHere?, Option.ite_none_right_eq_some, Option.some.injEq,
        Prod.mk.injEq] at hhere
      obtain ⟨hkind, rfl, rfl⟩ := hhere
      exact ⟨hused fun _ => hkind,
        List.forall_mem_singleton.2 (List.forall_mem_singleton.2 hkind)⟩
    | expr name terminator => exact absurd hitem id

theorem isDelimiter_or_identifier_of_readAll? {items : List Item}
    (hitems : ∀ item ∈ items, item.CurlyFree) {ts : List Token} {taken : Nat}
    {captures : List Capture} (h : readAll? items ts = some (taken, captures)) :
    (∀ t ∈ ts.take taken, t.IsCurly → t.isDelimiter = true ∨ t.kind = .identifier) ∧
      ∀ c ∈ captures, ∀ t ∈ c.span, t.kind = .identifier := by
  induction items generalizing ts taken captures with
  | nil =>
    obtain ⟨rfl, rfl⟩ := Prod.mk.inj (Option.some.inj h)
    exact ⟨List.forall_mem_nil _, List.forall_mem_nil _⟩
  | cons item items ih =>
    obtain ⟨hitem, hitems⟩ := List.forall_mem_cons.1 hitems
    obtain ⟨n, first, more, behind, hfirst, hmore, rfl, rfl⟩ := readAll?_cons_eq_some_iff.1 h
    obtain ⟨hused, hcaptured⟩ := isDelimiter_or_identifier_of_read? hitem hfirst
    obtain ⟨hused', hcaptured'⟩ := ih hitems hmore
    rw [List.take_add]
    exact ⟨List.forall_mem_append.2 ⟨hused, hused'⟩,
      List.forall_mem_append.2 ⟨hcaptured, hcaptured'⟩⟩

end Item

/-- A rule without curly brackets and without captures of whole expressions. -/
structure Rule.CurlyFree (r : Rule) : Prop where
  items : ∀ item ∈ r.pattern.items, item.CurlyFree
  tokens : ∀ t ∈ r.template.tokens, ¬ t.IsCurly

instance : DecidablePred Rule.CurlyFree := fun r =>
  decidable_of_iff
    ((∀ item ∈ r.pattern.items, item.CurlyFree) ∧ ∀ t ∈ r.template.tokens, ¬ t.IsCurly)
    ⟨fun h => ⟨h.1, h.2⟩, fun h => ⟨h.items, h.tokens⟩⟩

namespace Pattern

variable {p : Pattern} {b b' : Bindings} {ts : List Token} {taken : Nat}

/-- Of the tokens with the text of a bracket, an occurrence takes delimiters and identifiers
only. -/
theorem isDelimiter_or_identifier_of_match? (hp : ∀ item ∈ p.items, item.CurlyFree)
    (h : p.match? b ts = some (taken, b')) :
    ∀ t ∈ ts.take taken, t.IsCurly → t.isDelimiter = true ∨ t.kind = .identifier := by
  obtain ⟨captures, hread, -⟩ := match?_eq_some_iff.1 h
  exact (Item.isDelimiter_or_identifier_of_readAll? hp hread).1

/-- An occurrence binds identifiers, which are no brackets. -/
theorem not_isCurly_of_match? (hp : ∀ item ∈ p.items, item.CurlyFree) (hts : ∀ t ∈ ts, t.Tame)
    (hb : b.All fun t => ¬ t.IsCurly) (h : p.match? b ts = some (taken, b')) :
    b'.All fun t => ¬ t.IsCurly := by
  obtain ⟨captures, hread, hbind⟩ := match?_eq_some_iff.1 h
  refine hb.of_bindAll? (fun c hc t ht => ?_) hbind
  have hkind := (Item.isDelimiter_or_identifier_of_readAll? hp hread).2 c hc t ht
  exact hts t (span_subset_of_read? hread c hc ht) hkind

end Pattern

/-! ## Runs -/

namespace Scan

/-- A state in which no identifier has the text of a curly bracket and no name stands for
brackets. -/
structure CurlyFree (s : Scan) : Prop where
  tame : s.All Token.Tame
  bindings : s.bindings.All fun t => ¬ t.IsCurly

namespace CurlyFree

variable {s u : Scan} {t : Token} {ts : List Token}

theorem start {b : Bindings} (hb : b.All fun t => ¬ t.IsCurly) (hts : ∀ t ∈ ts, t.Tame)
    (events : List Event) : (Scan.start b events ts).CurlyFree where
  tame := by
    have hbindings : b.All Token.Tame := fun entry hentry t ht _ => hb entry hentry t ht
    exact all_start hbindings hts events
  bindings := hb

theorem copyDelimiter (h : s.CurlyFree) (hrest : s.rest = t :: ts) :
    (s.copyDelimiter t ts).CurlyFree :=
  ⟨h.tame.copyDelimiter hrest, h.bindings⟩

theorem copySignificant (h : s.CurlyFree) (hrest : s.rest = t :: ts) (depth : Nat) :
    (s.copySignificant t ts depth).CurlyFree :=
  ⟨h.tame.copySignificant hrest depth, h.bindings⟩

theorem inner (h : s.CurlyFree) (f : Rule) : (s.inner f).CurlyFree :=
  ⟨h.tame.inner f, h.bindings⟩

theorem resume (h : s.CurlyFree) (hu : u.CurlyFree) : (s.resume u).CurlyFree :=
  ⟨h.tame.resume hu.tame, h.bindings⟩

section Occurrence

variable {r : Rule} {taken : Nat} {b : Bindings}

theorem replace (h : s.CurlyFree) (hr : r.CurlyFree)
    (hm : r.pattern.match? s.bindings s.rest = some (taken, b)) (role : Role) :
    (s.replace role r taken b).CurlyFree where
  tame := h.tame.replace (fun width _ _ => Token.not_isCurly_spaces width)
    (fun t ht _ => hr.tokens t ht) hm role
  bindings := Pattern.not_isCurly_of_match? hr.items h.tame.rest h.bindings hm

theorem balanced_used (h : s.CurlyFree) (hr : r.CurlyFree)
    (hm : r.pattern.match? s.bindings s.rest = some (taken, b)) :
    Balanced (s.rest.take taken) := by
  refine balanced_of_isDelimiter fun t ht hcurly => ?_
  have htame := h.tame.rest t (List.mem_of_mem_take ht)
  exact (Pattern.isDelimiter_or_identifier_of_match? hr.items hm t ht hcurly).resolve_right
    fun hkind => htame hkind hcurly

theorem balanced_put (h : s.CurlyFree) (hr : r.CurlyFree)
    (hm : r.pattern.match? s.bindings s.rest = some (taken, b)) (indent : Nat) :
    Balanced (r.template.expand b indent) := by
  have hb := Pattern.not_isCurly_of_match? hr.items h.tame.rest h.bindings hm
  have hput := Template.all_expand (fun width _ => Token.not_isCurly_spaces width) hb hr.tokens
    indent
  exact balanced_of_isDelimiter fun t ht hcurly => absurd hcurly (hput t ht)

end Occurrence

end CurlyFree

/-- **Rules without brackets leave brackets alone**: their occurrences take and put in brackets in
pairs, and no run of them leads to an identifier or a binding with a bracket. -/
theorem Traced.curlyFree {w : Work} {s u : Scan} {os : List Occurrence} (h : Traced w s os u)
    (hw : w.Everywhere Rule.CurlyFree) (hs : s.CurlyFree) :
    u.CurlyFree ∧ ∀ o ∈ os, Balanced o.used ∧ Balanced o.put := by
  induction h with
  | finish | stop | done => exact ⟨hs, List.forall_mem_nil _⟩
  | delimiter hrest _ _ ih => exact ih hw (hs.copyDelimiter hrest)
  | significant hrest _ _ _ _ ih => exact ih hw (hs.copySignificant hrest _)
  | @occurrence role r s _ _ _ _ _ _ _ _ _ _ hm _ _ ihFollow ihNext =>
    obtain ⟨hu, hfollow⟩ :=
      ihFollow (fun f hf => Rule.Everywhere.followUp hw hf) (hs.replace hw.1 hm role)
    obtain ⟨hv, hnext⟩ := ihNext hw hu
    refine ⟨hv, List.forall_mem_cons.2 ⟨⟨hs.balanced_used hw.1 hm, ?_⟩,
      List.forall_mem_append.2 ⟨hfollow, hnext⟩⟩⟩
    exact hs.balanced_put hw.1 hm s.column
  | @followUp f _ _ _ _ _ _ _ _ ihInner ihNext =>
    obtain ⟨hu, hinner⟩ := ihInner (hw f List.mem_cons_self) (hs.inner f)
    obtain ⟨hv, hnext⟩ :=
      ihNext (fun g hg => hw g (List.mem_cons_of_mem f hg)) (hs.resume hu)
    exact ⟨hv, List.forall_mem_append.2 ⟨hinner, hnext⟩⟩

end Scan

end TokenEdit
