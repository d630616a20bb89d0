import TokenEdit.Proofs.Captures
import TokenEdit.Proofs.Trace

/-!
# Where tokens come from

A run makes no tokens of its own, but for the margins of new lines.  Every other token that it
reads, writes or binds was in the list at the start, in the bindings at the start, or in a
template of one of its rules.  So what holds of all those tokens, and of margins, holds of all
tokens at the end, and of all tokens that occurrences see on the way (`Scan.Traced.all`).

It makes no names either: every name that is bound was bound at the start, or a pattern of one of
the rules captures under it (`Scan.Traced.within`).
-/

namespace TokenEdit

variable {P : Token → Prop}

/-! ## Bindings -/

namespace Bindings

/-- All tokens that names stand for satisfy `P`. -/
def All (P : Token → Prop) (b : Bindings) : Prop :=
  ∀ entry ∈ b.entries, ∀ t ∈ entry.2, P t

theorem all_empty : empty.All P := by
  intro entry hentry
  exact absurd hentry (by simp [empty])

theorem All.of_bind? {b b' : Bindings} (hb : b.All P) {name : List Char} {span : List Token}
    (hspan : ∀ t ∈ span, P t) (h : b.bind? name span = some b') : b'.All P := by
  rcases bind?_eq_some_iff.1 h with ⟨-, rfl⟩ | ⟨_, -, -, rfl⟩
  · intro entry hentry
    rcases List.mem_cons.1 hentry with rfl | hentry
    · exact hspan
    · exact hb entry hentry
  · exact hb

theorem All.of_bindAll? {b b' : Bindings} (hb : b.All P) {captures : List Capture}
    (hspans : ∀ c ∈ captures, ∀ t ∈ c.span, P t) (h : b.bindAll? captures = some b') :
    b'.All P := by
  induction captures generalizing b with
  | nil => exact (Option.some.inj h :) ▸ hb
  | cons c captures ih =>
    obtain ⟨hspan, hspans⟩ := List.forall_mem_cons.1 hspans
    obtain ⟨b₁, hfirst, hmore⟩ := bindAll?_cons_eq_some_iff.1 h
    exact ih (hb.of_bind? hspan hfirst) hspans hmore

theorem All.get? {b : Bindings} (hb : b.All P) {name : List Char} {bound : List Token}
    (h : b.get? name = some bound) : ∀ t ∈ bound, P t := by
  obtain ⟨front, behind, hentries, -⟩ := List.lookup_eq_some_iff.1 h
  refine hb (name, bound) ?_
  rw [hentries]
  exact List.mem_append_right _ List.mem_cons_self

end Bindings

/-! ## Occurrences and templates -/

/-- The captures of an occurrence are tokens of the list. -/
theorem Pattern.all_of_match? {b b' : Bindings} (hb : b.All P) {p : Pattern} {ts : List Token}
    (hts : ∀ t ∈ ts, P t) {taken : Nat} (h : p.match? b ts = some (taken, b')) : b'.All P := by
  obtain ⟨captures, hread, hbind⟩ := match?_eq_some_iff.1 h
  exact hb.of_bindAll? (fun c hc t ht => hts t (span_subset_of_read? hread c hc ht)) hbind

/-- The tokens of an expanded template are captures, tokens of the template, and margins. -/
theorem Template.all_expand (hspaces : ∀ width, width ≠ 0 → P (Token.spaces width))
    {b : Bindings} (hb : b.All P) {template : Template} (ht : ∀ t ∈ template.tokens, P t)
    (indent : Nat) : ∀ t ∈ template.expand b indent, P t := by
  intro t hmem
  obtain ⟨t', ht', hmem⟩ := List.mem_flatMap.1 hmem
  rw [expandToken, List.mem_append] at hmem
  rcases hmem with hmem | hmem
  · cases hget : b.get? t'.text with
    | none =>
      rw [hget, Option.getD_none, List.mem_singleton] at hmem
      rw [hmem]
      exact ht t' ht'
    | some bound =>
      rw [hget, Option.getD_some] at hmem
      exact hb.get? hget t hmem
  · unfold margin at hmem
    split at hmem
    next hline =>
      rw [List.mem_singleton.1 hmem]
      exact hspaces indent hline.2
    · exact absurd hmem (by simp)

/-! ## Runs -/

namespace Scan

/-- All tokens in a scan satisfy `P`. -/
structure All (P : Token → Prop) (s : Scan) : Prop where
  written : ∀ t ∈ s.written, P t
  rest : ∀ t ∈ s.rest, P t
  bindings : s.bindings.All P

theorem All.tokens {s : Scan} (h : s.All P) : ∀ t ∈ s.tokens, P t := by
  intro t ht
  rcases List.mem_append.1 ht with ht | ht
  · exact h.written t (List.mem_reverse.1 ht)
  · exact h.rest t ht

theorem all_start {b : Bindings} (hb : b.All P) {ts : List Token} (hts : ∀ t ∈ ts, P t)
    (events : List Event) : (start b events ts).All P where
  written t ht := absurd ht (by simp [start])
  rest := hts
  bindings := hb

theorem All.copy {s : Scan} (h : s.All P) {t : Token} {ts : List Token} (hrest : s.rest = t :: ts) :
    (s.copy t ts).All P where
  written t' ht' := by
    rcases List.mem_cons.1 ht' with rfl | ht'
    · exact h.rest t' (by rw [hrest]; exact List.mem_cons_self)
    · exact h.written t' ht'
  rest t' ht' := h.rest t' (by rw [hrest]; exact List.mem_cons_of_mem t ht')
  bindings := h.bindings

theorem All.copyDelimiter {s : Scan} (h : s.All P) {t : Token} {ts : List Token}
    (hrest : s.rest = t :: ts) : (s.copyDelimiter t ts).All P :=
  ⟨(h.copy hrest).written, (h.copy hrest).rest, h.bindings⟩

theorem All.copySignificant {s : Scan} (h : s.All P) {t : Token} {ts : List Token}
    (hrest : s.rest = t :: ts) (depth : Nat) : (s.copySignificant t ts depth).All P :=
  ⟨(h.copy hrest).written, (h.copy hrest).rest, h.bindings⟩

theorem All.replace (hspaces : ∀ width, width ≠ 0 → P (Token.spaces width)) {s : Scan}
    (h : s.All P) {r : Rule} (ht : ∀ t ∈ r.template.tokens, P t) {taken : Nat} {b : Bindings}
    (hm : r.pattern.match? s.bindings s.rest = some (taken, b)) (role : Role) :
    (s.replace role r taken b).All P := by
  have hb : b.All P := Pattern.all_of_match? h.bindings h.rest hm
  refine ⟨fun t hmem => ?_, fun t hmem => h.rest t (List.mem_of_mem_drop hmem), hb⟩
  rcases List.mem_append.1 hmem with hmem | hmem
  · exact Template.all_expand hspaces hb ht s.column t (List.mem_reverse.1 hmem)
  · exact h.written t hmem

theorem All.inner {s : Scan} (h : s.All P) (f : Rule) : (s.inner f).All P :=
  all_start h.bindings h.rest _

theorem All.resume {s u : Scan} (h : s.All P) (hu : u.All P) : (s.resume u).All P :=
  ⟨h.written, hu.tokens, h.bindings⟩

/-- **A run makes no tokens**, but for margins: neither in its last state, nor in the states in
which it finds occurrences, nor in their captures. -/
theorem Traced.all (hspaces : ∀ width, width ≠ 0 → P (Token.spaces width)) {w : Work} {s u : Scan}
    {os : List Occurrence} (h : Traced w s os u)
    (hw : w.Everywhere fun r => ∀ t ∈ r.template.tokens, P t) (hs : s.All P) :
    u.All P ∧ ∀ o ∈ os, o.state.All P ∧ o.bindings.All P := by
  induction h with
  | finish | stop | done => exact ⟨hs, List.forall_mem_nil _⟩
  | delimiter hrest _ _ ih => exact ih hw (hs.copyDelimiter hrest)
  | significant hrest _ _ _ _ ih => exact ih hw (hs.copySignificant hrest _)
  | @occurrence role _ _ _ _ _ _ _ _ _ _ _ _ hm _ _ ihFollow ihNext =>
    have hreplaced := hs.replace hspaces hw.1 hm role
    obtain ⟨hu, hfollow⟩ := ihFollow (fun f hf => Rule.Everywhere.followUp hw hf) hreplaced
    obtain ⟨hv, hnext⟩ := ihNext hw hu
    exact ⟨hv, List.forall_mem_cons.2 ⟨⟨hs, hreplaced.bindings⟩,
      List.forall_mem_append.2 ⟨hfollow, hnext⟩⟩⟩
  | @followUp f _ _ _ _ _ _ _ _ ihInner ihNext =>
    obtain ⟨hu, hinner⟩ := ihInner (hw f List.mem_cons_self) (hs.inner f)
    obtain ⟨hv, hnext⟩ := ihNext (fun g hg => hw g (List.mem_cons_of_mem f hg)) (hs.resume hu)
    exact ⟨hv, List.forall_mem_append.2 ⟨hinner, hnext⟩⟩

theorem Runs.all (hspaces : ∀ width, width ≠ 0 → P (Token.spaces width)) {w : Work} {s u : Scan}
    (h : Runs w s u) (hw : w.Everywhere fun r => ∀ t ∈ r.template.tokens, P t) (hs : s.All P) :
    u.All P := by
  obtain ⟨os, hos⟩ := h
  exact (hos.all hspaces hw hs).1

/-! ## Names -/

/-- A run binds names of its rules and no other, at the end and behind every occurrence. -/
theorem Traced.within {names : List Char → Prop} {w : Work} {s u : Scan}
    {os : List Occurrence} (h : Traced w s os u)
    (hw : w.Everywhere fun r => ∀ x ∈ r.pattern.captureNames, names x)
    (hs : s.bindings.Within names) :
    u.bindings.Within names ∧ ∀ o ∈ os, o.bindings.Within names := by
  induction h with
  | finish | stop | done => exact ⟨hs, List.forall_mem_nil _⟩
  | delimiter _ _ _ ih | significant _ _ _ _ _ ih => exact ih hw hs
  | occurrence _ _ hm _ _ ihFollow ihNext =>
    have hb := Pattern.within_of_match? hw.1 hs hm
    obtain ⟨hu, hfollow⟩ := ihFollow (fun f hf => Rule.Everywhere.followUp hw hf) hb
    obtain ⟨hv, hnext⟩ := ihNext hw hu
    exact ⟨hv, List.forall_mem_cons.2 ⟨hb, List.forall_mem_append.2 ⟨hfollow, hnext⟩⟩⟩
  | @followUp f _ _ _ _ _ _ _ _ ihInner ihNext =>
    obtain ⟨-, hinner⟩ := ihInner (hw f List.mem_cons_self) hs
    obtain ⟨hv, hnext⟩ := ihNext (fun g hg => hw g (List.mem_cons_of_mem f hg)) hs
    exact ⟨hv, List.forall_mem_append.2 ⟨hinner, hnext⟩⟩

end Scan

end TokenEdit
