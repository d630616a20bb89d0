import TokenEdit.Proofs.Provenance

/-!
# Follow-ups that do not grow

A scan need not come to an end, because what its follow-ups write is read again by the scan that
they interrupt.  It does come to an end when they write no more than they take.  Then the list that
is not yet read has become shorter behind every occurrence, whatever the rule itself writes: that
is behind the scan and is not read again.

A follow-up writes no more than it takes if its template has at most as many tokens as its pattern
has items, since every item takes a token at least.  Two things could still make an expanded
template longer than the template.  A line that it starts is given a margin, and a token with the
text of a bound name is replaced by a capture.  So there are to be no new lines and no such tokens;
and since bindings are handed down, the names in question are those of the whole tree and those
bound at the start.

* `Rule.WritesNoMore`: what is asked of follow-ups.
* `Template.expand_eq_tokens`: their templates are written as they stand.
* `Scan.Runs.length_tokens_le`: no run of such rules leaves a longer list.
* `Scan.exists_runs_of_followUps`: a scan ends if its follow-ups do and leave no longer list.
* `Rule.apply_ends_of_short_followUps`: all together.
-/

namespace TokenEdit

/-! ## The rules -/

/-- The template has at most a token for each item of the pattern, starts no line, and has no token
with the text of a name of a certain kind. -/
structure Rule.WritesNoMore (names : List Char → Prop) (f : Rule) : Prop where
  length_le : f.template.tokens.length ≤ f.pattern.items.length
  kind_ne : ∀ t ∈ f.template.tokens, t.kind ≠ .newline
  not_name : ∀ t ∈ f.template.tokens, ¬ names t.text

/-- A rule that writes no more than it takes, and captures under names of a certain kind only. -/
structure Rule.NeverGrows (names : List Char → Prop) (f : Rule) : Prop
    extends f.WritesNoMore names where
  captureNames : ∀ x ∈ f.pattern.captureNames, names x

/-- A rule that writes no more than it takes goes on doing so under bindings that bind no text of
its template. -/
theorem Rule.WritesNoMore.neverGrows {names : List Char → Prop} {f : Rule}
    (h : f.WritesNoMore names) (hcaptureNames : ∀ x ∈ f.pattern.captureNames, names x)
    {b : Bindings} (hb : ∀ t ∈ f.template.tokens, b.get? t.text = none) :
    f.NeverGrows fun x => names x ∨ (b.get? x).isSome := by
  refine ⟨⟨h.length_le, h.kind_ne, ?_⟩, fun x hx => .inl (hcaptureNames x hx)⟩
  rintro t ht (hname | hbound)
  · exact h.not_name t ht hname
  · rw [hb t ht] at hbound
    exact absurd hbound (by simp)

/-- A template without new lines and without bound names is written as it stands. -/
theorem Template.expand_eq_tokens {b : Bindings} {template : Template}
    (hkind : ∀ t ∈ template.tokens, t.kind ≠ .newline)
    (hget : ∀ t ∈ template.tokens, b.get? t.text = none) (indent : Nat) :
    template.expand b indent = template.tokens := by
  have htoken : ∀ t ∈ template.tokens, expandToken b indent t = [t] := by
    intro t ht
    rw [expandToken, hget t ht, Option.getD_none, margin, if_neg fun h => hkind t ht h.1,
      List.append_nil]
  rw [expand, List.flatMap_def, List.map_congr_left htoken, ← List.flatMap_def,
    List.flatMap_singleton']

namespace Scan

variable {names : List Char → Prop}

/-! ## Lengths -/

theorem length_tokens (s : Scan) : s.tokens.length = s.written.length + s.rest.length := by
  rw [tokens, List.length_append, List.length_reverse]

/-- **One step**: replacing an occurrence does not make the list longer. -/
theorem length_tokens_replace_le {s : Scan} (hs : s.bindings.Within names) {r : Rule}
    (hr : r.NeverGrows names) {taken : Nat} {b : Bindings}
    (hm : r.pattern.match? s.bindings s.rest = some (taken, b)) (role : Role) :
    (s.replace role r taken b).tokens.length ≤ s.tokens.length := by
  have hget : ∀ t ∈ r.template.tokens, b.get? t.text = none := by
    intro t ht
    refine Option.not_isSome_iff_eq_none.1 fun hsome => hr.not_name t ht ?_
    exact Pattern.within_of_match? hr.captureNames hs hm t.text hsome
  have hwritten : (s.replace role r taken b).written.length =
      r.template.tokens.length + s.written.length := by
    rw [replace, List.length_append, List.length_reverse,
      Template.expand_eq_tokens hr.kind_ne hget]
  have hrest : (s.replace role r taken b).rest.length = s.rest.length - taken :=
    List.length_drop
  have hitems := Pattern.length_items_le_of_match? hm
  have htaken := Pattern.match?_le_length hm
  have htemplate := hr.length_le
  rw [length_tokens, length_tokens, hwritten, hrest]
  omega

/-- **No run of rules that write no more than they take leaves a longer list.** -/
theorem Runs.length_tokens_le {w : Work} {s u : Scan} (h : Runs w s u)
    (hw : w.Everywhere (Rule.NeverGrows names)) (hs : s.bindings.Within names) :
    u.tokens.length ≤ s.tokens.length := by
  obtain ⟨os, h⟩ := h
  induction h with
  | finish | stop | done => exact Nat.le_refl _
  | delimiter hrest _ _ ih | significant hrest _ _ _ _ ih =>
    refine Nat.le_trans (ih hw hs) (Nat.le_of_eq ?_)
    rw [length_tokens, length_tokens, hrest]
    exact Nat.add_right_comm _ 1 _
  | @occurrence role _ _ u _ _ _ _ _ _ b _ _ hm follow _ ihFollow ihNext =>
    have hb := Pattern.within_of_match? hw.1.captureNames hs hm
    have hu : u.bindings = b := follow.runs.bindings_of_followUps
    have hfollow := ihFollow (fun f hf => Rule.Everywhere.followUp hw hf) hb
    have hnext := ihNext hw (hu ▸ hb)
    exact Nat.le_trans hnext (Nat.le_trans hfollow (length_tokens_replace_le hs hw.1 hm role))
  | @followUp f _ s u _ _ _ _ _ ihInner ihNext =>
    have hinner : u.tokens.length ≤ s.rest.length := ihInner (hw f List.mem_cons_self) hs
    have hnext := ihNext (fun g hg => hw g (List.mem_cons_of_mem f hg)) hs
    have hresume : (s.resume u).tokens.length = s.written.length + u.tokens.length :=
      length_tokens _
    rw [length_tokens s]
    omega

/-- Follow-ups leave no more tokens to be read. -/
theorem Runs.length_rest_le {rules : List Rule} {s u : Scan} (h : Runs (.followUps rules) s u)
    (hrules : ∀ f ∈ rules, f.Everywhere (Rule.NeverGrows names))
    (hs : s.bindings.Within names) : u.rest.length ≤ s.rest.length := by
  have hle := h.length_tokens_le hrules hs
  have hwritten : u.written = s.written := by rw [h.eq_of_followUps]
  rw [length_tokens, length_tokens, hwritten] at hle
  omega

/-- Behind an occurrence and its follow-ups there is less to be read than in front of it. -/
theorem length_rest_lt_of_occurrence {r : Rule}
    (hfollowUps : ∀ f ∈ r.followUps, f.Everywhere (Rule.NeverGrows names)) {s u : Scan}
    {role : Role} {taken : Nat} {b : Bindings} (hb : b.Within names)
    (hm : r.pattern.match? s.bindings s.rest = some (taken, b))
    (hfollow : Runs (.followUps r.followUps) (s.replace role r taken b) u) :
    u.rest.length < s.rest.length := by
  have hle := hfollow.length_rest_le hfollowUps hb
  have hrest : (s.replace role r taken b).rest.length = s.rest.length - taken :=
    List.length_drop
  have hpos := Pattern.match?_pos hm
  have htaken := Pattern.match?_le_length hm
  omega

/-! ## The end of a run -/

/-- **A scan ends if the follow-ups of its rule do, and leave no longer list.**  Nothing is asked of
the template of the rule itself. -/
theorem exists_runs_of_followUps {r : Rule} (hr : ∀ x ∈ r.pattern.captureNames, names x)
    (hfollowUps : ∀ f ∈ r.followUps, f.Everywhere (Rule.NeverGrows names))
    (hends : ∀ s : Scan, s.bindings.Within names → ∃ u, Runs (.followUps r.followUps) s u)
    (role : Role) (s : Scan) (hs : s.bindings.Within names) : ∃ u, Runs (.scan role r) s u := by
  cases hrest : s.rest with
  | nil => exact ⟨s, _, .finish hrest⟩
  | cons t ts =>
    cases ht : t.isDelimiter with
    | true =>
      obtain ⟨u, _, hu⟩ :=
        exists_runs_of_followUps hr hfollowUps hends role (s.copyDelimiter t ts) hs
      exact ⟨u, _, .delimiter hrest ht hu⟩
    | false =>
      cases hm : r.pattern.match? s.bindings s.rest with
      | none =>
        cases hdepth : depthAfter s.depth t.text with
        | none => exact ⟨s, _, .stop hrest ht hm hdepth⟩
        | some depth =>
          obtain ⟨u, _, hu⟩ :=
            exists_runs_of_followUps hr hfollowUps hends role (s.copySignificant t ts depth) hs
          exact ⟨u, _, .significant hrest ht hm hdepth hu⟩
      | some result =>
        obtain ⟨taken, b⟩ := result
        have hb : b.Within names := Pattern.within_of_match? hr hs hm
        obtain ⟨v, _, hv⟩ := hends (s.replace role r taken b) hb
        have hshorter := length_rest_lt_of_occurrence hfollowUps hb hm hv.runs
        have hbindings : v.bindings = b := hv.runs.bindings_of_followUps
        obtain ⟨u, _, hu⟩ :=
          exists_runs_of_followUps hr hfollowUps hends role v (hbindings ▸ hb)
        exact ⟨u, _, .occurrence hrest ht hm hv hu⟩
termination_by s.rest.length
decreasing_by
  · rw [hrest]
    exact Nat.lt_succ_self _
  · exact hshorter
  · rw [hrest]
    exact Nat.lt_succ_self _

/-- Follow-ups end if the scan with each of them does. -/
theorem exists_runs_followUps : ∀ {rules : List Rule},
    (∀ f ∈ rules, ∀ s : Scan, s.bindings.Within names → ∃ u, Runs (.scan .followUp f) s u) →
      ∀ s : Scan, s.bindings.Within names → ∃ u, Runs (.followUps rules) s u
  | [], _, s, _ => ⟨s, _, .done⟩
  | f :: rules, hscans, s, hs => by
    obtain ⟨hf, hrules⟩ := List.forall_mem_cons.1 hscans
    obtain ⟨v, _, hv⟩ := hf (s.inner f) hs
    obtain ⟨u, _, hu⟩ := exists_runs_followUps hrules (s.resume v) hs
    exact ⟨u, _, .followUp hv hu⟩

/-- **A tree of rules comes to an end** if no rule below its root grows. -/
theorem exists_runs_of_neverGrows (r : Rule) (hr : ∀ x ∈ r.pattern.captureNames, names x)
    (hfollowUps : ∀ f ∈ r.followUps, f.Everywhere (Rule.NeverGrows names)) (role : Role)
    (s : Scan) (hs : s.bindings.Within names) : ∃ u, Runs (.scan role r) s u := by
  induction r using Rule.of_followUps generalizing role s with
  | h r ih =>
    refine exists_runs_of_followUps hr hfollowUps (exists_runs_followUps fun f hf s hs => ?_)
      role s hs
    have hbelow := hfollowUps f hf
    exact ih f hf hbelow.1.captureNames (fun g hg => hbelow.followUp hg) .followUp s hs

/-! ## The occurrences of the root -/

/-- Follow-ups find no occurrence of the root. -/
theorem Runs.matchCount_root_eq {rules : List Rule} {s u : Scan}
    (h : Runs (.followUps rules) s u) : u.matchCount .root = s.matchCount .root := by
  obtain ⟨os, hos⟩ := h
  have hnone : os.countP (fun o => o.role = .root) = 0 := by
    rw [List.countP_eq_length_filter]
    exact congrArg List.length hos.ofRoot_followUps
  rw [hos.matchCount, hnone, Nat.add_zero]

/-- **Every occurrence of the root uses up a token** of those not yet read. -/
theorem Runs.matchCount_add_length_rest_le {r : Rule} {s u : Scan}
    (h : Runs (.scan .root r) s u) (hr : ∀ x ∈ r.pattern.captureNames, names x)
    (hfollowUps : ∀ f ∈ r.followUps, f.Everywhere (Rule.NeverGrows names))
    (hs : s.bindings.Within names) :
    u.matchCount .root + u.rest.length ≤ s.matchCount .root + s.rest.length := by
  obtain ⟨os, h⟩ := h
  generalize hw : Work.scan .root r = w at h
  induction h with
  | finish | stop => exact Nat.le_refl _
  | delimiter hrest _ _ ih | significant hrest _ _ _ _ ih =>
    refine Nat.le_trans (ih hs hw) (Nat.add_le_add_left ?_ _)
    rw [hrest]
    exact Nat.le_succ _
  | @occurrence role r' s v _ _ _ _ _ taken b _ _ hm follow _ _ ihNext =>
    obtain ⟨rfl, rfl⟩ := Work.scan.inj hw
    have hb : b.Within names := Pattern.within_of_match? hr hs hm
    have hbindings : v.bindings = b := follow.runs.bindings_of_followUps
    have hnext := ihNext (hbindings ▸ hb) hw
    have hshorter := length_rest_lt_of_occurrence hfollowUps hb hm follow.runs
    have hcount := follow.runs.matchCount_root_eq
    rw [matchCount_replace, if_pos rfl] at hcount
    omega
  | done | followUp => exact absurd hw (by simp)

/-- The rules of which a run finds occurrences are those that its work uses. -/
theorem Traced.rule_of_everywhere {Q : Rule → Prop} {w : Work} {s u : Scan}
    {os : List Occurrence} (h : Traced w s os u) (hw : w.Everywhere Q) : ∀ o ∈ os, Q o.rule := by
  induction h with
  | finish | stop | done => exact List.forall_mem_nil _
  | delimiter _ _ _ ih | significant _ _ _ _ _ ih => exact ih hw
  | occurrence _ _ _ _ _ ihFollow ihNext =>
    exact List.forall_mem_cons.2 ⟨hw.1, List.forall_mem_append.2
      ⟨ihFollow fun f hf => Rule.Everywhere.followUp hw hf, ihNext hw⟩⟩
  | @followUp f _ _ _ _ _ _ _ _ ihInner ihNext =>
    exact List.forall_mem_append.2 ⟨ihInner (hw f List.mem_cons_self),
      ihNext fun g hg => hw g (List.mem_cons_of_mem f hg)⟩

end Scan

/-- Behind an occurrence its follow-up `f`, which comes after those in front of it, is given the
list `given` to scan and leaves the list `left`. -/
def Occurrence.FollowedUp (o : Occurrence) (f : Rule) (given left : List Token) : Prop :=
  ∃ front behind u v, o.rule.followUps = front ++ f :: behind ∧
    Scan.Runs (.followUps front) o.next u ∧ Scan.Runs (.scan .followUp f) (u.inner f) v ∧
      given = u.rest ∧ left = v.tokens

/-- **Follow-ups that do not grow come to an end.**

Let the template of every rule below `r` have at most as many tokens as its pattern has items, none
of them a new line and none with the text of a name that the tree captures under, and let the
bindings at the start bind no text of such a token.  The template of `r` may be any.  Then the
application of `r` to a list of tokens comes to an end.  Every scan of a follow-up on the way, at
any depth, leaves a list that is no longer than the one it was given, and `r` itself is found at
most as often as there are tokens. -/
theorem Rule.apply_ends_of_short_followUps {r : Rule}
    (hr : ∀ f, Below f r → f.WritesNoMore r.Names) {b : Bindings}
    (hb : ∀ f, Below f r → ∀ t ∈ f.template.tokens, b.get? t.text = none) (ts : List Token) :
    ∃ fuel s os, r.apply fuel b ts = some s ∧
      Scan.Traced (.scan .root r) (Scan.start b [] ts) os s ∧
      (∀ o ∈ os, ∀ f given left, o.FollowedUp f given left → left.length ≤ given.length) ∧
      s.matchCount .root ≤ ts.length := by
  -- the names that can be bound in the course of the run
  let names : List Char → Prop := fun x => r.Names x ∨ (b.get? x).isSome
  have hstart : (Scan.start b [] ts).bindings.Within names := fun x hx => .inr hx
  have hcaptureNames : r.Everywhere fun g => ∀ x ∈ g.pattern.captureNames, names x :=
    r.everywhere_names.imp fun g hg x hx => .inl (hg x hx)
  have hbelow : ∀ f, Below f r → f.NeverGrows names := fun f hf =>
    (hr f hf).neverGrows (r.everywhere_names.2 f hf) (hb f hf)
  have hfollowUps := forall_below_iff.1 hbelow
  obtain ⟨s, hs⟩ := Scan.exists_runs_of_neverGrows r hcaptureNames.1 hfollowUps .root _ hstart
  obtain ⟨fuel, hfuel⟩ := Scan.exists_run_of_runs hs
  obtain ⟨os, hos⟩ := hs
  have htree : (Scan.Work.scan .root r).Everywhere fun g => g = r ∨ Below g r :=
    everywhere_self_or_below r
  refine ⟨fuel, s, os, hfuel, hos, ?_, ?_⟩
  · rintro o ho f _ _ ⟨front, behind, u, v, hrules, hfront, hscan, rfl, rfl⟩
    have hf : Below f r := by
      have hmem : f ∈ o.rule.followUps := by
        rw [hrules]
        exact List.mem_append_right front List.mem_cons_self
      rcases hos.rule_of_everywhere htree o ho with heq | ho'
      · exact .followUp (heq ▸ hmem)
      · exact (Below.followUp hmem).trans ho'
    have hu : u.bindings.Within names := by
      rw [hfront.bindings_of_followUps]
      exact (hos.within hcaptureNames hstart).2 o ho
    exact hscan.length_tokens_le ⟨hbelow f hf, fun g hg => hbelow g (hg.trans hf)⟩ hu
  · have hcount := hos.runs.matchCount_add_length_rest_le hcaptureNames.1 hfollowUps hstart
    have hzero : (Scan.start b [] ts).matchCount .root = 0 := rfl
    have hlength : (Scan.start b [] ts).rest.length = ts.length := rfl
    omega

/-- A rule that writes its own pattern twice, with two follow-ups, of which the first has a
follow-up again and the second deletes what the first one writes. -/
theorem Rule.call_ends_with_short_followUps :
    let word (c : Char) : Token := ⟨.identifier, [c]⟩
    let bracket (c : Char) : Token := ⟨.bracket, [c]⟩
    let deeper : Rule := ⟨⟨[.literal (word 'c')], List.cons_ne_nil _ _⟩, .ofText ['d'], [], 0⟩
    let first : Rule :=
      ⟨⟨[.literal (word 'a'), .ident ['y']], List.cons_ne_nil _ _⟩, .ofText ['b'], [deeper], 0⟩
    let second : Rule := ⟨⟨[.literal (word 'b')], List.cons_ne_nil _ _⟩, .empty, [], 0⟩
    let call : Pattern :=
      ⟨[.literal (word 'f'), .literal (bracket '('), .expr ['x'] (bracket ')')],
        List.cons_ne_nil _ _⟩
    let r : Rule := ⟨call, .ofText "f(x);\nf(x)".toList, [first, second], 0⟩
    let b := Bindings.empty.insert ['z'] [word 'a']
    let ts := tokenize "f(1) a u c; f( 1 ) a v c".toList
    (∀ f, Below f r → f.WritesNoMore r.Names) ∧
      (∀ f, Below f r → ∀ t ∈ f.template.tokens, b.get? t.text = none) ∧
      ∃ fuel s os, r.apply fuel b ts = some s ∧
        Token.render s.tokens = "f(1);\nf(1)  d; f(1);\n   f(1)  d".toList ∧
        s.matchCount .followUp = 6 ∧ s.matchCount .root = 2 ∧ s.matchCount .root ≤ ts.length ∧
        Scan.Traced (.scan .root r) (Scan.start b [] ts) os s ∧
        ∀ o ∈ os, ∀ f given left, o.FollowedUp f given left → left.length ≤ given.length := by
  intro word bracket deeper first second call r b ts
  have hbelow : ∀ {Q : Rule → Prop}, Q first → Q deeper → Q second → ∀ f, Below f r → Q f := by
    intro Q hfirst hdeeper hsecond
    refine forall_below_iff.2 (List.forall_mem_cons.2 ⟨?_, List.forall_mem_singleton.2 ?_⟩)
    · exact everywhere_iff.2 ⟨hfirst, List.forall_mem_singleton.2
        (everywhere_iff.2 ⟨hdeeper, List.forall_mem_nil _⟩)⟩
    · exact everywhere_iff.2 ⟨hsecond, List.forall_mem_nil _⟩
  have hfacts : ∀ f, Below f r → f.template.tokens.length ≤ f.pattern.items.length ∧
      (∀ x ∈ f.pattern.captureNames, x = ['x'] ∨ x = ['y']) ∧
        ∀ t ∈ f.template.tokens, t.kind ≠ .newline ∧ ¬ (t.text = ['x'] ∨ t.text = ['y']) ∧
          b.get? t.text = none :=
    hbelow (by decide +kernel) (by decide +kernel) (by decide +kernel)
  have hnames : ∀ {x}, r.Names x → x = ['x'] ∨ x = ['y'] := by
    rintro x (hx | ⟨f, hf, hx⟩)
    · exact (by decide +kernel : ∀ x ∈ r.pattern.captureNames, x = ['x'] ∨ x = ['y']) x hx
    · exact (hfacts f hf).2.1 x hx
  have hshort : ∀ f, Below f r → f.WritesNoMore r.Names := by
    intro f hf
    obtain ⟨hlength, -, htokens⟩ := hfacts f hf
    exact ⟨hlength, fun t ht => (htokens t ht).1, fun t ht hx => (htokens t ht).2.1 (hnames hx)⟩
  have hbindings : ∀ f, Below f r → ∀ t ∈ f.template.tokens, b.get? t.text = none :=
    fun f hf t ht => ((hfacts f hf).2.2 t ht).2.2
  obtain ⟨fuel, s, os, hs, hos, hfollowed, hcount⟩ :=
    apply_ends_of_short_followUps hshort hbindings ts
  obtain ⟨s', hs', heq⟩ : ∃ s', r.apply 60 b ts = some s' ∧
      (Token.render s'.tokens, s'.matchCount .followUp, s'.matchCount .root) =
        ("f(1);\nf(1)  d; f(1);\n   f(1)  d".toList, 6, 2) := by
    refine Option.map_eq_some_iff.1 (?_ : Option.map _ _ = some _)
    decide +kernel
  obtain rfl : s = s' := Scan.run_unique hs hs'
  simp only [Prod.mk.injEq] at heq
  exact ⟨hshort, hbindings, fuel, s, os, hs, heq.1, heq.2.1, heq.2.2, hcount, hos, hfollowed⟩

end TokenEdit
