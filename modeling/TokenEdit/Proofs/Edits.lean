import TokenEdit.Draft
import TokenEdit.Proofs.Occurrence
import TokenEdit.Proofs.Reachable
import TokenEdit.Proofs.RuleTree

/-!
# A run is a chain of edits

A scan moves tokens from one list to another, hands what is left to the follow-ups, and goes on
with what they return.  At every moment the tokens written and the tokens not yet read, put
together, are the list as it stands, and only an occurrence changes this list: it replaces the
tokens of the occurrence by the expanded template and keeps all others.  So what a run has done
can be told without the scan, as a list of edits, each made in what the one before has left.

The edits of one work are found by induction on its run.

* Copying a token makes no edit.
* An occurrence makes one, in front of the edits of its follow-ups and of the rest of the scan.
* A follow-up sees only the tokens not yet read.  Its edits are edits of the whole list with the
  tokens written put in front of them (`Edit.shift`), which is why they leave those alone.

Nothing else is counted as an occurrence, so the counts of a run are the numbers of its edits; and
a run without edits leaves the list as it is.
-/

namespace TokenEdit

/-! ## Edits -/

/-- One replacement in a list of tokens. -/
structure Edit where
  /-- Whether the rule that makes it is the root or a follow-up. -/
  role : Role
  /-- The rule that makes it. -/
  rule : Rule
  before : List Token
  /-- The tokens replaced. -/
  taken : List Token
  /-- The tokens put in their place. -/
  put : List Token
  behind : List Token

namespace Edit

/-- The list in which the edit is made. -/
def source (e : Edit) : List Token :=
  e.before ++ (e.taken ++ e.behind)

/-- The list that the edit makes of it. -/
def target (e : Edit) : List Token :=
  e.before ++ (e.put ++ e.behind)

/-- An edit as its rule makes it.  The tokens replaced start with a significant one and are, all
of them and whatever stands behind them, an occurrence of the pattern under some bindings; the
tokens put in are the template, expanded under the bindings of the occurrence. -/
structure Valid (e : Edit) : Prop where
  head : ∃ t ts, e.taken = t :: ts ∧ t.isDelimiter = false
  occurrence : ∃ b b' indent, b.Reachable ∧
    (∀ behind, e.rule.pattern.attempt b (e.taken ++ behind) = (some e.taken.length, b')) ∧
    e.put = e.rule.template.expand b' indent

/-- The edits lead from the first list to the second. -/
def Chain : List Token → List Edit → List Token → Prop
  | ts, [], ts' => ts = ts'
  | ts, e :: es, ts' => e.source = ts ∧ Chain e.target es ts'

/-- The second edit leaves alone what the first one, made by the root, has put in, and everything
to the left of it. -/
def Spares (e e' : Edit) : Prop :=
  e.role = .root → e.before ++ e.put <+: e'.before

theorem Chain.append {es es' : List Edit} {ts ts' ts'' : List Token} (h : Chain ts es ts')
    (h' : Chain ts' es' ts'') : Chain ts (es ++ es') ts'' := by
  induction es generalizing ts with
  | nil => exact h ▸ h'
  | cons e es ih => exact ⟨h.1, ih h.2⟩

/-- The same edit behind more tokens. -/
def shift (front : List Token) (e : Edit) : Edit :=
  { e with before := front ++ e.before }

theorem Chain.shift {es : List Edit} {ts ts' : List Token} (h : Chain ts es ts')
    (front : List Token) : Chain (front ++ ts) (es.map (shift front)) (front ++ ts') := by
  induction es generalizing ts with
  | nil => exact congrArg (front ++ ·) h
  | cons e es ih =>
    refine ⟨?_, ?_⟩
    · rw [← h.1]
      exact List.append_assoc ..
    · have htarget : (Edit.shift front e).target = front ++ e.target := List.append_assoc ..
      rw [htarget]
      exact ih h.2

/-- Edits of follow-ups ask nothing of each other. -/
theorem pairwise_spares_of_followUp {es : List Edit} (h : ∀ e ∈ es, e.role = .followUp) :
    es.Pairwise Spares := by
  have hall : es.Pairwise fun _ _ => True := List.pairwise_of_forall fun _ _ => trivial
  refine hall.imp_of_mem ?_
  intro e _ he _ _ hroot
  rw [h e he] at hroot
  exact absurd hroot (by decide)

end Edit

/-! ## The edits of a run -/

namespace Scan

/-- Which edits may belong to a work. -/
def Work.Owns : Work → Edit → Prop
  | scan role r, e => (e.role = role ∧ e.rule = r) ∨ (e.role = .followUp ∧ e.rule.Below r)
  | followUps rules, e => e.role = .followUp ∧ ∃ f ∈ rules, e.rule = f ∨ e.rule.Below f

/-- The edits account for what a work has done between two states. -/
structure Account (w : Work) (s u : Scan) (es : List Edit) : Prop where
  chain : Edit.Chain s.tokens es u.tokens
  owned : ∀ e ∈ es, w.Owns e
  valid : ∀ e ∈ es, e.Valid
  /-- The tokens written before are left alone. -/
  written : ∀ e ∈ es, s.written.reverse <+: e.before
  spares : es.Pairwise Edit.Spares
  count : ∀ role, u.matchCount role = s.matchCount role + es.countP fun e => e.role = role

theorem Account.nil (w : Work) (s : Scan) : Account w s s [] where
  chain := rfl
  owned := by simp
  valid := by simp
  written := by simp
  spares := .nil
  count role := by simp

/-- Copying a token makes no edit. -/
theorem Account.of_copy {w : Work} {s s' u : Scan} {es : List Edit} (h : Account w s' u es)
    {t : Token} {ts : List Token} (hrest : s.rest = t :: ts)
    (hwritten : s'.written = t :: s.written) (hrest' : s'.rest = ts)
    (hevents : s'.events = s.events) : Account w s u es where
  chain := by
    have htokens : s.tokens = s'.tokens := by
      simp [tokens, hrest, hwritten, hrest']
    rw [htokens]
    exact h.chain
  owned := h.owned
  valid := h.valid
  written e he := by
    refine List.IsPrefix.trans ?_ (h.written e he)
    rw [hwritten, List.reverse_cons]
    exact List.prefix_append _ _
  spares := h.spares
  count role := by rw [h.count role, matchCount, matchCount, hevents]

/-- The edit that an occurrence makes in the list as it stands. -/
def occurrenceEdit (s : Scan) (role : Role) (r : Rule) (taken : Nat) (b : Bindings) : Edit where
  role := role
  rule := r
  before := s.written.reverse
  taken := s.rest.take taken
  put := r.template.expand b s.column
  behind := s.rest.drop taken

theorem source_occurrenceEdit (s : Scan) (role : Role) (r : Rule) (taken : Nat) (b : Bindings) :
    (s.occurrenceEdit role r taken b).source = s.tokens := by
  simp [Edit.source, occurrenceEdit, tokens]

theorem target_occurrenceEdit (s : Scan) (role : Role) (r : Rule) (taken : Nat) (b : Bindings) :
    (s.occurrenceEdit role r taken b).target = (s.replace role r taken b).tokens := by
  simp [Edit.target, occurrenceEdit, tokens, replace]

theorem written_replace_reverse (s : Scan) (role : Role) (r : Rule) (taken : Nat) (b : Bindings) :
    (s.replace role r taken b).written.reverse =
      (s.occurrenceEdit role r taken b).before ++ (s.occurrenceEdit role r taken b).put := by
  simp [occurrenceEdit, replace]

theorem valid_occurrenceEdit {s : Scan} {r : Rule} {t : Token} {ts : List Token} {taken : Nat}
    {b : Bindings} (hb : s.bindings.Reachable) (hrest : s.rest = t :: ts)
    (ht : t.isDelimiter = false) (hm : r.pattern.match? s.bindings s.rest = some (taken, b))
    (role : Role) : (s.occurrenceEdit role r taken b).Valid where
  head := by
    cases taken with
    | zero => exact absurd (Pattern.match?_pos hm) (Nat.lt_irrefl 0)
    | succ taken => exact ⟨t, ts.take taken, by simp [occurrenceEdit, hrest], ht⟩
  occurrence := by
    refine ⟨s.bindings, b, s.column, hb, fun behind => ?_, rfl⟩
    have hlength : (s.rest.take taken).length = taken :=
      List.length_take_of_le (Pattern.match?_le_length hm)
    show r.pattern.attempt s.bindings (s.rest.take taken ++ behind) =
      (some (s.rest.take taken).length, b)
    rw [hlength, Pattern.attempt_of_match?_eq_some (Pattern.match?_take_append hm behind)]

/-- An occurrence makes one edit, and its follow-ups and the rest of the scan come behind it. -/
theorem Account.occurrence {s u v : Scan} {role : Role} {r : Rule} {taken : Nat} {b : Bindings}
    {es es' : List Edit} (hvalid : (s.occurrenceEdit role r taken b).Valid)
    (hfollow : Account (.followUps r.followUps) (s.replace role r taken b) u es)
    (hwritten : u.written = (s.replace role r taken b).written)
    (hnext : Account (.scan role r) u v es') :
    Account (.scan role r) s v (s.occurrenceEdit role r taken b :: (es ++ es')) where
  chain := by
    refine ⟨source_occurrenceEdit s role r taken b, ?_⟩
    rw [target_occurrenceEdit]
    exact hfollow.chain.append hnext.chain
  owned e he := by
    rcases List.mem_cons.1 he with rfl | he
    · exact .inl ⟨rfl, rfl⟩
    rcases List.mem_append.1 he with he | he
    · obtain ⟨hrole, f, hf, rfl | hbelow⟩ := hfollow.owned e he
      · exact .inr ⟨hrole, .followUp hf⟩
      · exact .inr ⟨hrole, .deeper hf hbelow⟩
    · exact hnext.owned e he
  valid e he := by
    rcases List.mem_cons.1 he with rfl | he
    · exact hvalid
    rcases List.mem_append.1 he with he | he
    · exact hfollow.valid e he
    · exact hnext.valid e he
  written e he := by
    have hfirst : s.written.reverse <+: (s.replace role r taken b).written.reverse := by
      rw [written_replace_reverse]
      exact List.prefix_append _ _
    rcases List.mem_cons.1 he with rfl | he
    · exact List.prefix_rfl
    rcases List.mem_append.1 he with he | he
    · exact hfirst.trans (hfollow.written e he)
    · exact hfirst.trans (hwritten ▸ hnext.written e he)
  spares := by
    have hroles : ∀ e ∈ es, e.role = .followUp := fun e he => (hfollow.owned e he).1
    refine List.pairwise_cons.2 ⟨fun e he _ => ?_, List.pairwise_append.2
      ⟨hfollow.spares, hnext.spares, fun e he e' _ hroot => ?_⟩⟩
    · rw [← written_replace_reverse]
      rcases List.mem_append.1 he with he | he
      · exact hfollow.written e he
      · exact hwritten ▸ hnext.written e he
    · rw [hroles e he] at hroot
      exact absurd hroot (by decide)
  count role' := by
    have hall : (s.occurrenceEdit role r taken b :: (es ++ es')).countP (fun e => e.role = role') =
        es.countP (fun e => e.role = role') + es'.countP (fun e => e.role = role') +
          if role = role' then 1 else 0 := by
      simp [occurrenceEdit, List.countP_cons, List.countP_append]
    rw [hnext.count, hfollow.count, matchCount_replace, hall]
    omega

/-- The edits of a follow-up are edits of the whole list, behind the tokens written. -/
theorem Account.followUp {s u v : Scan} {f : Rule} {rules : List Rule} {es es' : List Edit}
    (hinner : Account (.scan .followUp f) (s.inner f) u es)
    (hnext : Account (.followUps rules) (s.resume u) v es') :
    Account (.followUps (f :: rules)) s v (es.map (Edit.shift s.written.reverse) ++ es') := by
  have howned : ∀ e ∈ es.map (Edit.shift s.written.reverse) ++ es',
      (Work.followUps (f :: rules)).Owns e := by
    intro e he
    rcases List.mem_append.1 he with he | he
    · obtain ⟨e, hmem, rfl⟩ := List.mem_map.1 he
      rcases hinner.owned e hmem with ⟨hrole, hrule⟩ | ⟨hrole, hbelow⟩
      · exact ⟨hrole, f, List.mem_cons_self, .inl hrule⟩
      · exact ⟨hrole, f, List.mem_cons_self, .inr hbelow⟩
    · obtain ⟨hrole, g, hg, hrule⟩ := hnext.owned e he
      exact ⟨hrole, g, List.mem_cons_of_mem f hg, hrule⟩
  exact {
    chain := (hinner.chain.shift s.written.reverse).append hnext.chain
    owned := howned
    valid := by
      intro e he
      rcases List.mem_append.1 he with he | he
      · obtain ⟨e, hmem, rfl⟩ := List.mem_map.1 he
        exact ⟨(hinner.valid e hmem).head, (hinner.valid e hmem).occurrence⟩
      · exact hnext.valid e he
    written := by
      intro e he
      rcases List.mem_append.1 he with he | he
      · obtain ⟨e, -, rfl⟩ := List.mem_map.1 he
        exact List.prefix_append _ _
      · exact hnext.written e he
    spares := Edit.pairwise_spares_of_followUp fun e he => (howned e he).1
    count := by
      intro role
      have hresume : (s.resume u).matchCount role = u.matchCount role := rfl
      have hshift : (es.map (Edit.shift s.written.reverse)).countP (fun e => e.role = role) =
          es.countP fun e => e.role = role := List.countP_map ..
      rw [hnext.count, hresume, hinner.count, matchCount_inner, List.countP_append, hshift,
        Nat.add_assoc] }

/-- **Every run has its edits.** -/
theorem exists_account {w : Work} {s u : Scan} (h : Runs w s u) (hb : s.bindings.Reachable) :
    ∃ es, Account w s u es := by
  obtain ⟨os, h⟩ := h
  induction h with
  | finish | stop | done => exact ⟨[], .nil _ _⟩
  | delimiter hrest _ _ ih | significant hrest _ _ _ _ ih =>
    obtain ⟨es, hes⟩ := ih hb
    exact ⟨es, hes.of_copy hrest rfl rfl rfl⟩
  | @occurrence role r s _ _ _ _ _ _ _ b hrest ht hm follow _ ihFollow ihNext =>
    have hreach : b.Reachable := by
      have hattempt := hb.attempt r.pattern s.rest
      rwa [Pattern.attempt_of_match?_eq_some hm] at hattempt
    have hframe := follow.runs.eq_of_followUps
    obtain ⟨es, hes⟩ := ihFollow hreach
    obtain ⟨es', hes'⟩ := ihNext (by rw [hframe]; exact hreach)
    have hvalid := valid_occurrenceEdit hb hrest ht hm role
    exact ⟨_, .occurrence hvalid hes (by rw [hframe]) hes'⟩
  | followUp _ _ ihInner ihNext =>
    obtain ⟨es, hes⟩ := ihInner hb
    obtain ⟨es', hes'⟩ := ihNext hb
    exact ⟨_, .followUp hes hes'⟩

end Scan

/-! ## Drafts -/

namespace Draft

/-- Applying a rule keeps the reports that are there. -/
theorem reports_isPrefix_of_applyRule {fuel count index : Nat} {d d' : Draft} {r : Rule}
    (h : d.applyRule fuel count r index = some d') : d.reports <+: d'.reports := by
  obtain ⟨s, -, rfl⟩ := applyRule_eq_some_iff.1 h
  exact List.prefix_append _ _

theorem reports_isPrefix_of_foldlM {fuel count : Nat} :
    ∀ {rules : List (Rule × Nat)} {d d' : Draft},
      rules.foldlM (fun d (r, index) => d.applyRule fuel count r index) d = some d' →
        d.reports <+: d'.reports
  | [], d, d', h => by
    obtain rfl : d = d' := Option.some.inj h
    exact List.prefix_rfl
  | (r, index) :: rules, d, d', h => by
    rw [List.foldlM_cons] at h
    obtain ⟨d₁, hd₁, h⟩ := Option.bind_eq_some_iff.1 h
    exact (reports_isPrefix_of_applyRule hd₁).trans (reports_isPrefix_of_foldlM h)

/-- A rule that reports nothing found leaves the tokens as they are. -/
theorem tokens_eq_of_applyRule {fuel count index : Nat} {d d' : Draft} {r : Rule}
    (h : d.applyRule fuel count r index = some d')
    (hzero : ∀ report ∈ d'.reports, report.found = 0 ∧ report.foundBelow = 0) :
    d'.tokens = d.tokens := by
  obtain ⟨s, hs, rfl⟩ := applyRule_eq_some_iff.1 h
  obtain ⟨es, hes⟩ := Scan.exists_account (Scan.runs_of_run hs) .empty
  have hcount : ∀ role, es.countP (fun e => e.role = role) = 0 := by
    obtain ⟨hfound, hbelow⟩ := hzero _ (List.mem_append_right _ List.mem_cons_self)
    intro role
    have hrole := hes.count role
    cases role with
    | root => exact Nat.le_zero.1 (by rw [← hfound, hrole]; exact Nat.le_add_left _ _)
    | followUp => exact Nat.le_zero.1 (by rw [← hbelow, hrole]; exact Nat.le_add_left _ _)
  have hnil : es = [] := by
    refine List.eq_nil_iff_forall_not_mem.2 fun e he => ?_
    have hpos : 0 < es.countP fun e' => e'.role = e.role :=
      List.countP_pos_iff.2 ⟨e, he, by simp⟩
    rw [hcount e.role] at hpos
    exact Nat.lt_irrefl 0 hpos
  have hchain := hes.chain
  rw [hnil] at hchain
  exact hchain.symm

/-- Rules that report nothing found leave the tokens as they are. -/
theorem tokens_eq_of_foldlM {fuel count : Nat} :
    ∀ {rules : List (Rule × Nat)} {d d' : Draft},
      rules.foldlM (fun d (r, index) => d.applyRule fuel count r index) d = some d' →
        (∀ report ∈ d'.reports, report.found = 0 ∧ report.foundBelow = 0) →
          d'.tokens = d.tokens
  | [], d, d', h, _ => by
    rw [Option.some.inj h]
  | (r, index) :: rules, d, d', h, hzero => by
    rw [List.foldlM_cons] at h
    obtain ⟨d₁, hd₁, h⟩ := Option.bind_eq_some_iff.1 h
    have hsub : ∀ report ∈ d₁.reports, report.found = 0 ∧ report.foundBelow = 0 :=
      fun report hmem => hzero report ((reports_isPrefix_of_foldlM h).subset hmem)
    rw [tokens_eq_of_foldlM h hzero, tokens_eq_of_applyRule hd₁ hsub]

end Draft

/-! ## The account of an application -/

/-- **An application is a chain of edits.**

Whatever the tree of the rule, the bindings that can be reached and the tokens: when the
application comes to an end, edits lead from the tokens to its result.  Each of them is made by
the rule itself, as root, or by a rule below it, as follow-up, at an occurrence of the rule that
makes it; none touches what an edit of the root before it has put in, nor what stands to the left
of that; and the edits in either role are as many as the occurrences counted.

So rules that report no occurrence return the text that they were given. -/
theorem application_is_chain_of_edits :
    (∀ (r : Rule) (b : Bindings) (ts : List Token) (fuel : Nat) (s : Scan), b.Reachable →
      r.apply fuel b ts = some s →
        ∃ es : List Edit, Edit.Chain ts es s.tokens ∧
          (∀ e ∈ es, e.Valid ∧
            ((e.role = .root ∧ e.rule = r) ∨ (e.role = .followUp ∧ e.rule.Below r))) ∧
          es.Pairwise (fun e e' => e.role = .root → e.before ++ e.put <+: e'.before) ∧
          es.countP (fun e => e.role = .root) = s.matchCount .root ∧
          es.countP (fun e => e.role = .followUp) = s.matchCount .followUp) ∧
    ∀ (rules : List Rule) (source : List Char) (fuel : Nat) (d : Draft),
      (Draft.ofTokens (tokenize source)).applyRules fuel rules = some d →
      (∀ report ∈ d.reports, report.found = 0 ∧ report.foundBelow = 0) →
        editText fuel rules source = some source := by
  constructor
  · intro r b ts fuel s hb hs
    obtain ⟨es, hes⟩ := Scan.exists_account (Scan.runs_of_run hs) hb
    refine ⟨es, hes.chain, fun e he => ⟨hes.valid e he, hes.owned e he⟩, hes.spares, ?_, ?_⟩
    · rw [hes.count .root]
      exact (Nat.zero_add _).symm
    · rw [hes.count .followUp]
      exact (Nat.zero_add _).symm
  · intro rules source fuel d hd hzero
    rw [editText, hd, Option.map_some, Draft.text, Draft.tokens_eq_of_foldlM hd hzero]
    exact congrArg some (render_tokenize source)

/-- The root replaces one token, and its follow-up another one. -/
theorem application_with_follow_up_is_two_edits :
    let word (c : Char) : Token := ⟨.identifier, [c]⟩
    let rule (c : Char) (put : List Token) (followUps : List Rule) : Rule :=
      ⟨⟨[.literal (word c)], List.cons_ne_nil _ _⟩, ⟨put⟩, followUps, 0⟩
    let r := rule 'a' [word 'b'] [rule 'c' [word 'd', word 'd'] []]
    ∃ s es, r.apply 9 .empty [word 'a', word 'c'] = some s ∧
      s.tokens = [word 'b', word 'd', word 'd'] ∧
      Edit.Chain [word 'a', word 'c'] es s.tokens ∧
      es.countP (fun e => e.role = .root) = 1 ∧ es.countP (fun e => e.role = .followUp) = 1 := by
  intro word rule r
  obtain ⟨es, hchain, -, -, hroot, hfollowUp⟩ :=
    application_is_chain_of_edits.1 r .empty [word 'a', word 'c'] 9 _ .empty rfl
  exact ⟨_, es, rfl, rfl, hchain, hroot, hfollowUp⟩

end TokenEdit
