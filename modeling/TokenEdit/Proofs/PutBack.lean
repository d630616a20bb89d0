import TokenEdit.Draft
import TokenEdit.Proofs.LayoutMatch
import TokenEdit.Proofs.Provenance
import TokenEdit.Proofs.WrittenPattern

/-!
# Rules that put back what they take

Let the template of a rule say what its pattern says: the same tokens, and for every placeholder
the name that it captures under.  An occurrence is then replaced by its own tokens, up to layout.
The tokens put in for a name are those of its first capture, which later captures only have to
agree with; but agreeing is having the same significant texts, and no more is claimed.

With names and texts kept apart, this holds of every rule of a tree.  A literal with the text of a
name would be replaced by a capture, and the rule that binds the name may be far above the one
that uses it; so the names and the texts in question are those of the whole tree.

That such rules come to an end is a second matter.  The list may grow under them, since templates
and captures bring layout of their own.  What does not grow is the number of significant tokens
that are not yet read: an occurrence takes one of them at least, and its follow-ups keep their
number.  A scan therefore ends by the number of significant tokens in front of it and, where that
stays the same, by the number of all tokens.

* `Rule.PutsBack`, `Rule.NamesApart`: the rules in question.
* `Rule.Restores.significantTexts_expand`: an occurrence is put back.
* `Scan.exists_runs_scan`: a scan ends and keeps the significant texts, if follow-ups do.
* `Draft.applyRules_puts_back`: all together.
-/

namespace TokenEdit

open Token (significant significantTexts)

/-! ## The rules -/

namespace Item

/-- What an item says beside the word of its placeholder. -/
def content : Item → List (List Char)
  | literal t => [t.text]
  | ident name => [name]
  | expr name terminator => [name, terminator.text]

theorem content_subset_tokens (item : Item) : item.content ⊆ item.tokens.map Token.text := by
  cases item <;> simp [content, tokens]

theorem captureName?_mem_content {item : Item} {name : List Char}
    (h : item.captureName? = some name) : name ∈ item.content := by
  cases item with
  | literal t => exact absurd h (by simp [captureName?])
  | ident name' | expr name' terminator =>
    rw [← Option.some.inj h]
    exact List.mem_cons_self

end Item

namespace Pattern

/-- A written pattern says nothing that is layout. -/
theorem isLayoutText_content {text : List Char} {p : Pattern} (h : ofText text = .ok p) :
    ∀ item ∈ p.items, ∀ word ∈ item.content, isLayoutText word = false := by
  intro item hitem word hword
  obtain ⟨t, ht, rfl⟩ := List.mem_map.1 (item.content_subset_tokens hword)
  have hspaceable :=
    Token.spaceable_of_mem_significant (mem_significant_of_ofText h hitem t ht)
  have hlexical : t.isDelimiter = isLayoutText t.text := hspaceable.whole.classified.lexical
  rw [← hlexical, hspaceable.isDelimiter_eq]

end Pattern

namespace Rule

/-- A written rule whose template says, up to layout, what its pattern says beside the words of
its placeholders. -/
structure PutsBack (r : Rule) : Prop extends r.Written where
  significantTexts_eq :
    significantTexts r.template.tokens = r.pattern.items.flatMap Item.content

/-- No token and no terminator that a pattern of the tree names has the text of a name of the
tree. -/
def NamesApart (r : Rule) : Prop :=
  r.Everywhere fun g => ∀ text ∈ g.pattern.texts, ¬ r.Names text

/-- What a run asks of a rule, where only names of a certain kind are bound. -/
structure Restores (names : List Char → Prop) (r : Rule) : Prop where
  tokens : ∀ t ∈ r.template.tokens, t.Lexical
  content : ∀ item ∈ r.pattern.items, ∀ word ∈ item.content, isLayoutText word = false
  captureNames : ∀ name ∈ r.pattern.captureNames, names name
  texts : ∀ text ∈ r.pattern.texts, ¬ names text
  significantTexts_eq :
    significantTexts r.template.tokens = r.pattern.items.flatMap Item.content

/-- Every name of a tree of written rules is an identifier, and so it is no layout. -/
theorem Names.isLayoutText {r : Rule} (hr : r.Everywhere PutsBack) {name : List Char}
    (h : r.Names name) : isLayoutText name = false := by
  have hcaptured : ∀ {g : Rule}, g.PutsBack → name ∈ g.pattern.captureNames →
      TokenEdit.isLayoutText name = false := by
    intro g hg hname
    obtain ⟨text, htext⟩ := hg.pattern
    obtain ⟨item, hitem, hcapture⟩ := Pattern.exists_item_of_mem_captureNames hname
    exact Pattern.isLayoutText_content htext item hitem name
      (Item.captureName?_mem_content hcapture)
  rcases h with hname | ⟨g, hg, hname⟩
  · exact hcaptured hr.1 hname
  · exact hcaptured (hr.2 g hg) hname

theorem everywhere_restores {r : Rule} (hr : r.Everywhere PutsBack) (hnames : r.NamesApart) :
    r.Everywhere (Restores r.Names) := by
  have hrule : ∀ {g : Rule}, g.PutsBack → (∀ text ∈ g.pattern.texts, ¬ r.Names text) →
      (∀ name ∈ g.pattern.captureNames, r.Names name) → g.Restores r.Names := by
    intro g hg htexts hcaptured
    obtain ⟨text, htext⟩ := hg.pattern
    obtain ⟨template, htemplate⟩ := hg.template
    refine ⟨fun t ht => ?_, Pattern.isLayoutText_content htext, hcaptured, htexts,
      hg.significantTexts_eq⟩
    rw [htemplate] at ht
    exact Token.lexical_of_mem_tokenize ht
  refine ⟨hrule hr.1 hnames.1 fun name h => .inl h, fun g hg => ?_⟩
  exact hrule (hr.2 g hg) (hnames.2 g hg) fun name h => .inr ⟨g, hg, h⟩

end Rule

/-! ## Bindings -/

namespace Bindings

/-- The significant texts that a text of a template stands for. -/
def textsFor (b : Bindings) (text : List Char) : List (List Char) :=
  ((b.get? text).map significantTexts).getD [text]

theorem textsFor_of_get?_eq_some {b : Bindings} {name : List Char} {bound : List Token}
    (h : b.get? name = some bound) : b.textsFor name = significantTexts bound := by
  rw [textsFor, h, Option.map_some, Option.getD_some]

theorem textsFor_of_get?_eq_none {b : Bindings} {text : List Char}
    (h : b.get? text = none) : b.textsFor text = [text] := by
  rw [textsFor, h, Option.map_none, Option.getD_none]

end Bindings

/-! ## Templates -/

namespace Token

theorem significantTexts_cons_of_isDelimiter {t : Token} (ht : t.isDelimiter = true)
    (ts : List Token) : significantTexts (t :: ts) = significantTexts ts := by
  rw [significantTexts, significant_cons_of_isDelimiter ht, significantTexts]

theorem significantTexts_cons_of_significant {t : Token} (ht : t.isDelimiter = false)
    (ts : List Token) : significantTexts (t :: ts) = t.text :: significantTexts ts := by
  rw [significantTexts, significant_cons_of_significant ht, List.map_cons, significantTexts]

theorem significantTexts_of_isDelimiter {ts : List Token} (h : ∀ t ∈ ts, t.isDelimiter = true) :
    significantTexts ts = [] := by
  induction ts with
  | nil => rfl
  | cons t ts ih =>
    obtain ⟨ht, hts⟩ := List.forall_mem_cons.1 h
    rw [significantTexts_cons_of_isDelimiter ht, ih hts]

/-- Behind a significant token there are fewer of them. -/
theorem length_significantTexts_drop_lt {t : Token} {ts : List Token}
    (ht : t.isDelimiter = false) {taken : Nat} (hpos : 0 < taken) :
    (significantTexts ((t :: ts).drop taken)).length < (significantTexts (t :: ts)).length := by
  obtain ⟨n, rfl⟩ := Nat.exists_eq_add_one.2 hpos
  rw [List.drop_succ_cons, Token.significantTexts_cons_of_significant ht, List.length_cons]
  exact Nat.lt_succ_of_le ((((List.drop_sublist n ts).filter _).map _).length_le)

end Token

namespace Template

/-- What stands for a delimiter is layout, since no name is. -/
theorem significantTexts_expandToken {b : Bindings} {t : Token} (ht : t.Lexical)
    (hb : b.Within fun name => isLayoutText name = false) (indent : Nat) :
    significantTexts (expandToken b indent t) = (significantTexts [t]).flatMap b.textsFor := by
  rw [significantTexts, significant_expandToken, Bindings.get?_significant]
  cases hdelimiter : t.isDelimiter with
  | true =>
    have hget : b.get? t.text = none := by
      cases hget : b.get? t.text with
      | none => rfl
      | some bound =>
        have hlayout : isLayoutText t.text = false := hb t.text (by rw [hget]; rfl)
        rw [← ht, hdelimiter] at hlayout
        exact absurd hlayout (by decide)
    rw [hget, Token.significantTexts_cons_of_isDelimiter hdelimiter,
      Token.significant_cons_of_isDelimiter hdelimiter]
    rfl
  | false =>
    rw [Token.significantTexts_cons_of_significant hdelimiter,
      Token.significant_cons_of_significant hdelimiter]
    cases hget : b.get? t.text with
    | none => simp [Bindings.textsFor_of_get?_eq_none hget, significantTexts]
    | some bound => simp [Bindings.textsFor_of_get?_eq_some hget, significantTexts]

theorem significantTexts_expand {b : Bindings}
    (hb : b.Within fun name => isLayoutText name = false) {template : Template}
    (htokens : ∀ t ∈ template.tokens, t.Lexical) (indent : Nat) :
    significantTexts (template.expand b indent) =
      (significantTexts template.tokens).flatMap b.textsFor := by
  obtain ⟨ts⟩ := template
  rw [expand]
  induction ts with
  | nil => rfl
  | cons t ts ih =>
    obtain ⟨ht, hts⟩ := List.forall_mem_cons.1 htokens
    have hcons : significantTexts (t :: ts) = significantTexts [t] ++ significantTexts ts :=
      Token.significantTexts_append [t] ts
    rw [List.flatMap_cons, Token.significantTexts_append, significantTexts_expandToken ht hb,
      ih hts, hcons, List.flatMap_append]

end Template

/-! ## Occurrences -/

namespace Item

/-- What an item takes are the texts that its content stands for: a literal and a terminator stand
for themselves, and a name for its capture. -/
theorem significantTexts_of_read? {item : Item} {ts : List Token} {taken : Nat}
    {captures : List Capture} (h : item.read? ts = some (taken, captures))
    (hcontent : ∀ word ∈ item.content, isLayoutText word = false) (hts : ∀ t ∈ ts, t.Lexical)
    {b : Bindings} (htexts : ∀ text ∈ item.texts, b.textsFor text = [text])
    (hcaptures : ∀ c ∈ captures, b.textsFor c.name = significantTexts c.span) :
    significantTexts (ts.take taken) = item.content.flatMap b.textsFor := by
  obtain ⟨front, here, n, rfl, hfront, hhere, htake⟩ := exists_readHere?_of_read? h
  have hlexical : ∀ t ∈ here, t.Lexical := fun t ht => hts t (List.mem_append_right front ht)
  rw [htake, Token.significantTexts_append, Token.significantTexts_of_isDelimiter hfront,
    List.nil_append]
  -- a token with a text of the content is significant
  have hsignificant : ∀ {t : Token}, t ∈ here → t.text ∈ item.content →
      t.isDelimiter = false := fun ht hword => (hlexical _ ht).trans (hcontent _ hword)
  cases here with
  | nil => simp [readHere?] at hhere
  | cons t here =>
    cases item with
    | literal l =>
      simp only [readHere?, Option.ite_none_right_eq_some, Option.some.injEq,
        Prod.mk.injEq] at hhere
      obtain ⟨htext, rfl, -⟩ := hhere
      have ht : t.isDelimiter = false :=
        hsignificant List.mem_cons_self (htext ▸ List.mem_cons_self)
      have hl : b.textsFor l.text = [l.text] := htexts l.text List.mem_cons_self
      show significantTexts [t] = [l.text].flatMap b.textsFor
      rw [Token.significantTexts_cons_of_significant ht, List.flatMap_singleton, hl, htext]
      rfl
    | ident name =>
      simp only [readHere?, Option.ite_none_right_eq_some, Option.some.injEq,
        Prod.mk.injEq] at hhere
      obtain ⟨-, rfl, rfl⟩ := hhere
      show significantTexts [t] = [name].flatMap b.textsFor
      rw [List.flatMap_singleton, hcaptures ⟨name, [t]⟩ List.mem_cons_self]
    | expr name terminator =>
      obtain ⟨length, hlength, heq⟩ := Option.map_eq_some_iff.1 hhere
      obtain ⟨rfl, rfl⟩ := Prod.mk.inj heq
      obtain ⟨span, t', rest, hsplit, htext, hn, -⟩ := spanLengthFrom?_split hlength
      obtain rfl : length = span.length := hn.trans (Nat.zero_add _)
      have ht' : t'.isDelimiter = false := by
        refine hsignificant ?_ (htext ▸ List.mem_cons_of_mem _ List.mem_cons_self)
        rw [hsplit]
        exact List.mem_append_right _ List.mem_cons_self
      have hname := hcaptures _ List.mem_cons_self
      have hterminator := htexts terminator.text List.mem_cons_self
      rw [hsplit, List.take_left] at hname
      rw [hsplit, List.take_length_add_append, List.take_succ_cons, List.take_zero,
        Token.significantTexts_append, Token.significantTexts_cons_of_significant ht', htext]
      show _ = [name, terminator.text].flatMap b.textsFor
      rw [List.flatMap_cons, List.flatMap_singleton, hname, hterminator]
      rfl

theorem significantTexts_of_readAll? {items : List Item} {ts : List Token} {taken : Nat}
    {captures : List Capture} (h : readAll? items ts = some (taken, captures))
    (hcontent : ∀ item ∈ items, ∀ word ∈ item.content, isLayoutText word = false)
    (hts : ∀ t ∈ ts, t.Lexical) {b : Bindings}
    (htexts : ∀ item ∈ items, ∀ text ∈ item.texts, b.textsFor text = [text])
    (hcaptures : ∀ c ∈ captures, b.textsFor c.name = significantTexts c.span) :
    significantTexts (ts.take taken) = (items.flatMap content).flatMap b.textsFor := by
  induction items generalizing ts taken captures with
  | nil =>
    obtain ⟨rfl, -⟩ := Prod.mk.inj (Option.some.inj h)
    rfl
  | cons item items ih =>
    obtain ⟨hitem, hitems⟩ := List.forall_mem_cons.1 hcontent
    obtain ⟨htext, htexts⟩ := List.forall_mem_cons.1 htexts
    obtain ⟨n, first, more, behind, hfirst, hmore, rfl, rfl⟩ := readAll?_cons_eq_some_iff.1 h
    obtain ⟨hnow, hlater⟩ := List.forall_mem_append.1 hcaptures
    rw [List.take_add, Token.significantTexts_append, List.flatMap_cons, List.flatMap_append,
      significantTexts_of_read? hfirst hitem hts htext hnow,
      ih hmore hitems (fun t ht => hts t (List.mem_of_mem_drop ht)) htexts hlater]

end Item

/-- **An occurrence is put back**, up to layout: where the names bound are kept apart from the
texts of the pattern, the template is expanded to what the occurrence has taken. -/
theorem Rule.Restores.significantTexts_expand {names : List Char → Prop} {r : Rule}
    (hr : r.Restores names) (hlayout : ∀ name, names name → isLayoutText name = false)
    {b b' : Bindings} {ts : List Token} (hts : ∀ t ∈ ts, t.Lexical) {taken : Nat}
    (hm : r.pattern.match? b ts = some (taken, b'))
    (hb' : b'.Within names) (indent : Nat) :
    significantTexts (r.template.expand b' indent) = significantTexts (ts.take taken) := by
  obtain ⟨captures, hread, hagree⟩ := Pattern.exists_read?_of_match? hm
  -- a name stands for its first capture, which has the texts of all the others
  have hcaptures : ∀ c ∈ captures, b'.textsFor c.name = significantTexts c.span := by
    intro c hc
    obtain ⟨bound, hbound, hsame⟩ := hagree c hc
    rw [Bindings.textsFor_of_get?_eq_some hbound, Token.sameSignificant_iff.1 hsame]
  have htexts : ∀ item ∈ r.pattern.items, ∀ text ∈ item.texts, b'.textsFor text = [text] := by
    intro item hitem text htext
    refine Bindings.textsFor_of_get?_eq_none (Option.not_isSome_iff_eq_none.1 fun hsome => ?_)
    exact hr.texts text (List.mem_flatMap.2 ⟨item, hitem, htext⟩) (hb' text hsome)
  rw [Template.significantTexts_expand (fun name h => hlayout name (hb' name h)) hr.tokens,
    hr.significantTexts_eq]
  exact (Item.significantTexts_of_readAll? hread hr.content hts htexts hcaptures).symm

/-! ## Runs -/

namespace Scan

variable {names : List Char → Prop}

/-- All tokens come from text, and only names of a certain kind are bound. -/
structure Named (names : List Char → Prop) (s : Scan) : Prop where
  all : s.All Token.Lexical
  bindings : s.bindings.Within names

namespace Named

variable {s : Scan} {t : Token} {ts : List Token}

theorem copyDelimiter (h : s.Named names) (hrest : s.rest = t :: ts) :
    (s.copyDelimiter t ts).Named names :=
  ⟨h.all.copyDelimiter hrest, h.bindings⟩

theorem copySignificant (h : s.Named names) (hrest : s.rest = t :: ts) (depth : Nat) :
    (s.copySignificant t ts depth).Named names :=
  ⟨h.all.copySignificant hrest depth, h.bindings⟩

theorem replace (h : s.Named names) {r : Rule} (hr : r.Restores names) {taken : Nat}
    {b : Bindings} (hm : r.pattern.match? s.bindings s.rest = some (taken, b)) (role : Role) :
    (s.replace role r taken b).Named names :=
  ⟨h.all.replace Token.lexical_spaces hr.tokens hm role,
    Pattern.within_of_match? hr.captureNames h.bindings hm⟩

theorem inner (h : s.Named names) (f : Rule) : (s.inner f).Named names :=
  ⟨h.all.inner f, h.bindings⟩

theorem resume (h : s.Named names) {u : Scan} (hu : u.All Token.Lexical) :
    (s.resume u).Named names :=
  ⟨h.all.resume hu, h.bindings⟩

end Named

/-- A run keeps tokens that their texts tell apart. -/
theorem Runs.lexical_of_restores {w : Work} {s u : Scan} (h : Runs w s u)
    (hw : w.Everywhere (Rule.Restores names)) (hs : s.All Token.Lexical) : u.All Token.Lexical :=
  h.all Token.lexical_spaces (hw.imp fun _ hr => hr.tokens) hs

/-- Follow-ups keep the bindings, too. -/
theorem Runs.named {rules : List Rule} {s u : Scan} (h : Runs (.followUps rules) s u)
    (hrules : ∀ f ∈ rules, f.Everywhere (Rule.Restores names)) (hs : s.Named names) :
    u.Named names := by
  refine ⟨h.lexical_of_restores hrules hs.all, ?_⟩
  rw [h.eq_of_followUps]
  exact hs.bindings

theorem significantTexts_tokens (s : Scan) :
    significantTexts s.tokens = significantTexts s.written.reverse ++ significantTexts s.rest :=
  Token.significantTexts_append _ _

/-- **One step**: replacing an occurrence keeps the significant texts of the list. -/
theorem significantTexts_replace {s : Scan} (hs : s.Named names)
    (hlayout : ∀ name, names name → isLayoutText name = false) {r : Rule}
    (hr : r.Restores names) {taken : Nat} {b : Bindings}
    (hm : r.pattern.match? s.bindings s.rest = some (taken, b)) (role : Role) :
    significantTexts (s.replace role r taken b).tokens = significantTexts s.tokens := by
  have hput := hr.significantTexts_expand hlayout hs.all.rest hm
    (Pattern.within_of_match? hr.captureNames hs.bindings hm) s.column
  have hrest : significantTexts (s.rest.take taken) ++ significantTexts (s.rest.drop taken) =
      significantTexts s.rest := by
    rw [← Token.significantTexts_append, List.take_append_drop]
  calc significantTexts (s.replace role r taken b).tokens
      = significantTexts s.written.reverse ++
          (significantTexts (r.template.expand b s.column) ++
            significantTexts (s.rest.drop taken)) := by
        simp [Scan.tokens, Scan.replace, List.append_assoc]
    _ = significantTexts s.tokens := by rw [hput, hrest, significantTexts_tokens]

/-- Copying leaves the list as it is. -/
theorem tokens_copy {s : Scan} {t : Token} {ts : List Token} (hrest : s.rest = t :: ts) :
    (s.copy t ts).tokens = s.tokens := by
  simp [tokens, copy, hrest]

/-- Work that comes to an end wherever it is begun.  A scan keeps the significant texts of the
list, and follow-ups keep those that are not yet read. -/
def Keeps (names : List Char → Prop) : Work → Prop
  | .scan role r => ∀ s : Scan, s.Named names →
      ∃ u, Runs (.scan role r) s u ∧ significantTexts u.tokens = significantTexts s.tokens
  | .followUps rules => ∀ s : Scan, s.Named names →
      ∃ u, Runs (.followUps rules) s u ∧ significantTexts u.rest = significantTexts s.rest

/-- **A scan ends and keeps the significant texts, if the follow-ups of its rule do.** -/
theorem exists_runs_scan (hlayout : ∀ name, names name → isLayoutText name = false) {r : Rule}
    (hr : r.Everywhere (Rule.Restores names)) (hfollow : Keeps names (.followUps r.followUps))
    (role : Role) (s : Scan) (hs : s.Named names) :
    ∃ u, Runs (.scan role r) s u ∧ significantTexts u.tokens = significantTexts s.tokens := by
  cases hrest : s.rest with
  | nil => exact ⟨s, ⟨_, .finish hrest⟩, rfl⟩
  | cons t ts =>
    cases ht : t.isDelimiter with
    | true =>
      obtain ⟨u, ⟨_, hu⟩, hkept⟩ := exists_runs_scan hlayout hr hfollow role (s.copyDelimiter t ts)
        (hs.copyDelimiter hrest)
      exact ⟨u, ⟨_, .delimiter hrest ht hu⟩, hkept.trans (congrArg _ (tokens_copy hrest))⟩
    | false =>
      cases hm : r.pattern.match? s.bindings s.rest with
      | none =>
        cases hdepth : depthAfter s.depth t.text with
        | none => exact ⟨s, ⟨_, .stop hrest ht hm hdepth⟩, rfl⟩
        | some depth =>
          obtain ⟨u, ⟨_, hu⟩, hkept⟩ := exists_runs_scan hlayout hr hfollow role
            (s.copySignificant t ts depth) (hs.copySignificant hrest depth)
          exact ⟨u, ⟨_, .significant hrest ht hm hdepth hu⟩,
            hkept.trans (congrArg _ (tokens_copy hrest))⟩
      | some result =>
        obtain ⟨taken, b⟩ := result
        have hreplaced := hs.replace hr.1 hm role
        obtain ⟨v, ⟨_, hv⟩, hunread⟩ := hfollow _ hreplaced
        -- the follow-ups may bring layout, but no significant token in place of those taken
        have hfewer : (significantTexts v.rest).length < (significantTexts s.rest).length := by
          rw [hunread, hrest]
          show (significantTexts (s.rest.drop taken)).length < _
          rw [hrest]
          exact Token.length_significantTexts_drop_lt ht (Pattern.match?_pos hm)
        obtain ⟨u, ⟨_, hu⟩, hkept⟩ := exists_runs_scan hlayout hr hfollow role v
          (hv.runs.named (fun f hf => hr.followUp hf) hreplaced)
        refine ⟨u, ⟨_, .occurrence hrest ht hm hv hu⟩, hkept.trans ?_⟩
        calc significantTexts v.tokens
            = significantTexts (s.replace role r taken b).tokens := by
              rw [significantTexts_tokens, significantTexts_tokens, hunread,
                hv.runs.eq_of_followUps]
          _ = significantTexts s.tokens := significantTexts_replace hs hlayout hr.1 hm role
termination_by ((significantTexts s.rest).length, s.rest.length)
decreasing_by
  -- a significant token is copied, an occurrence is replaced, a delimiter is copied
  · refine Prod.Lex.left _ _ ?_
    rw [hrest, Token.significantTexts_cons_of_significant ht]
    exact Nat.lt_succ_self _
  · exact Prod.Lex.left _ _ hfewer
  · refine Prod.Lex.right' _ (Nat.le_of_eq ?_) ?_
    · rw [hrest, Token.significantTexts_cons_of_isDelimiter ht]
      rfl
    · rw [hrest]
      exact Nat.lt_succ_self _

/-- **Follow-ups end and keep what is not yet read, if the scans with them do.** -/
theorem keeps_followUps {rules : List Rule}
    (hrules : ∀ f ∈ rules, f.Everywhere (Rule.Restores names))
    (hscans : ∀ f ∈ rules, Keeps names (.scan .followUp f)) :
    Keeps names (.followUps rules) := by
  induction rules with
  | nil => exact fun s _ => ⟨s, ⟨_, .done⟩, rfl⟩
  | cons f rules ih =>
    intro s hs
    obtain ⟨hf, hrules⟩ := List.forall_mem_cons.1 hrules
    obtain ⟨hscan, hscans⟩ := List.forall_mem_cons.1 hscans
    obtain ⟨v, ⟨_, hv⟩, hkept⟩ := hscan _ (hs.inner f)
    have hlexical : v.All Token.Lexical := hv.runs.lexical_of_restores hf (hs.inner f).all
    obtain ⟨u, ⟨_, hu⟩, hunread⟩ := ih hrules hscans _ (hs.resume hlexical)
    exact ⟨u, ⟨_, .followUp hv hu⟩, hunread.trans hkept⟩

mutual

/-- **A tree of rules that restore what they take comes to an end** and keeps the significant
texts. -/
theorem keeps_scan (hlayout : ∀ name, names name → isLayoutText name = false) (role : Role) :
    ∀ {r : Rule}, r.Everywhere (Rule.Restores names) → Keeps names (.scan role r)
  | ⟨_, _, followUps, _⟩, hr =>
    exists_runs_scan hlayout hr
      (keeps_followUps (fun _ hf => hr.followUp hf)
        (keeps_scans hlayout followUps fun _ hf => hr.followUp hf)) role

theorem keeps_scans (hlayout : ∀ name, names name → isLayoutText name = false) :
    ∀ rules : List Rule, (∀ f ∈ rules, f.Everywhere (Rule.Restores names)) →
      ∀ f ∈ rules, Keeps names (.scan .followUp f)
  | [], _ => List.forall_mem_nil _
  | _ :: rules, hrules => List.forall_mem_cons.2
    ⟨keeps_scan hlayout .followUp (List.forall_mem_cons.1 hrules).1,
      keeps_scans hlayout rules (List.forall_mem_cons.1 hrules).2⟩

end

end Scan

/-! ## Drafts -/

namespace Draft

/-- Rules of which each comes to an end on every draft with a property, and keeps the property,
come to an end one after the other. -/
theorem exists_foldlM {count : Nat} {Q : Draft → Prop} :
    ∀ {rules : List (Rule × Nat)}, (∀ rule ∈ rules, ∀ d, Q d → ∃ fuel d',
        d.applyRule fuel count rule.1 rule.2 = some d' ∧ Q d') → ∀ d, Q d →
      ∃ fuel d', rules.foldlM (fun d (r, index) => d.applyRule fuel count r index) d = some d' ∧
        Q d'
  | [], _, d, hd => ⟨0, d, rfl, hd⟩
  | (r, index) :: rules, hstep, d, hd => by
    obtain ⟨hfirst, hmore⟩ := List.forall_mem_cons.1 hstep
    obtain ⟨n, d₁, hd₁, hQ⟩ := hfirst d hd
    obtain ⟨m, d', hd', hQ'⟩ := exists_foldlM hmore d₁ hQ
    exact ⟨max n m, d', foldlM_cons_eq_some hd₁ hd', hQ'⟩

/-- The tokens of a draft come from text and have the significant texts of `source`. -/
structure HasCodeOf (source : List Char) (d : Draft) : Prop where
  lexical : ∀ t ∈ d.tokens, t.Lexical
  significantTexts_eq : significantTexts d.tokens = significantTexts (tokenize source)

theorem hasCodeOf_ofTokens_tokenize (source : List Char) :
    (ofTokens (tokenize source)).HasCodeOf source :=
  ⟨fun _ => Token.lexical_of_mem_tokenize, rfl⟩

/-- A rule is applied from empty bindings, so its own names are all that its run can bind. -/
theorem HasCodeOf.exists_applyRule {source : List Char} {d : Draft} (h : d.HasCodeOf source)
    {r : Rule} (hr : r.Everywhere Rule.PutsBack) (hnames : r.NamesApart) (count index : Nat) :
    ∃ fuel d', d.applyRule fuel count r index = some d' ∧ d'.HasCodeOf source := by
  have hrestores := Rule.everywhere_restores hr hnames
  have hstart : (Scan.start .empty [] d.tokens).Named r.Names :=
    ⟨Scan.all_start Bindings.all_empty h.lexical [], Bindings.within_empty _⟩
  obtain ⟨s, hruns, hkept⟩ :=
    Scan.keeps_scan (fun _ h => h.isLayoutText hr) .root hrestores _ hstart
  obtain ⟨fuel, hs⟩ := Scan.exists_run_of_runs hruns
  have hlexical := (hruns.lexical_of_restores hrestores hstart.all).tokens
  exact ⟨fuel, _, applyRule_eq_some_iff.2 ⟨s, hs, rfl⟩, hlexical,
    hkept.trans h.significantTexts_eq⟩

/-- **Rules that put back what they take never change the code.**  Let every rule of every tree
say in its template what it says in its pattern, and let no name of a tree be a literal or a
terminator of that tree.  Then the rules come to an end on every text, and what they leave has the
significant texts of the text, in their order. -/
theorem applyRules_puts_back {rules : List Rule}
    (hrules : ∀ r ∈ rules, r.Everywhere Rule.PutsBack) (hnames : ∀ r ∈ rules, r.NamesApart)
    (source : List Char) :
    ∃ fuel d, (ofTokens (tokenize source)).applyRules fuel rules = some d ∧
      significantTexts d.tokens = significantTexts (tokenize source) := by
  have hstep : ∀ rule ∈ rules.zipIdx, ∀ d : Draft, d.HasCodeOf source → ∃ fuel d',
      d.applyRule fuel rules.length rule.1 rule.2 = some d' ∧ d'.HasCodeOf source := by
    intro rule hrule d hd
    have hr : rule.1 ∈ rules := List.fst_mem_of_mem_zipIdx hrule
    exact hd.exists_applyRule (hrules rule.1 hr) (hnames rule.1 hr) rules.length rule.2
  obtain ⟨fuel, d, hd, hcode⟩ := exists_foldlM hstep _ (hasCodeOf_ofTokens_tokenize source)
  exact ⟨fuel, d, hd, hcode.significantTexts_eq⟩

/-- A definition and the calls behind it are taken and put back: the argument of a call has to be
the value defined, up to layout, and is written with the layout of the definition. -/
theorem definition_and_call_put_back :
    let word (text : String) : Token := ⟨.identifier, text.toList⟩
    let other (c : Char) : Token := ⟨.other, [c]⟩
    let bracket (c : Char) : Token := ⟨.bracket, [c]⟩
    let definition : Pattern := ⟨[.literal (word "let"), .ident ['x'], .literal (other '='),
      .expr ['e'] (other ';')], List.cons_ne_nil _ _⟩
    let application : Pattern := ⟨[.ident ['x'], .literal (bracket '('),
      .expr ['e'] (bracket ')')], List.cons_ne_nil _ _⟩
    let call : Rule := ⟨application, .ofText "x( e )".toList, [], 0⟩
    let define : Rule := ⟨definition, .ofText "let x\n = e;".toList, [call], 0⟩
    let source := "let a = (b;c)+1; a((b; c) + 1);".toList
    (define.Everywhere Rule.PutsBack ∧ define.NamesApart) ∧
      ∃ fuel d, (ofTokens (tokenize source)).applyRules fuel [define] = some d ∧
        significantTexts d.tokens = significantTexts (tokenize source) ∧
        d.text = "let a\n = (b;c)+1; a( (b;c)+1 );".toList ∧
        d.reports.map (fun report => (report.found, report.foundBelow)) = [(1, 1)] := by
  intro word other bracket definition application call define source
  have hdefinition : Pattern.ofText "let ID x = EXPR e ;".toList = .ok definition := by
    have htokens : significant (tokenize "let ID x = EXPR e ;".toList) = [word "let", word "ID",
        word "x", other '=', word "EXPR", word "e", other ';'] := by decide +kernel
    rw [Pattern.ofText, htokens]
    rfl
  have happlication : Pattern.ofText "ID x ( EXPR e )".toList = .ok application := by
    have htokens : significant (tokenize "ID x ( EXPR e )".toList) = [word "ID", word "x",
        bracket '(', word "EXPR", word "e", bracket ')'] := by decide +kernel
    rw [Pattern.ofText, htokens]
    rfl
  have hcall : ∀ {Q : Rule → Prop}, Q define → Q call → define.Everywhere Q := by
    intro Q hdefine hcall
    refine Rule.everywhere_iff.2 ⟨hdefine, List.forall_mem_singleton.2 ?_⟩
    exact Rule.everywhere_iff.2 ⟨hcall, List.forall_mem_nil _⟩
  have hback : define.Everywhere Rule.PutsBack :=
    hcall ⟨⟨⟨_, hdefinition⟩, _, rfl⟩, by decide +kernel⟩
      ⟨⟨⟨_, happlication⟩, _, rfl⟩, by decide +kernel⟩
  have hnames : ∀ {name}, define.Names name → name ∈ [['x'], ['e']] := by
    intro name hname
    have hall : define.Everywhere fun g => ∀ x ∈ g.pattern.captureNames, x ∈ [['x'], ['e']] :=
      hcall (by decide +kernel) (by decide +kernel)
    rcases hname with hname | ⟨g, hg, hname⟩
    · exact hall.1 name hname
    · exact hall.2 g hg name hname
  have hapart : define.NamesApart := by
    have hall : define.Everywhere fun g => ∀ text ∈ g.pattern.texts, text ∉ [['x'], ['e']] :=
      hcall (by decide +kernel) (by decide +kernel)
    exact hall.imp fun g hg text htext hname => hg text htext (hnames hname)
  obtain ⟨fuel, d, hd, htexts⟩ := applyRules_puts_back
    (List.forall_mem_singleton.2 hback) (List.forall_mem_singleton.2 hapart) source
  obtain ⟨d', hd', hresult⟩ : ∃ d', (ofTokens (tokenize source)).applyRules 40 [define] = some d' ∧
      (d'.text, d'.reports.map fun report => (report.found, report.foundBelow)) =
        ("let a\n = (b;c)+1; a( (b;c)+1 );".toList, [(1, 1)]) := by
    refine Option.map_eq_some_iff.1 (?_ : Option.map _ _ = some _)
    decide +kernel
  obtain rfl : d = d' := applyRules_unique hd hd'
  obtain ⟨htext, hfound⟩ := Prod.mk.inj hresult
  exact ⟨⟨hback, hapart⟩, fuel, d, hd, htexts, htext, hfound⟩

end Draft

end TokenEdit
