import TokenEdit.Proofs.Captures
import TokenEdit.Proofs.Reachable
import TokenEdit.Proofs.RuleTree

/-!
# Capture names are hygienic

The names of captures are compared with each other as plain texts, and a template is a list of
tokens some of which happen to have the text of a name.  Nothing in a scan tells the two apart: a
template token stands for captured tokens exactly if its text is bound when the template is put
in.  Other names for the captures could therefore change what a rule does, by catching a text of a
template or by joining two names that were different.

They do not when the names stay different and no new name is a text that a template already has.
Then every look-up in the renamed tree finds what the same look-up finds in the tree itself.  For
this it has to be known which names are bound when a template is put in: those of the rule, since
it has just occurred, and those of the rules above it, since they have occurred around it.  A tree
whose templates use no other names is the subject here.

* `Rule.Supplied`: a template uses names of its own rule or of a rule above it.
* `Rule.RenamedBy`: what is asked of other names for the captures of a tree.
* `Bindings.get?_rename`: a look-up under a renamed name.
* `Scan.step_rename`, `Scan.run_rename`: one step and whole runs, with the names and with the
  other names.
* `Rule.apply_renamed_captures`: the statement for the application of a rule.
-/

namespace TokenEdit

/-! ## Other names -/

/-- The capture under another name. -/
def Capture.rename (f : List Char → List Char) (c : Capture) : Capture :=
  { c with name := f c.name }

/-- The item with another name for its capture.  A token that has to appear stays as it is. -/
def Item.rename (f : List Char → List Char) : Item → Item
  | literal t => literal t
  | ident name => ident (f name)
  | expr name terminator => expr (f name) terminator

/-- The pattern with other names for its captures. -/
def Pattern.rename (f : List Char → List Char) (p : Pattern) : Pattern where
  items := p.items.map (Item.rename f)
  items_ne_nil := fun h => p.items_ne_nil (List.map_eq_nil_iff.1 h)

/-- The template with other texts on its tokens. -/
def Template.rename (f : List Char → List Char) (template : Template) : Template :=
  ⟨template.tokens.map fun t => { t with text := f t.text }⟩

/-- The bindings with other names, in the table and in the journal. -/
def Bindings.rename (f : List Char → List Char) (b : Bindings) : Bindings where
  entries := b.entries.map fun entry => (f entry.1, entry.2)
  journal := b.journal.map f

/-- The scan with other names for what is bound. -/
def Scan.rename (f : List Char → List Char) (s : Scan) : Scan :=
  { s with bindings := s.bindings.rename f }

namespace Rule

mutual

/-- The rule with other names for the captures, in its pattern, in its template and in all rules
below it. -/
def rename (f : List Char → List Char) : Rule → Rule
  | ⟨pattern, template, followUps, line⟩ =>
    ⟨pattern.rename f, template.rename f, renameAll f followUps, line⟩

/-- The rules of a list with other names for their captures. -/
def renameAll (f : List Char → List Char) : List Rule → List Rule
  | [] => []
  | r :: rs => r.rename f :: renameAll f rs

end

variable (f : List Char → List Char)

theorem renameAll_eq_map : ∀ rules : List Rule, renameAll f rules = rules.map (rename f)
  | [] => by rw [renameAll, List.map_nil]
  | r :: rules => by rw [renameAll, renameAll_eq_map rules, List.map_cons]

@[simp] theorem pattern_rename (r : Rule) : (r.rename f).pattern = r.pattern.rename f := by
  cases r
  rw [rename]

@[simp] theorem template_rename (r : Rule) : (r.rename f).template = r.template.rename f := by
  cases r
  rw [rename]

@[simp] theorem followUps_rename (r : Rule) :
    (r.rename f).followUps = r.followUps.map (rename f) := by
  cases r
  rw [rename, renameAll_eq_map]

@[simp] theorem line_rename (r : Rule) : (r.rename f).line = r.line := by
  cases r
  rw [rename]

end Rule

/-! ## Look-ups -/

namespace Bindings

variable {f : List Char → List Char}

/-- **A look-up under a renamed name** finds what the look-up under the name finds, unless the
name is confused with another one that is bound. -/
theorem get?_rename {b : Bindings} {x : List Char}
    (h : ∀ y, (b.get? y).isSome → f y = f x → y = x) : (b.rename f).get? (f x) = b.get? x := by
  obtain ⟨entries, journal⟩ := b
  induction entries with
  | nil => rfl
  | cons entry entries ih =>
    obtain ⟨y, span⟩ := entry
    have hcons : ∀ z, get? ⟨(y, span) :: entries, journal⟩ z =
        if z = y then some span else get? ⟨entries, journal⟩ z :=
      get?_insert ⟨entries, journal⟩ y span
    have hcons' : (rename f ⟨(y, span) :: entries, journal⟩).get? (f x) =
        if f x = f y then some span else (rename f ⟨entries, journal⟩).get? (f x) :=
      get?_insert (rename f ⟨entries, journal⟩) (f y) span (f x)
    rw [hcons, hcons']
    by_cases hx : x = y
    · rw [if_pos hx, if_pos (congrArg f hx)]
    · have hfx : f x ≠ f y := by
        intro heq
        exact hx (h y (by rw [hcons, if_pos rfl]; rfl) heq.symm).symm
      rw [if_neg hx, if_neg hfx]
      refine ih fun z hz heq => h z ?_ heq
      rw [hcons]
      split
      · rfl
      · exact hz

theorem rename_insert (b : Bindings) (name : List Char) (span : List Token) :
    (b.insert name span).rename f = (b.rename f).insert (f name) span := by
  simp [rename, insert]

section Binding

variable {names : List Char → Prop}
  (hinj : ∀ x y, names x → names y → f x = f y → x = y)
include hinj

theorem bind?_rename {b : Bindings} (hb : b.Within names) {name : List Char} (hname : names name)
    (span : List Token) :
    (b.rename f).bind? (f name) span = (b.bind? name span).map (rename f) := by
  have hget : (b.rename f).get? (f name) = b.get? name :=
    get?_rename fun y hy => hinj y name (hb y hy) hname
  cases h : b.get? name with
  | none =>
    rw [bind?_of_get?_eq_none h, bind?_of_get?_eq_none (hget.trans h), Option.map_some,
      rename_insert]
  | some bound =>
    rw [bind?_of_get?_eq_some h, bind?_of_get?_eq_some (hget.trans h)]
    split <;> rfl

theorem bindAll?_rename {b : Bindings} (hb : b.Within names) {captures : List Capture}
    (hcaptures : ∀ c ∈ captures, names c.name) :
    (b.rename f).bindAll? (captures.map (Capture.rename f)) =
      (b.bindAll? captures).map (rename f) := by
  induction captures generalizing b with
  | nil => rfl
  | cons c captures ih =>
    obtain ⟨hc, hcaptures⟩ := List.forall_mem_cons.1 hcaptures
    have hfirst : (b.rename f).bind? (c.rename f).name (c.rename f).span =
        (b.bind? c.name c.span).map (rename f) := bind?_rename hinj hb hc c.span
    rw [List.map_cons, bindAll?, bindAll?, List.foldlM_cons, List.foldlM_cons, hfirst]
    cases hb₁ : b.bind? c.name c.span with
    | none => rfl
    | some b₁ => exact ih (hb.of_bind? hc hb₁) hcaptures

end Binding

end Bindings

/-! ## Occurrences -/

namespace Item

variable (f : List Char → List Char)

/-- A reading with the captures under other names. -/
def renameReading (reading : Nat × List Capture) : Nat × List Capture :=
  (reading.1, reading.2.map (Capture.rename f))

theorem readHere?_rename (item : Item) (ts : List Token) :
    (item.rename f).readHere? ts = (item.readHere? ts).map (renameReading f) := by
  cases ts with
  | nil => cases item <;> rfl
  | cons t ts =>
    cases item with
    | literal l | ident name =>
      simp only [rename, readHere?]
      split <;> rfl
    | expr name terminator =>
      simp only [rename, readHere?, Option.map_map]
      rfl

theorem read?_rename (item : Item) (ts : List Token) :
    (item.rename f).read? ts = (item.read? ts).map (renameReading f) := by
  simp only [read?, readHere?_rename, Option.map_map]
  rfl

/-- Which tokens are read does not depend on the names. -/
theorem readAll?_rename (items : List Item) (ts : List Token) :
    readAll? (items.map (rename f)) ts = (readAll? items ts).map (renameReading f) := by
  induction items generalizing ts with
  | nil => rfl
  | cons item items ih =>
    rw [List.map_cons, readAll?, readAll?, read?_rename]
    cases hfirst : item.read? ts with
    | none => rfl
    | some reading =>
      obtain ⟨taken, first⟩ := reading
      simp only [Option.map_some, Option.bind_eq_bind, Option.bind_some, renameReading, ih]
      cases readAll? items (ts.drop taken) with
      | none => rfl
      | some reading => simp [renameReading]

end Item

namespace Pattern

/-- **The pattern with other names occurs where the pattern occurs**, and binds the same tokens. -/
theorem match?_rename {f : List Char → List Char} {names : List Char → Prop}
    (hinj : ∀ x y, names x → names y → f x = f y → x = y) {p : Pattern}
    (hp : ∀ x ∈ p.captureNames, names x) {b : Bindings} (hb : b.Within names) (ts : List Token) :
    (p.rename f).match? (b.rename f) ts =
      (p.match? b ts).map fun (taken, b') => (taken, b'.rename f) := by
  have hread : (p.rename f).read? ts = (p.read? ts).map (Item.renameReading f) :=
    Item.readAll?_rename f p.items ts
  rw [match?_eq, match?_eq, hread]
  cases h : p.read? ts with
  | none => rfl
  | some reading =>
    obtain ⟨taken, captures⟩ := reading
    have hcaptures : ∀ c ∈ captures, names c.name := fun c hc =>
      hp c.name ((mem_captureNames_of_read? h).2 ⟨c, hc, rfl⟩)
    simp only [Option.map_some, Option.bind_some, Item.renameReading,
      Bindings.bindAll?_rename hinj hb hcaptures, Option.map_map]
    rfl

end Pattern

/-! ## Trees whose templates use the names that are bound -/

namespace Rule

/-- Every text of a template that is one of `names` is the name of a capture of its own rule, of a
rule above it, or one of `outer`. -/
inductive Supplied (names : List Char → Prop) : (outer : List (List Char)) → Rule → Prop
  | intro {outer : List (List Char)} {r : Rule}
      (template : ∀ t ∈ r.template.tokens, names t.text →
        t.text ∈ r.pattern.captureNames ++ outer)
      (followUps : ∀ g ∈ r.followUps, Supplied names (r.pattern.captureNames ++ outer) g) :
      Supplied names outer r

/-- What is asked of other names for the captures of a tree.  No other text is changed, the names
stay different, and no new name is a text of a template that is not itself renamed. -/
structure RenamedBy (f : List Char → List Char) (r : Rule) : Prop where
  fixed : ∀ x, ¬ r.Names x → f x = x
  injective : ∀ x y, r.Names x → r.Names y → f x = f y → x = y
  fresh : r.Everywhere fun g => ∀ t ∈ g.template.tokens, ¬ r.Names t.text →
    ∀ x, r.Names x → f x ≠ t.text

/-- What other names for `names` need to know of a single rule: it captures under such names, and
a text of its template that is no such name stays, and stays apart from the new names. -/
structure Tolerates (names : List Char → Prop) (f : List Char → List Char) (r : Rule) : Prop where
  captures : ∀ x ∈ r.pattern.captureNames, names x
  texts : ∀ t ∈ r.template.tokens, ¬ names t.text →
    f t.text = t.text ∧ ∀ x, names x → f x ≠ t.text

theorem RenamedBy.tolerates {f : List Char → List Char} {r : Rule} (h : r.RenamedBy f) :
    r.Everywhere (Tolerates r.Names f) := by
  refine (r.everywhere_names.and h.fresh).imp fun g ⟨hnames, hfresh⟩ => ⟨hnames, ?_⟩
  intro t ht hname
  exact ⟨h.fixed t.text hname, hfresh t ht hname⟩

end Rule

/-- The names in `outer` are bound, and only `names` are. -/
structure Bindings.Between (outer : List (List Char)) (names : List Char → Prop) (b : Bindings) :
    Prop where
  bound : ∀ x ∈ outer, (b.get? x).isSome
  within : b.Within names

theorem Bindings.Between.of_match? {outer : List (List Char)} {names : List Char → Prop}
    {b b' : Bindings} (hb : b.Between outer names) {p : Pattern}
    (hp : ∀ x ∈ p.captureNames, names x) {ts : List Token} {taken : Nat}
    (h : p.match? b ts = some (taken, b')) : b'.Between (p.captureNames ++ outer) names := by
  refine ⟨List.forall_mem_append.2 ⟨Pattern.isSome_get?_of_match? h, fun x hx => ?_⟩,
    Pattern.within_of_match? hp hb.within h⟩
  obtain ⟨bound, hbound⟩ := Option.isSome_iff_exists.1 (hb.bound x hx)
  rw [(Pattern.extends_of_match? h).get? hbound]
  rfl

theorem Bindings.Between.outer {inner outer : List (List Char)} {names : List Char → Prop}
    {b : Bindings} (hb : b.Between (inner ++ outer) names) : b.Between outer names :=
  ⟨fun x hx => hb.bound x (List.mem_append_right inner hx), hb.within⟩

/-- **The template with other names puts in the same tokens.**  A name that it uses is bound; any
other text is neither a name nor a new name. -/
theorem Template.expand_rename {names : List Char → Prop} {f : List Char → List Char}
    (hinj : ∀ x y, names x → names y → f x = f y → x = y) {r : Rule} (hr : r.Tolerates names f)
    {bound : List (List Char)} (hbound : ∀ t ∈ r.template.tokens, names t.text → t.text ∈ bound)
    {b : Bindings} (hb : b.Between bound names) (indent : Nat) :
    (r.template.rename f).expand (b.rename f) indent = r.template.expand b indent := by
  rw [expand, expand, rename, List.flatMap_map, List.flatMap_def, List.flatMap_def]
  congr 1
  refine List.map_congr_left fun t ht => ?_
  -- only the capture is at stake: the margin looks at the kind of the token
  suffices hspan : ((b.rename f).get? (f t.text)).getD [{ t with text := f t.text }] =
      (b.get? t.text).getD [t] from congrArg (· ++ margin indent t) hspan
  by_cases hname : names t.text
  · have hget : (b.rename f).get? (f t.text) = b.get? t.text :=
      Bindings.get?_rename fun y hy => hinj y t.text (hb.within y hy) hname
    obtain ⟨span, hspan⟩ := Option.isSome_iff_exists.1 (hb.bound t.text (hbound t ht hname))
    rw [hget, hspan]
    rfl
  · obtain ⟨hfixed, hfresh⟩ := hr.texts t ht hname
    have hget : (b.rename f).get? (f t.text) = b.get? t.text := by
      refine Bindings.get?_rename fun y hy heq => ?_
      exact absurd (heq.trans hfixed) (hfresh y (hb.within y hy))
    rw [hget, hfixed]

/-! ## Runs -/

namespace Scan

variable {f : List Char → List Char} {names : List Char → Prop}

/-- **One step, with the names and with the other names.**  Both scans halt, or both copy the same
token, or both replace the same occurrence and put in the same tokens. -/
theorem step_rename (hinj : ∀ x y, names x → names y → f x = f y → x = y) {r : Rule}
    (hr : r.Tolerates names f) {outer : List (List Char)} (hsupplied : r.Supplied names outer)
    {s : Scan} (hs : s.bindings.Between outer names) (role : Role) :
    (s.step role r = .halt ∧ (s.rename f).step role (r.rename f) = .halt) ∨
    (∃ u, u.bindings = s.bindings ∧ s.step role r = .copy u ∧
      (s.rename f).step role (r.rename f) = .copy (u.rename f)) ∨
    (∃ u, u.bindings.Between (r.pattern.captureNames ++ outer) names ∧
      s.step role r = .replace u ∧
      (s.rename f).step role (r.rename f) = .replace (u.rename f)) := by
  have hmatch : (r.rename f).pattern.match? (s.rename f).bindings (s.rename f).rest =
      (r.pattern.match? s.bindings s.rest).map fun (taken, b) => (taken, b.rename f) := by
    rw [Rule.pattern_rename]
    exact Pattern.match?_rename hinj hr.captures hs.within s.rest
  cases hrest : s.rest with
  | nil => exact .inl ⟨step_of_rest_eq_nil hrest, step_of_rest_eq_nil hrest⟩
  | cons t ts =>
    have hrest' : (s.rename f).rest = t :: ts := hrest
    cases ht : t.isDelimiter with
    | true =>
      exact .inr (.inl ⟨s.copyDelimiter t ts, rfl, step_of_isDelimiter hrest ht,
        step_of_isDelimiter hrest' ht⟩)
    | false =>
      cases hm : r.pattern.match? s.bindings s.rest with
      | none =>
        rw [hm] at hmatch
        have hstep : s.step role r = s.pass t ts := step_of_match?_eq_none hrest ht hm
        have hstep' : (s.rename f).step role (r.rename f) = (s.rename f).pass t ts :=
          step_of_match?_eq_none hrest' ht hmatch
        cases hdepth : depthAfter s.depth t.text with
        | none =>
          have hdepth' : depthAfter (s.rename f).depth t.text = none := hdepth
          exact .inl ⟨hstep.trans (pass_of_depthAfter_eq_none hdepth ts),
            hstep'.trans (pass_of_depthAfter_eq_none hdepth' ts)⟩
        | some depth =>
          have hdepth' : depthAfter (s.rename f).depth t.text = some depth := hdepth
          exact .inr (.inl ⟨s.copySignificant t ts depth, rfl,
            hstep.trans (pass_of_depthAfter_eq_some hdepth ts),
            hstep'.trans (pass_of_depthAfter_eq_some hdepth' ts)⟩)
      | some result =>
        obtain ⟨taken, b⟩ := result
        rw [hm] at hmatch
        have hb : b.Between (r.pattern.captureNames ++ outer) names :=
          hs.of_match? hr.captures hm
        refine .inr (.inr ⟨s.replace role r taken b, hb, step_of_match?_eq_some hrest ht hm, ?_⟩)
        obtain ⟨htemplate, -⟩ := hsupplied
        rw [step_of_match?_eq_some hrest' ht hmatch, replace, Rule.template_rename,
          Rule.line_rename]
        have hexpand := Template.expand_rename hinj hr htemplate hb s.column
        simp only [rename, replace, hexpand]

/-- The follow-ups run alike when each of them does, from the bindings of the occurrence. -/
theorem run_followUps_rename {fuel : Nat} :
    ∀ {rules : List Rule} {s : Scan},
      (∀ g ∈ rules, ∀ u : Scan, u.bindings = s.bindings →
        run fuel .followUp (g.rename f) (u.rename f) =
          (run fuel .followUp g u).map (rename f)) →
      (Work.followUps (rules.map (Rule.rename f))).run fuel (s.rename f) =
        ((Work.followUps rules).run fuel s).map (rename f)
  | [], s, _ => rfl
  | g :: rules, s, hscan => by
    obtain ⟨hg, hrules⟩ := List.forall_mem_cons.1 hscan
    have hinner : (s.rename f).inner (g.rename f) = (s.inner g).rename f := by
      rw [inner, Rule.line_rename]
      rfl
    rw [List.map_cons, Work.run, Work.run, List.foldlM_cons, List.foldlM_cons, hinner,
      hg (s.inner g) rfl]
    cases run fuel .followUp g (s.inner g) with
    | none => rfl
    | some u => exact run_followUps_rename (s := s.resume u) hrules

/-- **Runs with the names and with the other names are alike**, whatever the bound on their steps.
The induction is on the bound; a follow-up runs with a smaller one, and with more names bound. -/
theorem run_rename (hinj : ∀ x y, names x → names y → f x = f y → x = y) {fuel : Nat}
    {role : Role} {r : Rule} (hr : r.Everywhere (Rule.Tolerates names f))
    {outer : List (List Char)} (hsupplied : r.Supplied names outer) {s : Scan}
    (hs : s.bindings.Between outer names) :
    run fuel role (r.rename f) (s.rename f) = (run fuel role r s).map (rename f) := by
  induction fuel generalizing role r outer s with
  | zero => rfl
  | succ fuel ih =>
    rw [run, run]
    rcases step_rename hinj hr.1 hsupplied hs role with
      ⟨hstep, hstep'⟩ | ⟨u, hu, hstep, hstep'⟩ | ⟨u, hu, hstep, hstep'⟩
    · rw [hstep, hstep']
      rfl
    · rw [hstep, hstep']
      exact ih hr hsupplied (hu ▸ hs)
    · have hfollow : (Work.followUps (r.rename f).followUps).run fuel (u.rename f) =
          ((Work.followUps r.followUps).run fuel u).map (rename f) := by
        obtain ⟨-, hbelow⟩ := hsupplied
        rw [Rule.followUps_rename]
        refine run_followUps_rename fun g hg v hv => ?_
        exact ih (hr.followUp hg) (hbelow g hg) (hv ▸ hu)
      rw [hstep, hstep']
      change Option.bind ((Work.followUps (r.rename f).followUps).run fuel (u.rename f)) _ =
        Option.map _ (Option.bind ((Work.followUps r.followUps).run fuel u) _)
      rw [hfollow]
      cases hv : (Work.followUps r.followUps).run fuel u with
      | none => rfl
      | some v =>
        have hbindings : v.bindings = u.bindings :=
          (runs_followUps runs_of_run hv).bindings_of_followUps
        exact ih hr hsupplied (hbindings ▸ hu.outer)

end Scan

/-- **Capture names are hygienic.**

Let every text of a template that is the name of a capture anywhere in a tree of rules be the name
of a capture of its own rule or of a rule above it.  Let the names be replaced by others that are
as different from each other, none of them a text that stays in a template.  Then for all tokens
the application of the renamed tree comes to an end if and only if that of the tree does.  It
leaves the same tokens, it finds the same occurrences, those of the rule and those of the rules
below it, and at the end the same tokens are bound to the new names, in the same order. -/
theorem Rule.apply_renamed_captures {r : Rule} (hr : r.Supplied r.Names [])
    {f : List Char → List Char} (hf : r.RenamedBy f) (ts : List Token) :
    ((∃ fuel s', (r.rename f).apply fuel .empty ts = some s') ↔
      ∃ fuel s, r.apply fuel .empty ts = some s) ∧
    ∀ {fuel fuel' : Nat} {s s' : Scan}, r.apply fuel .empty ts = some s →
      (r.rename f).apply fuel' .empty ts = some s' →
        s'.tokens = s.tokens ∧ s'.events = s.events ∧
          (∀ role, s'.matchCount role = s.matchCount role) ∧
          s'.bindings = s.bindings.rename f := by
  have hstart : (Scan.start .empty [] ts).bindings.Between [] r.Names :=
    ⟨List.forall_mem_nil _, Bindings.within_empty r.Names⟩
  have halike (fuel : Nat) :
      (r.rename f).apply fuel .empty ts = (r.apply fuel .empty ts).map (Scan.rename f) :=
    Scan.run_rename hf.injective hf.tolerates hr hstart
  refine ⟨⟨?_, ?_⟩, ?_⟩
  · rintro ⟨fuel, s', h⟩
    rw [halike] at h
    obtain ⟨s, hs, -⟩ := Option.map_eq_some_iff.1 h
    exact ⟨fuel, s, hs⟩
  · rintro ⟨fuel, s, h⟩
    exact ⟨fuel, s.rename f, by rw [halike, h, Option.map_some]⟩
  · intro fuel fuel' s s' hs hs'
    rw [halike] at hs'
    obtain ⟨u, hu, rfl⟩ := Option.map_eq_some_iff.1 hs'
    obtain rfl : s = u := Scan.run_unique hs hu
    exact ⟨rfl, rfl, fun _ => rfl, rfl⟩

/-- The names of a definition change places, and the name of a call below it becomes a word that
the definition starts with.  The call has no capture `x`: it puts in what the definition bound. -/
theorem Rule.definition_and_call_renamed :
    let word (text : String) : Token := ⟨.identifier, text.toList⟩
    let other (c : Char) : Token := ⟨.other, [c]⟩
    let bracket (c : Char) : Token := ⟨.bracket, [c]⟩
    let call : Rule := ⟨⟨[.ident ['g'], .literal (bracket '('), .expr ['e'] (bracket ')')],
      List.cons_ne_nil _ _⟩, .ofText "g[x]".toList, [], 0⟩
    let define : Rule := ⟨⟨[.literal (word "let"), .ident ['x'], .literal (other '='),
      .expr ['e'] (other ';')], List.cons_ne_nil _ _⟩, .ofText "x := e;".toList, [call], 0⟩
    let f (name : List Char) : List Char :=
      if name = ['x'] then ['e'] else if name = ['e'] then ['x']
      else if name = ['g'] then "let".toList else name
    let source := tokenize "let a = (b;c)+1; h((b; c) + 1);".toList
    define.Supplied define.Names [] ∧ define.RenamedBy f ∧
      ∃ fuel s s', define.apply 40 .empty source = some s ∧
        (define.rename f).apply fuel .empty source = some s' ∧
        Token.render s'.tokens = "a := (b;c)+1; h[a];".toList ∧ s'.tokens = s.tokens ∧
        s'.matchCount .followUp = 1 ∧ s'.bindings = s.bindings.rename f ∧
        s'.bindings.journal = [['e'], ['x']] := by
  intro word other bracket call define f source
  have htree : ∀ {Q : Rule → Prop}, Q define → Q call → define.Everywhere Q := by
    intro Q hdefine hcall
    refine Rule.everywhere_iff.2 ⟨hdefine, List.forall_mem_singleton.2 ?_⟩
    exact Rule.everywhere_iff.2 ⟨hcall, List.forall_mem_nil _⟩
  have hnames : ∀ x, define.Names x ↔ x ∈ [['x'], ['e'], ['g']] := by
    intro x
    constructor
    · have hall : define.Everywhere fun g => ∀ x ∈ g.pattern.captureNames,
          x ∈ [['x'], ['e'], ['g']] := htree (by decide +kernel) (by decide +kernel)
      rintro (hx | ⟨g, hg, hx⟩)
      · exact hall.1 x hx
      · exact hall.2 g hg x hx
    · have hall : ∀ x ∈ [['x'], ['e'], ['g']],
          x ∈ define.pattern.captureNames ∨ x ∈ call.pattern.captureNames := by decide +kernel
      intro hx
      exact (hall x hx).imp_right fun hx => ⟨call, .followUp (List.mem_singleton.2 rfl), hx⟩
  have hsupplied : define.Supplied define.Names [] := by
    rw [show define.Names = (· ∈ [['x'], ['e'], ['g']]) from funext fun x => propext (hnames x)]
    refine .intro (by decide +kernel) (List.forall_mem_singleton.2 (.intro ?_ ?_))
    · decide +kernel
    · exact List.forall_mem_nil _
  have hrenamed : define.RenamedBy f := by
    refine ⟨fun x hx => ?_, fun x y hx hy => ?_, ?_⟩
    · rw [hnames, List.mem_cons, List.mem_cons, List.mem_singleton, not_or, not_or] at hx
      rw [show f x = _ from if_neg hx.1, if_neg hx.2.1, if_neg hx.2.2]
    · have hall : ∀ x ∈ [['x'], ['e'], ['g']], ∀ y ∈ [['x'], ['e'], ['g']],
          f x = f y → x = y := by decide +kernel
      exact hall x ((hnames x).1 hx) y ((hnames y).1 hy)
    · have hall : define.Everywhere fun g => ∀ t ∈ g.template.tokens,
          t.text ∉ [['x'], ['e'], ['g']] → ∀ x ∈ [['x'], ['e'], ['g']], f x ≠ t.text :=
        htree (by decide +kernel) (by decide +kernel)
      refine hall.imp fun g hg t ht htext x hx => ?_
      exact hg t ht (mt (hnames t.text).2 htext) x ((hnames x).1 hx)
  obtain ⟨s, hs, heq⟩ : ∃ s, define.apply 40 .empty source = some s ∧
      (Token.render s.tokens, s.matchCount .followUp, s.bindings.journal) =
        ("a := (b;c)+1; h[a];".toList, 1, [['x'], ['e']]) := by
    refine Option.map_eq_some_iff.1 (?_ : Option.map _ _ = some _)
    decide +kernel
  obtain ⟨htext, heq⟩ := Prod.mk.inj heq
  obtain ⟨hcount, hjournal⟩ := Prod.mk.inj heq
  obtain ⟨hends, hsame⟩ := Rule.apply_renamed_captures hsupplied hrenamed source
  obtain ⟨fuel, s', hs'⟩ := hends.2 ⟨40, s, hs⟩
  obtain ⟨htokens, -, hcounts, hbindings⟩ := hsame hs hs'
  refine ⟨hsupplied, hrenamed, fuel, s, s', hs, hs', ?_, htokens, ?_, hbindings, ?_⟩
  · rw [htokens, htext]
  · rw [hcounts, hcount]
  · rw [hbindings, Bindings.rename, hjournal]
    rfl

end TokenEdit
