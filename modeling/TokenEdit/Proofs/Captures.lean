import TokenEdit.Proofs.Occurrence

/-!
# What an occurrence captures

An attempt at a pattern takes tokens and binds captures in one go, item by item.  The two can be
told apart.  Which tokens an item takes, and which of them it captures, is read off the tokens
alone; the bindings only decide whether the captures agree with what is bound.  So an occurrence
is a reading of the tokens (`Pattern.read?`) whose captures can be bound one after the other
(`Bindings.bindAll?`).

What captures do to bindings is then a statement about a list of names with spans.

* `Pattern.match?_eq_some_iff`: an occurrence is a reading with captures that agree.
* `Bindings.journal_of_bindAll?`: the names entered are the names captured and not yet bound, in
  the order of their first appearance.
* `Bindings.agrees_of_bindAll?`: every capture agrees with what its name stands for at the end.
* `Bindings.eq_of_bindAll?`: captures under bound names change nothing.
* `Bindings.Within`: bounds for the names that are bound.
-/

namespace TokenEdit

/-- Tokens captured under a name. -/
structure Capture where
  name : List Char
  span : List Token
  deriving DecidableEq

/-! ## Names and texts of a pattern -/

/-- The texts that an item names: that of a token, or that of a terminator. -/
def Item.texts : Item → List (List Char)
  | literal t => [t.text]
  | ident _ => []
  | expr _ terminator => [terminator.text]

namespace Pattern

/-- The texts that a pattern names. -/
def texts (p : Pattern) : List (List Char) :=
  p.items.flatMap Item.texts

theorem exists_item_of_mem_captureNames {p : Pattern} {name : List Char}
    (h : name ∈ p.captureNames) : ∃ item ∈ p.items, item.captureName? = some name :=
  List.mem_filterMap.1 (List.mem_eraseDups.1 h)

end Pattern

/-! ## Reading without bindings -/

namespace Item

/-- The number of tokens that an item takes, and its capture, where the tokens do not start with a
delimiter. -/
def readHere? : Item → List Token → Option (Nat × List Capture)
  | _, [] => none
  | literal l, t :: _ => if t.text = l.text then some (1, []) else none
  | ident name, t :: _ => if t.kind = .identifier then some (1, [⟨name, [t]⟩]) else none
  | expr name terminator, ts =>
    (spanLength? terminator.text ts).map fun length => (length + 1, [⟨name, ts.take length⟩])

/-- The number of tokens that an item takes, with any delimiters in front of it, and its
capture. -/
def read? (item : Item) (ts : List Token) : Option (Nat × List Capture) :=
  (item.readHere? (ts.dropWhile Token.isDelimiter)).map fun (taken, captures) =>
    ((ts.takeWhile Token.isDelimiter).length + taken, captures)

/-- The number of tokens that items take, one behind the other, and their captures in order. -/
def readAll? : List Item → List Token → Option (Nat × List Capture)
  | [], _ => some (0, [])
  | item :: items, ts => do
    let (taken, captures) ← item.read? ts
    let (more, captures') ← readAll? items (ts.drop taken)
    return (taken + more, captures ++ captures')

theorem readAll?_cons_eq_some_iff {item : Item} {items : List Item} {ts : List Token} {n : Nat}
    {captures : List Capture} :
    readAll? (item :: items) ts = some (n, captures) ↔
      ∃ taken first more behind, item.read? ts = some (taken, first) ∧
        readAll? items (ts.drop taken) = some (more, behind) ∧ n = taken + more ∧
          captures = first ++ behind := by
  rw [readAll?, Option.bind_eq_bind, Option.bind_eq_some_iff]
  constructor
  · rintro ⟨⟨taken, first⟩, hfirst, h⟩
    obtain ⟨⟨more, behind⟩, hmore, heq⟩ := Option.bind_eq_some_iff.1 h
    obtain ⟨rfl, rfl⟩ := Prod.mk.inj (Option.some.inj heq)
    exact ⟨taken, first, more, behind, hfirst, hmore, rfl, rfl⟩
  · rintro ⟨taken, first, more, behind, hfirst, hmore, rfl, rfl⟩
    exact ⟨(taken, first), hfirst, Option.bind_eq_some_iff.2 ⟨(more, behind), hmore, rfl⟩⟩

/-- An item is read behind the delimiters in front of it. -/
theorem exists_readHere?_of_read? {item : Item} {ts : List Token} {taken : Nat}
    {captures : List Capture} (h : item.read? ts = some (taken, captures)) :
    ∃ front here n, ts = front ++ here ∧ (∀ t ∈ front, t.isDelimiter = true) ∧
      item.readHere? here = some (n, captures) ∧ ts.take taken = front ++ here.take n := by
  obtain ⟨⟨n, captures'⟩, hhere, heq⟩ := Option.map_eq_some_iff.1 h
  obtain ⟨rfl, rfl⟩ := Prod.mk.inj heq
  have hsplit : ts.takeWhile Token.isDelimiter ++ ts.dropWhile Token.isDelimiter = ts :=
    List.takeWhile_append_dropWhile
  have htake : (ts.takeWhile Token.isDelimiter ++ ts.dropWhile Token.isDelimiter).take
      ((ts.takeWhile Token.isDelimiter).length + n) =
        ts.takeWhile Token.isDelimiter ++ (ts.dropWhile Token.isDelimiter).take n :=
    List.take_length_add_append n
  rw [hsplit] at htake
  exact ⟨_, _, n, hsplit.symm, List.all_eq_true.1 List.all_takeWhile, hhere, htake⟩

/-- An item captures under its own name and under no other, and what it captures are tokens of the
list. -/
theorem captures_of_read? {item : Item} {ts : List Token} {taken : Nat} {captures : List Capture}
    (h : item.read? ts = some (taken, captures)) :
    captures.map Capture.name = item.captureName?.toList ∧ ∀ c ∈ captures, c.span ⊆ ts := by
  obtain ⟨front, here, n, rfl, -, hhere, -⟩ := exists_readHere?_of_read? h
  have hsub : here ⊆ front ++ here := List.subset_append_right front here
  cases here with
  | nil => simp [readHere?] at hhere
  | cons t here =>
    cases item with
    | literal l =>
      simp only [readHere?, Option.ite_none_right_eq_some, Option.some.injEq,
        Prod.mk.injEq] at hhere
      rw [← hhere.2.2]
      exact ⟨rfl, List.forall_mem_nil _⟩
    | ident name =>
      simp only [readHere?, Option.ite_none_right_eq_some, Option.some.injEq,
        Prod.mk.injEq] at hhere
      rw [← hhere.2.2]
      refine ⟨rfl, List.forall_mem_singleton.2 fun t' ht' => ?_⟩
      rw [List.mem_singleton.1 ht']
      exact hsub List.mem_cons_self
    | expr name terminator =>
      simp only [readHere?, Option.map_eq_some_iff, Prod.mk.injEq] at hhere
      obtain ⟨length, -, -, rfl⟩ := hhere
      exact ⟨rfl, List.forall_mem_singleton.2 fun _ ht => hsub (List.mem_of_mem_take ht)⟩

theorem captures_of_readAll? {items : List Item} {ts : List Token} {n : Nat}
    {captures : List Capture} (h : readAll? items ts = some (n, captures)) :
    captures.map Capture.name = items.filterMap captureName? ∧
      ∀ c ∈ captures, c.span ⊆ ts := by
  induction items generalizing ts n captures with
  | nil =>
    obtain ⟨-, rfl⟩ := Prod.mk.inj (Option.some.inj h)
    exact ⟨rfl, List.forall_mem_nil _⟩
  | cons item items ih =>
    obtain ⟨taken, first, more, behind, hfirst, hmore, -, rfl⟩ := readAll?_cons_eq_some_iff.1 h
    obtain ⟨hnames, hspans⟩ := captures_of_read? hfirst
    obtain ⟨hnames', hspans'⟩ := ih hmore
    refine ⟨?_, List.forall_mem_append.2 ⟨hspans, fun c hc => ?_⟩⟩
    · rw [List.map_append, hnames, hnames']
      cases hname : item.captureName? with
      | none => rw [List.filterMap_cons_none hname, Option.toList_none, List.nil_append]
      | some name =>
        rw [List.filterMap_cons_some hname, Option.toList_some, List.singleton_append]
    · exact List.Subset.trans (hspans' c hc) (List.drop_subset taken ts)

end Item

/-! ## Binding captures one after the other -/

namespace Bindings

/-- The bindings after some captures, or `none` when one of them does not agree. -/
def bindAll? (b : Bindings) (captures : List Capture) : Option Bindings :=
  captures.foldlM (fun b c => b.bind? c.name c.span) b

@[simp] theorem bindAll?_nil (b : Bindings) : b.bindAll? [] = some b := rfl

@[simp] theorem bindAll?_singleton (b : Bindings) (c : Capture) :
    b.bindAll? [c] = b.bind? c.name c.span := by
  cases h : b.bind? c.name c.span <;> simp [bindAll?, h]

theorem bindAll?_cons_eq_some_iff {b b' : Bindings} {c : Capture} {captures : List Capture} :
    b.bindAll? (c :: captures) = some b' ↔
      ∃ b₁, b.bind? c.name c.span = some b₁ ∧ b₁.bindAll? captures = some b' := by
  rw [bindAll?, List.foldlM_cons]
  exact Option.bind_eq_some_iff

theorem bindAll?_append_eq_some_iff {b b' : Bindings} {first behind : List Capture} :
    b.bindAll? (first ++ behind) = some b' ↔
      ∃ b₁, b.bindAll? first = some b₁ ∧ b₁.bindAll? behind = some b' := by
  rw [bindAll?, List.foldlM_append]
  exact Option.bind_eq_some_iff

theorem extends_of_bindAll? {b b' : Bindings} {captures : List Capture}
    (h : b.bindAll? captures = some b') : b.Extends b' := by
  induction captures generalizing b with
  | nil =>
    obtain rfl : b = b' := Option.some.inj h
    exact .refl
  | cons c captures ih =>
    obtain ⟨b₁, hfirst, hmore⟩ := bindAll?_cons_eq_some_iff.1 h
    exact (Extends.of_bind? hfirst).trans (ih hmore)

/-- A capture agrees with what its name stands for afterwards. -/
theorem agrees_of_bind? {b b' : Bindings} {name : List Char} {span : List Token}
    (h : b.bind? name span = some b') :
    ∃ bound, b'.get? name = some bound ∧ Token.sameSignificant bound span = true := by
  rcases bind?_eq_some_iff.1 h with ⟨-, rfl⟩ | ⟨bound, hbound, hsame, rfl⟩
  · exact ⟨span, by rw [get?_insert, if_pos rfl], Token.sameSignificant_iff.2 rfl⟩
  · exact ⟨bound, hbound, hsame⟩

/-- **Every capture agrees** with what its name stands for at the end. -/
theorem agrees_of_bindAll? {b b' : Bindings} {captures : List Capture}
    (h : b.bindAll? captures = some b') {c : Capture} (hc : c ∈ captures) :
    ∃ bound, b'.get? c.name = some bound ∧ Token.sameSignificant bound c.span = true := by
  induction captures generalizing b with
  | nil => exact absurd hc (by simp)
  | cons c' captures ih =>
    obtain ⟨b₁, hfirst, hmore⟩ := bindAll?_cons_eq_some_iff.1 h
    rcases List.mem_cons.1 hc with rfl | hc
    · obtain ⟨bound, hbound, hsame⟩ := agrees_of_bind? hfirst
      exact ⟨bound, (extends_of_bindAll? hmore).get? hbound, hsame⟩
    · exact ih hmore hc

/-- Captures under names that are bound change nothing. -/
theorem eq_of_bindAll? {b b' : Bindings} {captures : List Capture}
    (hbound : ∀ c ∈ captures, (b.get? c.name).isSome) (h : b.bindAll? captures = some b') :
    b' = b := by
  induction captures with
  | nil => exact (Option.some.inj h).symm
  | cons c captures ih =>
    obtain ⟨hc, hcaptures⟩ := List.forall_mem_cons.1 hbound
    obtain ⟨b₁, hfirst, hmore⟩ := bindAll?_cons_eq_some_iff.1 h
    rcases bind?_eq_some_iff.1 hfirst with ⟨hnone, -⟩ | ⟨_, -, -, rfl⟩
    · rw [hnone] at hc
      exact absurd hc (by simp)
    · exact ih hcaptures hmore

/-! ## The order in which names are entered -/

/-- Dropping entries by a test and dropping repeated entries can change places. -/
theorem eraseDups_filter {α : Type} [BEq α] [LawfulBEq α] (p : α → Bool) :
    ∀ l : List α, (l.filter p).eraseDups = l.eraseDups.filter p
  | [] => rfl
  | a :: l => by
    have ih := eraseDups_filter p (l.filter fun x => !x == a)
    rw [List.eraseDups_cons]
    by_cases ha : p a = true
    · rw [List.filter_cons_of_pos ha, List.filter_cons_of_pos ha, List.eraseDups_cons, ← ih,
        List.filter_filter, List.filter_filter]
      simp only [Bool.and_comm]
    · rw [List.filter_cons_of_neg ha, List.filter_cons_of_neg ha, ← ih, List.filter_filter]
      congr 1
      -- what passes the test is not `a`, which does not
      refine List.filter_congr fun x _ => ?_
      by_cases hx : x = a
      · simp [hx, ha]
      · simp [hx]
termination_by l => l.length
decreasing_by exact Nat.lt_succ_of_le (List.length_filter_le ..)

/-- The names among `names` that are not bound, each once and in the order of first appearance. -/
def newNames (b : Bindings) (names : List (List Char)) : List (List Char) :=
  names.eraseDups.filter fun x => (b.get? x).isNone

theorem newNames_cons_of_get?_eq_some {b : Bindings} {name : List Char} {bound : List Token}
    (h : b.get? name = some bound) (names : List (List Char)) :
    b.newNames (name :: names) = b.newNames names := by
  rw [newNames, newNames, List.eraseDups_cons, List.filter_cons_of_neg (by simp [h]),
    eraseDups_filter, List.filter_filter]
  refine List.filter_congr fun x _ => ?_
  by_cases hx : x = name
  · simp [hx, h]
  · simp [hx]

theorem newNames_cons_of_get?_eq_none {b : Bindings} {name : List Char} (h : b.get? name = none)
    (span : List Token) (names : List (List Char)) :
    b.newNames (name :: names) = name :: (b.insert name span).newNames names := by
  rw [newNames, newNames, List.eraseDups_cons, List.filter_cons_of_pos (by simp [h]),
    eraseDups_filter, List.filter_filter]
  congr 1
  refine List.filter_congr fun x _ => ?_
  rw [get?_insert]
  by_cases hx : x = name
  · simp [hx]
  · simp [hx]

/-- **The journal after captures**: the names captured and not bound before are entered at its
end. -/
theorem journal_of_bindAll? {b b' : Bindings} {captures : List Capture}
    (h : b.bindAll? captures = some b') :
    b'.journal = b.journal ++ b.newNames (captures.map Capture.name) := by
  induction captures generalizing b with
  | nil =>
    obtain rfl : b = b' := Option.some.inj h
    exact (List.append_nil _).symm
  | cons c captures ih =>
    obtain ⟨b₁, hfirst, hmore⟩ := bindAll?_cons_eq_some_iff.1 h
    rw [ih hmore, List.map_cons]
    rcases bind?_eq_some_iff.1 hfirst with ⟨hnone, rfl⟩ | ⟨_, hbound, -, rfl⟩
    · rw [newNames_cons_of_get?_eq_none hnone c.span, insert, List.append_assoc,
        List.singleton_append]
    · rw [newNames_cons_of_get?_eq_some hbound]

/-! ## The names that are bound -/

/-- Only names of a certain kind are bound. -/
def Within (names : List Char → Prop) (b : Bindings) : Prop :=
  ∀ name, (b.get? name).isSome → names name

theorem within_empty (names : List Char → Prop) : empty.Within names := by
  intro name h
  exact absurd h (by simp)

theorem Within.of_bind? {names : List Char → Prop} {b b' : Bindings} (hb : b.Within names)
    {name : List Char} (hname : names name) {span : List Token}
    (h : b.bind? name span = some b') : b'.Within names := by
  rcases bind?_eq_some_iff.1 h with ⟨-, rfl⟩ | ⟨_, -, -, rfl⟩
  · intro x hx
    rw [get?_insert] at hx
    split at hx
    next heq => exact heq ▸ hname
    · exact hb x hx
  · exact hb

theorem Within.of_bindAll? {names : List Char → Prop} {b b' : Bindings} (hb : b.Within names)
    {captures : List Capture} (hcaptures : ∀ c ∈ captures, names c.name)
    (h : b.bindAll? captures = some b') : b'.Within names := by
  induction captures generalizing b with
  | nil => exact (Option.some.inj h :) ▸ hb
  | cons c captures ih =>
    obtain ⟨hc, hcaptures⟩ := List.forall_mem_cons.1 hcaptures
    obtain ⟨b₁, hfirst, hmore⟩ := bindAll?_cons_eq_some_iff.1 h
    exact ih (hb.of_bind? hc hfirst) hcaptures hmore

end Bindings

/-! ## Occurrences are readings that agree -/

namespace Item

/-- An item occurs where it can be read and its capture can be bound. -/
theorem matchHere?_eq (b : Bindings) (item : Item) (ts : List Token) :
    item.matchHere? b ts = (item.readHere? ts).bind fun (taken, captures) =>
      (b.bindAll? captures).map fun b => (taken, b) := by
  cases ts with
  | nil => cases item <;> rfl
  | cons t ts =>
    cases item with
    | literal l =>
      simp only [matchHere?, readHere?]
      split <;> rfl
    | ident name =>
      simp only [matchHere?, readHere?]
      split
      · rw [Option.bind_some, Bindings.bindAll?_singleton]
      · rfl
    | expr name terminator =>
      simp only [matchHere?, readHere?]
      cases spanLength? terminator.text (t :: ts) with
      | none => rfl
      | some length =>
        simp only [Option.map_some, Option.bind_eq_bind, Option.bind_some,
          Bindings.bindAll?_singleton]
        cases b.bind? name ((t :: ts).take length) <;> rfl

theorem match?_eq_some_iff {b b' : Bindings} {item : Item} {ts : List Token} {taken : Nat} :
    item.match? b ts = some (taken, b') ↔
      ∃ captures, item.read? ts = some (taken, captures) ∧ b.bindAll? captures = some b' := by
  rw [match?, read?, matchHere?_eq, Option.map_eq_some_iff]
  constructor
  · rintro ⟨⟨n, b₁⟩, h, heq⟩
    obtain ⟨⟨n', captures⟩, hread, h⟩ := Option.bind_eq_some_iff.1 h
    obtain ⟨b₂, hbind, heq'⟩ := Option.map_eq_some_iff.1 h
    obtain ⟨rfl, rfl⟩ := Prod.mk.inj heq'
    obtain ⟨rfl, rfl⟩ := Prod.mk.inj heq
    exact ⟨captures, by rw [hread]; rfl, hbind⟩
  · rintro ⟨captures, hread, hbind⟩
    obtain ⟨⟨n, captures'⟩, hhere, heq⟩ := Option.map_eq_some_iff.1 hread
    obtain ⟨rfl, rfl⟩ := Prod.mk.inj heq
    refine ⟨(n, b'), ?_, rfl⟩
    simp only [hhere, Option.bind_some, hbind, Option.map_some]

/-- Items occur one behind the other where they can be read so and all captures can be bound: that
the captures are bound between the readings makes no difference. -/
theorem matchAll?_eq_some_iff {b b' : Bindings} {items : List Item} {ts : List Token} {n : Nat} :
    matchAll? b items ts = some (n, b') ↔
      ∃ captures, readAll? items ts = some (n, captures) ∧ b.bindAll? captures = some b' := by
  induction items generalizing b ts n with
  | nil =>
    constructor
    · intro h
      obtain ⟨rfl, rfl⟩ := Prod.mk.inj (Option.some.inj h)
      exact ⟨[], rfl, rfl⟩
    · rintro ⟨captures, hread, hbind⟩
      obtain ⟨rfl, rfl⟩ := Prod.mk.inj (Option.some.inj hread)
      rw [← Option.some.inj hbind]
      rfl
  | cons item items ih =>
    rw [matchAll?_cons_eq_some_iff]
    constructor
    · rintro ⟨taken, b₁, more, hfirst, hmore, rfl⟩
      obtain ⟨first, hread, hbind⟩ := match?_eq_some_iff.1 hfirst
      obtain ⟨behind, hread', hbind'⟩ := ih.1 hmore
      exact ⟨first ++ behind,
        readAll?_cons_eq_some_iff.2 ⟨taken, first, more, behind, hread, hread', rfl, rfl⟩,
        Bindings.bindAll?_append_eq_some_iff.2 ⟨b₁, hbind, hbind'⟩⟩
    · rintro ⟨captures, hread, hbind⟩
      obtain ⟨taken, first, more, behind, hfirst, hmore, rfl, rfl⟩ :=
        readAll?_cons_eq_some_iff.1 hread
      obtain ⟨b₁, hb₁, hb'⟩ := Bindings.bindAll?_append_eq_some_iff.1 hbind
      exact ⟨taken, b₁, more, match?_eq_some_iff.2 ⟨first, hfirst, hb₁⟩,
        ih.2 ⟨behind, hmore, hb'⟩, rfl⟩

end Item

namespace Pattern

/-- The number of tokens that a pattern takes at the start of a list, and its captures in order,
whatever is bound. -/
def read? (p : Pattern) (ts : List Token) : Option (Nat × List Capture) :=
  Item.readAll? p.items ts

/-- **An occurrence is a reading with captures that agree.** -/
theorem match?_eq_some_iff {b b' : Bindings} {p : Pattern} {ts : List Token} {taken : Nat} :
    p.match? b ts = some (taken, b') ↔
      ∃ captures, p.read? ts = some (taken, captures) ∧ b.bindAll? captures = some b' :=
  Item.matchAll?_eq_some_iff

/-- An occurrence as a reading and, behind it, the captures bound one after the other. -/
theorem match?_eq (b : Bindings) (p : Pattern) (ts : List Token) :
    p.match? b ts = (p.read? ts).bind fun (taken, captures) =>
      (b.bindAll? captures).map fun b' => (taken, b') := by
  ext ⟨taken, b'⟩
  rw [match?_eq_some_iff, Option.bind_eq_some_iff]
  constructor
  · rintro ⟨captures, hread, hbind⟩
    exact ⟨(taken, captures), hread, Option.map_eq_some_iff.2 ⟨b', hbind, rfl⟩⟩
  · rintro ⟨⟨n, captures⟩, hread, h⟩
    obtain ⟨b₁, hbind, heq⟩ := Option.map_eq_some_iff.1 h
    obtain ⟨rfl, rfl⟩ := Prod.mk.inj heq
    exact ⟨captures, hread, hbind⟩

/-- The captures of a reading are tokens of the list. -/
theorem span_subset_of_read? {p : Pattern} {ts : List Token} {taken : Nat}
    {captures : List Capture} (h : p.read? ts = some (taken, captures)) :
    ∀ c ∈ captures, c.span ⊆ ts :=
  (Item.captures_of_readAll? h).2

/-- A reading captures under the names of the pattern. -/
theorem mem_captureNames_of_read? {p : Pattern} {ts : List Token} {taken : Nat}
    {captures : List Capture} (h : p.read? ts = some (taken, captures)) {x : List Char} :
    x ∈ p.captureNames ↔ ∃ c ∈ captures, c.name = x := by
  rw [captureNames, List.mem_eraseDups, ← (Item.captures_of_readAll? h).1, List.mem_map]

/-- The captures of an occurrence agree with what their names stand for behind it. -/
theorem exists_read?_of_match? {b b' : Bindings} {p : Pattern} {ts : List Token} {taken : Nat}
    (h : p.match? b ts = some (taken, b')) :
    ∃ captures, p.read? ts = some (taken, captures) ∧ ∀ c ∈ captures, ∃ bound,
      b'.get? c.name = some bound ∧ Token.sameSignificant bound c.span = true := by
  obtain ⟨captures, hread, hbind⟩ := match?_eq_some_iff.1 h
  exact ⟨captures, hread, fun c hc => Bindings.agrees_of_bindAll? hbind hc⟩

/-- The names that an occurrence enters in the journal. -/
theorem journal_of_match? {b b' : Bindings} {p : Pattern} {ts : List Token} {taken : Nat}
    (h : p.match? b ts = some (taken, b')) :
    b'.journal = b.journal ++ p.captureNames.filter fun x => (b.get? x).isNone := by
  obtain ⟨captures, hread, hbind⟩ := match?_eq_some_iff.1 h
  rw [Bindings.journal_of_bindAll? hbind, (Item.captures_of_readAll? hread).1]
  rfl

/-- All names of the pattern are bound behind an occurrence. -/
theorem isSome_get?_of_match? {b b' : Bindings} {p : Pattern} {ts : List Token} {taken : Nat}
    (h : p.match? b ts = some (taken, b')) : ∀ x ∈ p.captureNames, (b'.get? x).isSome := by
  intro x hx
  obtain ⟨captures, hread, hbind⟩ := match?_eq_some_iff.1 h
  obtain ⟨c, hc, rfl⟩ := (mem_captureNames_of_read? hread).1 hx
  obtain ⟨bound, hbound, -⟩ := Bindings.agrees_of_bindAll? hbind hc
  rw [hbound, Option.isSome_some]

/-- An occurrence binds names of its pattern and no other. -/
theorem within_of_match? {names : List Char → Prop} {p : Pattern}
    (hp : ∀ name ∈ p.captureNames, names name) {b b' : Bindings} (hb : b.Within names)
    {ts : List Token} {taken : Nat} (h : p.match? b ts = some (taken, b')) :
    b'.Within names := by
  obtain ⟨captures, hread, hbind⟩ := match?_eq_some_iff.1 h
  refine hb.of_bindAll? (fun c hc => hp c.name ?_) hbind
  exact (mem_captureNames_of_read? hread).2 ⟨c, hc, rfl⟩

/-- An occurrence under bindings of all names of the pattern leaves the bindings as they are. -/
theorem eq_of_match? {b b' : Bindings} {p : Pattern} {ts : List Token} {taken : Nat}
    (hbound : ∀ x ∈ p.captureNames, (b.get? x).isSome) (h : p.match? b ts = some (taken, b')) :
    b' = b := by
  obtain ⟨captures, hread, hbind⟩ := match?_eq_some_iff.1 h
  refine Bindings.eq_of_bindAll? (fun c hc => hbound c.name ?_) hbind
  exact (mem_captureNames_of_read? hread).2 ⟨c, hc, rfl⟩

end Pattern

end TokenEdit
