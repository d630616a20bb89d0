import TokenEdit.Proofs.RuleTree

/-!
# The occurrences of a run

A run that has come to an end has found certain occurrences, its own and those of the follow-ups,
one behind the other.  `Scan.Traced` lists them: for every occurrence the rule and its role, the
state in which the rule was tried, the number of tokens taken, and the bindings with the captures.
A statement about all occurrences of a run, or about the first of them, is a statement about this
list.

* `Scan.Traced.match?_eq`: what is listed are occurrences.
* `Scan.Traced.matchCount`: all of them are listed.
* `Scan.Traced.eq_of_root`: the root occurs only as the rule that the scan was started with.
-/

namespace TokenEdit

namespace Occurrence

/-- The tokens of the occurrence. -/
def used (o : Occurrence) : List Token :=
  o.state.rest.take o.taken

/-- The tokens put in their place. -/
def put (o : Occurrence) : List Token :=
  o.rule.template.expand o.bindings o.state.column

/-- The state of the scan behind the occurrence. -/
def next (o : Occurrence) : Scan :=
  o.state.replace o.role o.rule o.taken o.bindings

/-- The occurrences of the rule that a scan was started with. -/
def ofRoot (os : List Occurrence) : List Occurrence :=
  os.filter fun o => o.role = .root

end Occurrence

namespace Scan

variable {w : Work} {s u : Scan} {os : List Occurrence}

/-- What is listed are occurrences of the patterns, under the bindings of the states. -/
theorem Traced.match?_eq (h : Traced w s os u) : ∀ o ∈ os,
    o.rule.pattern.match? o.state.bindings o.state.rest = some (o.taken, o.bindings) := by
  induction h with
  | finish | stop | done => exact List.forall_mem_nil _
  | delimiter _ _ _ ih | significant _ _ _ _ _ ih => exact ih
  | occurrence _ _ hm _ _ ihFollow ihNext =>
    exact List.forall_mem_cons.2 ⟨hm, List.forall_mem_append.2 ⟨ihFollow, ihNext⟩⟩
  | followUp _ _ ihInner ihNext => exact List.forall_mem_append.2 ⟨ihInner, ihNext⟩

/-- All occurrences are listed: they are as many as are counted, in either role. -/
theorem Traced.matchCount (h : Traced w s os u) (role : Role) :
    u.matchCount role = s.matchCount role + os.countP fun o => o.role = role := by
  induction h with
  | finish | stop | done => rfl
  | delimiter _ _ _ ih | significant _ _ _ _ _ ih => exact ih
  | @occurrence role' r s _ _ os os' _ _ taken b _ _ _ _ _ ihFollow ihNext =>
    have hall : (⟨role', r, s, taken, b⟩ :: (os ++ os') : List Occurrence).countP
        (fun o => o.role = role) = os.countP (fun o => o.role = role) +
          os'.countP (fun o => o.role = role) + if role' = role then 1 else 0 := by
      simp [List.countP_cons, List.countP_append]
    rw [ihNext, ihFollow, matchCount_replace, hall]
    omega
  | @followUp f _ s u _ os os' _ _ ihInner ihNext =>
    have hresume : (s.resume u).matchCount role = u.matchCount role := rfl
    rw [ihNext, hresume, ihInner, matchCount_inner, List.countP_append, Nat.add_assoc]

/-- Only the scan of the root finds occurrences as root, and these are occurrences of its rule. -/
theorem Traced.eq_of_root (h : Traced w s os u) :
    ∀ o ∈ os, o.role = .root → w = .scan .root o.rule := by
  induction h with
  | finish | stop | done => exact List.forall_mem_nil _
  | delimiter _ _ _ ih | significant _ _ _ _ _ ih => exact ih
  | occurrence _ _ _ _ _ ihFollow ihNext =>
    refine List.forall_mem_cons.2 ⟨congrArg (Work.scan · _),
      List.forall_mem_append.2 ⟨?_, ihNext⟩⟩
    intro o ho hrole
    exact absurd (ihFollow o ho hrole) (by simp)
  | followUp _ _ ihInner ihNext =>
    refine List.forall_mem_append.2 ⟨fun o ho hrole => ?_, fun o ho hrole => ?_⟩
    · exact absurd (ihInner o ho hrole) (by simp)
    · exact absurd (ihNext o ho hrole) (by simp)

/-- Follow-ups find nothing as root. -/
theorem Traced.ofRoot_followUps {rules : List Rule} (h : Traced (.followUps rules) s os u) :
    Occurrence.ofRoot os = [] := by
  refine List.filter_eq_nil_iff.2 fun o ho hrole => ?_
  exact absurd (h.eq_of_root o ho (of_decide_eq_true hrole)) (by simp)

end Scan

end TokenEdit
