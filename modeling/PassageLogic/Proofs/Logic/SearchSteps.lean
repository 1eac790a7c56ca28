import PassageLogic.Logic.Search
import Mathlib.Data.List.Basic
import Mathlib.Tactic.SplitIfs

/-! # What a search does, step by step

`Steps P R` lists the obligations for a property `P` of searches and a property `R` of runs through
the clauses for one goal: one for each thing that a search can do, with what it does next assumed to
have the property. `Steps.solve`: then every search has the property. The depth that is left is the
measure; within one depth the goals are, and for one goal the clauses. -/

namespace PassageLogic.Search

variable {clauses : List Clause} {bound room want uses : Nat} {goal : Literal}
  {rest : List Literal} {s t : Substitution}

theorem isEquality_terms {l : Literal} (h : l.isEquality = true) : ∃ a b, l.terms = [a, b] := by
  simp only [Literal.isEquality, Literal.arity, Bool.and_eq_true, beq_iff_eq] at h
  obtain ⟨a, b, hab⟩ := List.length_eq_two.1 h.2
  exact ⟨a, b, hab⟩

/-! ### The equations of a search -/

theorem solve_nil : solve clauses bound room [] s want uses =
    ⟨if want = 0 then [] else [s], uses, none⟩ := by
  cases room <;> rfl

theorem solve_sated (goals : List Literal) :
    solve clauses bound room goals s 0 uses = ⟨[], uses, none⟩ := by
  cases goals with
  | nil => rw [solve_nil, if_pos rfl]
  | cons goal rest => cases room <;> rfl

theorem solve_tooDeep (hw : want ≠ 0) :
    solve clauses bound 0 (goal :: rest) s want uses = ⟨[], uses, some (.depth bound)⟩ := by
  simp only [solve, beyond, if_neg hw]

section Denied
variable {probe : Outcome} (hw : want ≠ 0) (hn : goal.negated = true)
  (hp : solve clauses bound room [goal.positive] s 1 uses = probe)
include hw hn hp

theorem solve_probeFault {fault : Fault} (hf : probe.fault = some fault) :
    solve clauses bound (room + 1) (goal :: rest) s want uses = ⟨[], probe.uses, some fault⟩ := by
  subst hp
  simp only [solve, within, if_neg hw, hn, if_true, hf]

theorem solve_probeFound (hf : probe.fault = none) (hfd : probe.found ≠ []) :
    solve clauses bound (room + 1) (goal :: rest) s want uses = ⟨[], probe.uses, none⟩ := by
  subst hp
  obtain ⟨t, ts, ht⟩ := List.exists_cons_of_ne_nil hfd
  simp only [solve, within, if_neg hw, hn, if_true, hf, ht]

theorem solve_probeEmpty (hf : probe.fault = none) (hfd : probe.found = []) :
    solve clauses bound (room + 1) (goal :: rest) s want uses =
      solve clauses bound (room + 1) rest s want probe.uses := by
  subst hp
  simp only [solve, within, if_neg hw, hn, if_true, hf, hfd]

end Denied

section Positive
variable (hw : want ≠ 0) (hn : goal.negated = false)
include hw hn

theorem solve_equated {a b : Term} (he : goal.isEquality = true) (hab : goal.terms = [a, b])
    (hu : s.unify a b = some t) :
    solve clauses bound (room + 1) (goal :: rest) s want uses =
      solve clauses bound (room + 1) rest t want uses := by
  simp only [solve, within, if_neg hw, hn, he, if_true, hab, hu, Bool.false_eq_true, if_false]

theorem solve_unequal {a b : Term} (he : goal.isEquality = true) (hab : goal.terms = [a, b])
    (hu : s.unify a b = none) :
    solve clauses bound (room + 1) (goal :: rest) s want uses = ⟨[], uses, none⟩ := by
  simp only [solve, within, if_neg hw, hn, he, if_true, hab, hu, Bool.false_eq_true, if_false]

theorem solve_resolved (he : goal.isEquality = false) :
    solve clauses bound (room + 1) (goal :: rest) s want uses =
      resolve (solve clauses bound room) goal rest s clauses want uses := by
  simp only [solve, within, if_neg hw, hn, he, Bool.false_eq_true, if_false]

end Positive

section Clauses
variable {deeper : Solver} {c : Clause} {cs : List Clause}

theorem resolve_other (hp : c.head.samePredicate goal = false) :
    resolve deeper goal rest s (c :: cs) want uses = resolve deeper goal rest s cs want uses := by
  simp only [resolve, hp, Bool.false_eq_true, if_false]

variable (hp : c.head.samePredicate goal = true)
include hp

theorem resolve_clash (hu : s.unifyAll goal.terms (c.renamed (uses + 1)).head.terms = none) :
    resolve deeper goal rest s (c :: cs) want uses =
      resolve deeper goal rest s cs want (uses + 1) := by
  simp only [resolve, hp, if_true, hu]

variable {o : Outcome} (hu : s.unifyAll goal.terms (c.renamed (uses + 1)).head.terms = some t)
  (ho : deeper ((c.renamed (uses + 1)).body ++ rest) t want (uses + 1) = o)
include hu ho

theorem resolve_ended (h : o.fault ≠ none ∨ want ≤ o.found.length) :
    resolve deeper goal rest s (c :: cs) want uses = o := by
  simp only [resolve, hp, if_true, hu, ho, andThen]
  cases hf : o.fault with
  | some f => rfl
  | none =>
    have hle : want ≤ o.found.length := h.resolve_left (by simp [hf])
    rw [Nat.sub_eq_zero_of_le hle]

theorem resolve_more (hf : o.fault = none) (hlt : o.found.length < want) {o' : Outcome}
    (ho' : resolve deeper goal rest s cs (want - o.found.length) o.uses = o') :
    resolve deeper goal rest s (c :: cs) want uses =
      ⟨o.found ++ o'.found, o'.uses, o'.fault⟩ := by
  simp only [resolve, hp, if_true, hu, ho, andThen, hf]
  obtain ⟨k, hk⟩ : ∃ k, want - o.found.length = k + 1 := ⟨want - o.found.length - 1, by omega⟩
  rw [hk] at ho' ⊢
  rw [← ho']

end Clauses

/-! ### The induction -/

/-- A property of a search: of the depths that are left, the goals, the substitution, the number of
wanted solutions, the number of clause uses before and the outcome. -/
abbrev Property := Nat → List Literal → Substitution → Nat → Nat → Outcome → Prop

/-- A property of a run through clauses: of the depths that are left for their bodies, the goal, the
other goals, the substitution, the clauses, the number of wanted solutions, the number of clause
uses before and the outcome. -/
abbrev RunProperty :=
  Nat → Literal → List Literal → Substitution → List Clause → Nat → Nat → Outcome → Prop

/-- **One obligation for each thing that a search does.** -/
structure Steps (clauses : List Clause) (bound : Nat) (P : Property) (R : RunProperty) : Prop where
  /-- No goals are solved. -/
  done : ∀ {room s want uses}, P room [] s want uses ⟨if want = 0 then [] else [s], uses, none⟩
  /-- Nothing is searched for when nothing is wanted. -/
  sated : ∀ {room goal rest s uses}, P room (goal :: rest) s 0 uses ⟨[], uses, none⟩
  /-- A goal beyond the bound is a fault. -/
  tooDeep : ∀ {goal rest s want uses}, want ≠ 0 →
    P 0 (goal :: rest) s want uses ⟨[], uses, some (.depth bound)⟩
  /-- A fault behind a denial is a fault of the search. -/
  probeFault : ∀ {room goal rest s want uses probe fault}, want ≠ 0 → goal.negated = true →
    P room [goal.positive] s 1 uses probe →
    solve clauses bound room [goal.positive] s 1 uses = probe → probe.fault = some fault →
    P (room + 1) (goal :: rest) s want uses ⟨[], probe.uses, some fault⟩
  /-- A denied goal fails if what it denies has a solution. -/
  probeFound : ∀ {room goal rest s want uses probe}, want ≠ 0 → goal.negated = true →
    P room [goal.positive] s 1 uses probe →
    solve clauses bound room [goal.positive] s 1 uses = probe → probe.fault = none → probe.found ≠ [] →
    P (room + 1) (goal :: rest) s want uses ⟨[], probe.uses, none⟩
  /-- A denied goal is solved if what it denies has no solution. -/
  probeEmpty : ∀ {room goal rest s want uses probe o}, want ≠ 0 → goal.negated = true →
    P room [goal.positive] s 1 uses probe →
    solve clauses bound room [goal.positive] s 1 uses = probe → probe.fault = none → probe.found = [] →
    P (room + 1) rest s want probe.uses o → P (room + 1) (goal :: rest) s want uses o
  /-- An equality is unified. -/
  equated : ∀ {room goal rest s a b t want uses o}, want ≠ 0 → goal.negated = false →
    goal.isEquality = true → goal.terms = [a, b] → s.unify a b = some t →
    P (room + 1) rest t want uses o → P (room + 1) (goal :: rest) s want uses o
  /-- An equality that cannot be unified has no solution. -/
  unequal : ∀ {room goal rest s a b want uses}, want ≠ 0 → goal.negated = false →
    goal.isEquality = true → goal.terms = [a, b] → s.unify a b = none →
    P (room + 1) (goal :: rest) s want uses ⟨[], uses, none⟩
  /-- Any other goal is resolved with the clauses. -/
  resolved : ∀ {room goal rest s want uses o}, want ≠ 0 → goal.negated = false →
    goal.isEquality = false → R room goal rest s clauses want uses o →
    P (room + 1) (goal :: rest) s want uses o
  /-- There are no more clauses. -/
  exhausted : ∀ {room goal rest s want uses}, R room goal rest s [] want uses ⟨[], uses, none⟩
  /-- A clause of another predicate is passed over. -/
  other : ∀ {room goal rest s c cs want uses o}, c ∈ clauses → c.head.samePredicate goal = false →
    R room goal rest s cs want uses o → R room goal rest s (c :: cs) want uses o
  /-- A clause whose head does not unify with the goal is used in vain. -/
  clash : ∀ {room goal rest s c cs want uses o}, c ∈ clauses → c.head.samePredicate goal = true →
    s.unifyAll goal.terms (c.renamed (uses + 1)).head.terms = none →
    R room goal rest s cs want (uses + 1) o → R room goal rest s (c :: cs) want uses o
  /-- The search ends with the body of a clause. -/
  ended : ∀ {room goal rest s c cs t want uses o}, c ∈ clauses →
    c.head.samePredicate goal = true →
    s.unifyAll goal.terms (c.renamed (uses + 1)).head.terms = some t →
    P room ((c.renamed (uses + 1)).body ++ rest) t want (uses + 1) o →
    solve clauses bound room ((c.renamed (uses + 1)).body ++ rest) t want (uses + 1) = o →
    (o.fault ≠ none ∨ want ≤ o.found.length) →
    R room goal rest s (c :: cs) want uses o
  /-- The search goes on after the body of a clause. -/
  more : ∀ {room goal rest s c cs t want uses o o'}, c ∈ clauses →
    c.head.samePredicate goal = true →
    s.unifyAll goal.terms (c.renamed (uses + 1)).head.terms = some t →
    P room ((c.renamed (uses + 1)).body ++ rest) t want (uses + 1) o →
    solve clauses bound room ((c.renamed (uses + 1)).body ++ rest) t want (uses + 1) = o →
    o.fault = none → o.found.length < want →
    R room goal rest s cs (want - o.found.length) o.uses o' →
    R room goal rest s (c :: cs) want uses ⟨o.found ++ o'.found, o'.uses, o'.fault⟩

section Induction
variable {P : Property} {R : RunProperty} (hS : Steps clauses bound P R)
include hS

theorem Steps.resolve_of_solve
    (hP : ∀ goals s want uses, P room goals s want uses (solve clauses bound room goals s want uses))
    (goal : Literal) (rest : List Literal) (s : Substitution) {cs : List Clause}
    (hcs : cs ⊆ clauses) (want uses : Nat) :
    R room goal rest s cs want uses (resolve (solve clauses bound room) goal rest s cs want uses) := by
  induction cs generalizing want uses with
  | nil => exact hS.exhausted
  | cons c cs ih =>
    obtain ⟨hc, hcs'⟩ := List.cons_subset.1 hcs
    cases hp : c.head.samePredicate goal with
    | false =>
      rw [resolve_other hp]
      exact hS.other hc hp (ih hcs' _ _)
    | true =>
      cases hu : s.unifyAll goal.terms (c.renamed (uses + 1)).head.terms with
      | none =>
        rw [resolve_clash hp hu]
        exact hS.clash hc hp hu (ih hcs' _ _)
      | some t =>
        have ho := hP ((c.renamed (uses + 1)).body ++ rest) t want (uses + 1)
        generalize hso : solve clauses bound room ((c.renamed (uses + 1)).body ++ rest) t want
          (uses + 1) = o at ho
        by_cases he : o.fault ≠ none ∨ want ≤ o.found.length
        · rw [resolve_ended hp hu hso he]
          exact hS.ended hc hp hu ho hso he
        · rw [not_or, not_not, Nat.not_le] at he
          rw [resolve_more hp hu hso he.1 he.2 rfl]
          exact hS.more hc hp hu ho hso he.1 he.2 (ih hcs' _ _)

theorem Steps.solve_succ
    (hP : ∀ goals s want uses, P room goals s want uses (solve clauses bound room goals s want uses))
    (goals : List Literal) (s : Substitution) (want uses : Nat) :
    P (room + 1) goals s want uses (solve clauses bound (room + 1) goals s want uses) := by
  induction goals generalizing s want uses with
  | nil =>
    rw [solve_nil]
    exact hS.done
  | cons goal rest ih =>
    by_cases hw : want = 0
    · rw [hw, solve_sated]
      exact hS.sated
    cases hn : goal.negated with
    | true =>
      have hprobe := hP [goal.positive] s 1 uses
      generalize hp : solve clauses bound room [goal.positive] s 1 uses = probe at hprobe
      cases hf : probe.fault with
      | some fault =>
        rw [solve_probeFault hw hn hp hf]
        exact hS.probeFault hw hn hprobe hp hf
      | none =>
        by_cases hfd : probe.found = []
        · rw [solve_probeEmpty hw hn hp hf hfd]
          exact hS.probeEmpty hw hn hprobe hp hf hfd (ih _ _ _)
        · rw [solve_probeFound hw hn hp hf hfd]
          exact hS.probeFound hw hn hprobe hp hf hfd
    | false =>
      cases he : goal.isEquality with
      | false =>
        rw [solve_resolved hw hn he]
        exact hS.resolved hw hn he (hS.resolve_of_solve hP _ _ _ (List.Subset.refl _) _ _)
      | true =>
        obtain ⟨a, b, hab⟩ := isEquality_terms he
        cases hu : s.unify a b with
        | none =>
          rw [solve_unequal hw hn he hab hu]
          exact hS.unequal hw hn he hab hu
        | some t =>
          rw [solve_equated hw hn he hab hu]
          exact hS.equated hw hn he hab hu (ih _ _ _)

/-- **A property that every step keeps holds of every search.** -/
theorem Steps.solve (room : Nat) (goals : List Literal) (s : Substitution) (want uses : Nat) :
    P room goals s want uses (solve clauses bound room goals s want uses) := by
  induction room generalizing goals s want uses with
  | zero =>
    cases goals with
    | nil =>
      rw [solve_nil]
      exact hS.done
    | cons goal rest =>
      by_cases hw : want = 0
      · rw [hw, solve_sated]
        exact hS.sated
      · rw [solve_tooDeep hw]
        exact hS.tooDeep hw
  | succ room ih => exact hS.solve_succ ih goals s want uses

end Induction

end PassageLogic.Search
