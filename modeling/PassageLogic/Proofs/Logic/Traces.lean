import PassageLogic.Logic.Search
import Mathlib.Data.List.Basic
import Mathlib.Tactic.SplitIfs

/-! # The search without a cap on its solutions

A search ends as soon as it has found as many solutions as are wanted, and a look behind a denial at the
first one. `solveAll` is the same search without such a cap: it lists all solutions, each with the number
of clause uses at which it is found, and says whether a goal that is too deep ends it.

`solve_eq_cut`: **a search for some number of solutions is the search for all of them, cut off at the
last one that is wanted.** What is found for a number of solutions is then read off the list
(`Trace.found_cut`, `Trace.fault_cut`, `Trace.cut_of_lt`). -/

namespace PassageLogic

namespace Search

/-- **All that a search finds**, in order: solutions, each with the number of clause uses so far, and at
the end the number of all clause uses and whether a goal that is too deep was the end. -/
inductive Trace where
  | ended (uses : Nat) (tooDeep : Bool)
  | solution (s : Substitution) (uses : Nat) (more : Trace)

namespace Trace

/-- The solutions. -/
def solutions : Trace → List Substitution
  | ended _ _ => []
  | solution s _ more => s :: more.solutions

/-- A goal that is too deep was the end. -/
def tooDeep : Trace → Bool
  | ended _ deep => deep
  | solution _ _ more => more.tooDeep

/-- One trace after the other, which starts with the number of clause uses at the end of the first one. A
goal that is too deep ends both. -/
def andThen (next : Nat → Trace) : Trace → Trace
  | ended uses true => ended uses true
  | ended uses false => next uses
  | solution s uses more => solution s uses (more.andThen next)

/-- What is found up to the last of some wanted solutions, after a number of clause uses so far. -/
def cut (bound : Nat) : Trace → Nat → Nat → Outcome
  | _, 0, uses => ⟨[], uses, none⟩
  | ended n deep, _ + 1, _ => ⟨[], n, if deep then some (.depth bound) else none⟩
  | solution s n more, k + 1, _ =>
    let o := more.cut bound k n
    ⟨s :: o.found, o.uses, o.fault⟩

end Trace

/-! ### All solutions -/

/-- A way to find all solutions of goals under a substitution, after a number of clause uses so far. -/
abbrev Tracer := List Literal → Substitution → Nat → Trace

/-- Resolve a goal with clauses, and go on with their bodies and the rest of the goals. -/
def resolveAll (deeper : Tracer) (goal : Literal) (rest : List Literal) (s : Substitution) :
    List Clause → Nat → Trace
  | [], uses => .ended uses false
  | c :: cs, uses =>
    if c.head.samePredicate goal then
      let used := c.renamed (uses + 1)
      match s.unifyAll goal.terms used.head.terms with
      | none => resolveAll deeper goal rest s cs (uses + 1)
      | some t =>
        (deeper (used.body ++ rest) t (uses + 1)).andThen (resolveAll deeper goal rest s cs)
    else resolveAll deeper goal rest s cs uses

/-- Solve goals at a depth within the bound. A denied goal looks at all that is found for what it denies,
but no further than the first solution. -/
def withinAll (clauses : List Clause) (deeper : Tracer) : Tracer
  | [], s, uses => .solution s uses (.ended uses false)
  | goal :: rest, s, uses =>
    if goal.negated then
      match deeper [goal.positive] s uses with
      | .ended n true => .ended n true
      | .ended n false => withinAll clauses deeper rest s n
      | .solution _ n _ => .ended n false
    else if goal.isEquality then
      match goal.terms with
      | [a, b] =>
        match s.unify a b with
        | some t => withinAll clauses deeper rest t uses
        | none => .ended uses false
      | _ => .ended uses false
    else resolveAll deeper goal rest s clauses uses

/-- Solve goals at a depth beyond the bound: only no goals at all are solved there. -/
def beyondAll : Tracer
  | [], s, uses => .solution s uses (.ended uses false)
  | _ :: _, _, uses => .ended uses true

/-- **All solutions of goals** with `room` depths left within the bound. -/
def solveAll (clauses : List Clause) : Nat → Tracer
  | 0 => beyondAll
  | room + 1 => withinAll clauses (solveAll clauses room)

/-! ### Cutting a trace off -/

namespace Trace

variable {bound want want' uses : Nat} {tr : Trace} {next : Nat → Trace}

theorem cut_zero : tr.cut bound 0 uses = ⟨[], uses, none⟩ := by
  cases tr <;> rfl

/-- If something is wanted, then the number of clause uses so far does not matter. -/
theorem cut_succ (k uses uses' : Nat) : tr.cut bound (k + 1) uses = tr.cut bound (k + 1) uses' := by
  cases tr <;> rfl

theorem found_cut : (tr.cut bound want uses).found = tr.solutions.take want := by
  induction tr generalizing want uses with
  | ended n deep => cases want <;> rfl
  | solution s n more ih =>
    cases want with
    | zero => rfl
    | succ k => exact congrArg (s :: ·) ih

theorem fault_cut : (tr.cut bound want uses).fault =
    if want ≤ tr.solutions.length then none
    else if tr.tooDeep then some (.depth bound) else none := by
  induction tr generalizing want uses with
  | ended n deep =>
    cases want with
    | zero => rfl
    | succ k => rfl
  | solution s n more ih =>
    cases want with
    | zero => rfl
    | succ k =>
      have hle : k + 1 ≤ (s :: more.solutions).length ↔ k ≤ more.solutions.length := by
        rw [List.length_cons]
        omega
      simp only [cut, solutions, tooDeep, hle]
      exact ih

/-- If more is wanted than there is, then it does not matter how much more. -/
theorem cut_of_lt (h : tr.solutions.length < want) (h' : tr.solutions.length < want') :
    tr.cut bound want uses = tr.cut bound want' uses := by
  induction tr generalizing want want' uses with
  | ended n deep =>
    obtain ⟨k, rfl⟩ := Nat.exists_eq_add_one.2 h
    obtain ⟨k', rfl⟩ := Nat.exists_eq_add_one.2 h'
    rfl
  | solution s n more ih =>
    obtain ⟨k, rfl⟩ := Nat.exists_eq_add_one.2 (Nat.zero_lt_of_lt h)
    obtain ⟨k', rfl⟩ := Nat.exists_eq_add_one.2 (Nat.zero_lt_of_lt h')
    simp only [cut]
    rw [ih (Nat.lt_of_succ_lt_succ h) (Nat.lt_of_succ_lt_succ h')]

/-- **Traces one after the other are cut off as their outcomes are put together.** -/
theorem cut_andThen : (tr.andThen next).cut bound want uses =
    Search.andThen (tr.cut bound want uses) want fun k n => (next n).cut bound k n := by
  induction tr generalizing want uses with
  | ended n deep =>
    cases want with
    | zero =>
      rw [cut_zero, cut_zero]
      rfl
    | succ k =>
      cases deep with
      | true => rfl
      | false => exact cut_succ k uses n
  | solution s n more ih =>
    cases want with
    | zero => rfl
    | succ k =>
      simp only [andThen, cut, ih, Search.andThen, List.length_cons, Nat.add_sub_add_right]
      split <;> rfl

end Trace

/-! ### Searches for some number of solutions -/

/-- What is put after an outcome only matters for a positive number of wanted solutions. -/
theorem andThen_congr {o : Outcome} {want : Nat} {next next' : Nat → Nat → Outcome}
    (h : ∀ k n, next (k + 1) n = next' (k + 1) n) : andThen o want next = andThen o want next' := by
  unfold andThen
  split
  · rfl
  · rfl
  · rw [h]

variable {clauses : List Clause} {bound : Nat} {deeper : Solver} {deeperAll : Tracer}

theorem resolve_eq_cut
    (h : ∀ goals s want uses, deeper goals s want uses = (deeperAll goals s uses).cut bound want uses)
    (goal : Literal) (rest : List Literal) (s : Substitution) (cs : List Clause) (k uses : Nat) :
    resolve deeper goal rest s cs (k + 1) uses =
      (resolveAll deeperAll goal rest s cs uses).cut bound (k + 1) uses := by
  induction cs generalizing k uses with
  | nil => rfl
  | cons c cs ih =>
    simp only [resolve, resolveAll]
    split_ifs
    · cases s.unifyAll goal.terms (c.renamed (uses + 1)).head.terms with
      | none => exact (ih k (uses + 1)).trans (Trace.cut_succ k _ _)
      | some t =>
        simp only [h]
        rw [Trace.cut_succ k uses (uses + 1), Trace.cut_andThen]
        exact andThen_congr fun k n => ih k n
    · exact ih k uses

theorem within_eq_cut
    (h : ∀ goals s want uses, deeper goals s want uses = (deeperAll goals s uses).cut bound want uses)
    (goals : List Literal) (s : Substitution) (want uses : Nat) :
    within clauses deeper goals s want uses =
      (withinAll clauses deeperAll goals s uses).cut bound want uses := by
  cases want with
  | zero => rw [Trace.cut_zero]; cases goals <;> rfl
  | succ k =>
    induction goals generalizing s uses with
    | nil => cases k <;> rfl
    | cons goal rest ih =>
      simp only [within, withinAll, if_neg (Nat.succ_ne_zero k)]
      split_ifs
      · -- The look behind a denial is the trace of what is denied, cut off at its first solution.
        rw [h]
        cases deeperAll [goal.positive] s uses with
        | ended n deep =>
          cases deep with
          | true => rfl
          | false => exact (ih s n).trans (Trace.cut_succ k _ _)
        | solution t n more =>
          simp only [Trace.cut, Trace.cut_zero, Bool.false_eq_true, if_false]
      · rcases goal.terms with _ | ⟨a, _ | ⟨b, _ | ⟨_, _⟩⟩⟩
        case cons.cons.nil =>
          simp only []
          cases s.unify a b with
          | none => rfl
          | some t => exact ih t uses
        all_goals rfl
      · exact resolve_eq_cut h goal rest s clauses k uses

theorem beyond_eq_cut (goals : List Literal) (s : Substitution) (want uses : Nat) :
    beyond bound goals s want uses = (beyondAll goals s uses).cut bound want uses := by
  cases goals <;> rcases want with _ | _ | k <;> rfl

/-- **A search for some number of solutions is the search for all of them, cut off.** -/
theorem solve_eq_cut (clauses : List Clause) (bound room : Nat) (goals : List Literal)
    (s : Substitution) (want uses : Nat) : solve clauses bound room goals s want uses =
      (solveAll clauses room goals s uses).cut bound want uses := by
  induction room generalizing goals s want uses with
  | zero => exact beyond_eq_cut goals s want uses
  | succ room ih => exact within_eq_cut ih goals s want uses

end Search
end PassageLogic
