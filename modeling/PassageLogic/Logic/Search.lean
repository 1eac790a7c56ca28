import PassageLogic.Logic.Engine
import PassageLogic.Logic.Substitution

/-! # Depth-first search

Goals are solved from left to right. A goal is resolved with the clauses of its predicate in the
order of the store, each use with variables of its own; an equality is unified; a denied goal holds
if what it denies has no solution. Each use of a clause and each look behind a denial is one step
deeper, and the depth is bounded: a goal at a depth beyond the bound is a fault that ends the search.
The search also ends as soon as it has found as many solutions as are wanted. -/

namespace PassageLogic

/-- What a search has found: solutions in order, the number of clause uses so far, and the fault that
ended it, if one did. -/
structure Outcome where
  found : List Substitution
  uses : Nat
  fault : Option Fault

namespace Search

/-- A way to solve goals under a substitution, for a number of wanted solutions and a number of
clause uses so far. -/
abbrev Solver := List Literal → Substitution → Nat → Nat → Outcome

/-- The two outcomes one after the other, unless the first one ended the search. -/
def andThen (o : Outcome) (want : Nat) (next : Nat → Nat → Outcome) : Outcome :=
  match o.fault, want - o.found.length with
  | some _, _ => o
  | none, 0 => o
  | none, k + 1 =>
    let o' := next (k + 1) o.uses
    ⟨o.found ++ o'.found, o'.uses, o'.fault⟩

/-- Resolve a goal with clauses, and go on with their bodies and the rest of the goals. -/
def resolve (deeper : Solver) (goal : Literal) (rest : List Literal) (s : Substitution) :
    List Clause → Nat → Nat → Outcome
  | [], _, uses => ⟨[], uses, none⟩
  | c :: cs, want, uses =>
    if c.head.samePredicate goal then
      let used := c.renamed (uses + 1)
      match s.unifyAll goal.terms used.head.terms with
      | none => resolve deeper goal rest s cs want (uses + 1)
      | some t =>
        andThen (deeper (used.body ++ rest) t want (uses + 1)) want
          (resolve deeper goal rest s cs)
    else resolve deeper goal rest s cs want uses

/-- Solve goals at a depth within the bound, given how to solve them one step deeper. -/
def within (clauses : List Clause) (deeper : Solver) : Solver
  | [], s, want, uses => ⟨if want = 0 then [] else [s], uses, none⟩
  | goal :: rest, s, want, uses =>
    if want = 0 then ⟨[], uses, none⟩
    else if goal.negated then
      let probe := deeper [goal.positive] s 1 uses
      match probe.fault, probe.found with
      | some fault, _ => ⟨[], probe.uses, some fault⟩
      | none, [] => within clauses deeper rest s want probe.uses
      | none, _ :: _ => ⟨[], probe.uses, none⟩
    else if goal.isEquality then
      match goal.terms with
      | [a, b] =>
        match s.unify a b with
        | some t => within clauses deeper rest t want uses
        | none => ⟨[], uses, none⟩
      | _ => ⟨[], uses, none⟩
    else resolve deeper goal rest s clauses want uses

/-- Solve goals at a depth beyond the bound: only no goals at all are solved there. -/
def beyond (bound : Nat) : Solver
  | [], s, want, uses => ⟨if want = 0 then [] else [s], uses, none⟩
  | _ :: _, _, want, uses => ⟨[], uses, if want = 0 then none else some (.depth bound)⟩

/-- Solve goals with `room` depths left within the bound. -/
def solve (clauses : List Clause) (bound : Nat) : Nat → Solver
  | 0 => beyond bound
  | room + 1 => within clauses (solve clauses bound room)

/-- All solutions of a goal up to a number of them. -/
def run (clauses : List Clause) (bound : Nat) (goal : Literal) (want : Nat) : Outcome :=
  solve clauses bound (bound + 1) [goal] [] want 0

end Search
end PassageLogic
