import PassageLogic.Logic.Term
import PassageLogic.Logic.Record

/-! # Substitutions and unification

A substitution binds variables to terms, the latest binding first. Since terms are flat, following
the bindings of a term is a walk along a chain of variables. The unifier binds only variables at the
end of their chain, and never to themselves, so chains have no cycle and no more steps than there are
bindings. -/

namespace PassageLogic

/-- Bindings of variables, the latest first. -/
abbrev Substitution := List (String × Term)

namespace Substitution

/-- The term at the end of a chain of at most `k` bindings. -/
def walkWithin (s : Substitution) : Nat → Term → Term
  | 0, t => t
  | _ + 1, .const value => .const value
  | k + 1, .var name =>
    match s.lookup name with
    | some t => walkWithin s k t
    | none => .var name

/-- The term at the end of the chain of bindings. -/
def walk (s : Substitution) (t : Term) : Term := s.walkWithin s.length t

/-- The substitution that also makes two terms equal, if there is one. -/
def unify (s : Substitution) (a b : Term) : Option Substitution :=
  match s.walk a, s.walk b with
  | .var x, .var y => if x = y then some s else some ((x, .var y) :: s)
  | .var x, .const v => some ((x, .const v) :: s)
  | .const v, .var y => some ((y, .const v) :: s)
  | .const v, .const w => if v == w then some s else none

/-- The substitution that also makes two lists of terms equal, position by position. -/
def unifyAll (s : Substitution) : List Term → List Term → Option Substitution
  | [], [] => some s
  | a :: as, b :: bs =>
    match s.unify a b with
    | some t => unifyAll t as bs
    | none => none
  | _, _ => none

/-- The values that a literal's variables have, where they have one. -/
def project (s : Substitution) (l : Literal) : Record :=
  Record.ofList <| l.vars.filterMap fun name =>
    match s.walk (.var name) with
    | .const value => some (name, value)
    | .var _ => none

end Substitution
end PassageLogic
