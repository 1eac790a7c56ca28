import PassageLogic.Logic.Value

/-! # Terms, literals and clauses

Terms are flat: a variable or a value. A literal applies a predicate to terms, or denies that. A
clause is a head that holds whenever all literals of its body do; without a body it is a fact. -/

namespace PassageLogic

/-- A variable or a value. -/
inductive Term where
  | var (name : String)
  | const (value : Value)
deriving DecidableEq, BEq

namespace Term

/-- The term is a variable. -/
def isVar : Term → Bool
  | .var _ => true
  | .const _ => false

/-- The name of a variable. -/
def name? : Term → Option String
  | .var name => some name
  | .const _ => none

/-- The term with its variable renamed. -/
def mapVars (f : String → String) : Term → Term
  | .var name => .var (f name)
  | .const value => .const value

theorem mem_names {ts : List Term} {name : String} :
    name ∈ ts.filterMap name? ↔ .var name ∈ ts := by
  rw [List.mem_filterMap]
  constructor
  · rintro ⟨t, ht, hname⟩
    cases t with
    | var y =>
      cases hname
      exact ht
    | const v => cases hname
  · intro h
    exact ⟨_, h, rfl⟩

end Term

/-- The name of the built-in equality. -/
def equalsPredicate : String := "% = %"

/-- A predicate applied to terms, or the denial of that. -/
structure Literal where
  predicate : String
  terms : List Term
  negated : Bool
deriving DecidableEq, BEq

namespace Literal

/-- The literal that is not denied. -/
def of (predicate : String) (terms : List Term) : Literal := ⟨predicate, terms, false⟩

/-- The number of terms. -/
def arity (l : Literal) : Nat := l.terms.length

/-- Both literals have the same predicate and as many terms. -/
def samePredicate (l m : Literal) : Bool := l.predicate == m.predicate && l.arity == m.arity

/-- The literal is the built-in equality of two terms. -/
def isEquality (l : Literal) : Bool := l.predicate == equalsPredicate && l.arity == 2

/-- The names of the variables, in the order in which they first occur. -/
def vars (l : Literal) : List String := (l.terms.filterMap Term.name?).eraseDups

theorem mem_vars {l : Literal} {name : String} : name ∈ l.vars ↔ .var name ∈ l.terms := by
  unfold vars
  rw [List.mem_eraseDups, Term.mem_names]

/-- The literal with its variables renamed. -/
def mapVars (f : String → String) (l : Literal) : Literal :=
  { l with terms := l.terms.map (Term.mapVars f) }

/-- The literal that says what this one denies, or itself. -/
def positive (l : Literal) : Literal := { l with negated := false }

end Literal

/-- A head that holds if every literal of the body does. -/
structure Clause where
  head : Literal
  body : List Literal
deriving DecidableEq, BEq

namespace Clause

/-- The clause that says that a literal holds. -/
def fact (head : Literal) : Clause := ⟨head, []⟩

/-- The clause has no body. -/
def isFact (c : Clause) : Bool := c.body.isEmpty

/-- The names of the variables of head and body, in the order in which they first occur. -/
def vars (c : Clause) : List String :=
  ((c.head :: c.body).flatMap fun l => l.terms.filterMap Term.name?).eraseDups

theorem mem_vars {c : Clause} {name : String} :
    name ∈ c.vars ↔ ∃ l ∈ c.head :: c.body, .var name ∈ l.terms := by
  unfold vars
  simp only [List.mem_eraseDups, List.mem_flatMap, Term.mem_names]

/-- The clause with its variables renamed. -/
def mapVars (f : String → String) (c : Clause) : Clause :=
  ⟨c.head.mapVars f, c.body.map (Literal.mapVars f)⟩

/-- The name of the `k`-th variable of a canonical clause. -/
def canonicalName (k : Nat) : String := "_" ++ toString k

/-- The clause with its variables numbered in the order in which they first occur. -/
def canonical (c : Clause) : Clause := c.mapVars fun name => canonicalName (c.vars.idxOf name)

/-- The clauses are equal up to the names of their variables. -/
def isVariant (c d : Clause) : Bool := c.canonical == d.canonical

/-- The name of a variable of a clause, marked with the number of a use. -/
def useName (n : Nat) (name : String) : String := name ++ "#" ++ toString n

/-- The clause with every variable marked with the number of a use. -/
def renamed (c : Clause) (n : Nat) : Clause := c.mapVars (useName n)

end Clause
end PassageLogic
