import PassageLogic.Logic.Term
import PassageLogic.Logic.Record

/-! # Engines

An engine keeps clauses and answers queries. All that the rest of the library knows of one are three
calls that read and change its state. A query is answered by a finite list of items, each a record or
a fault: a fault can come after answers. -/

namespace PassageLogic

/-- A failure of an engine. -/
inductive Fault where
  /-- There are more answers than the engine gives. -/
  | answerLimit (limit : Nat)
  /-- The search went deeper than it may. -/
  | depth (bound : Nat)
  /-- The head of a clause is denied. -/
  | negatedHead (predicate : String)
  /-- The engine itself failed. -/
  | backend (message : String)
deriving DecidableEq

/-- The report of a failure of an engine. -/
def Fault.message : Fault → String
  | .answerLimit limit => "Query exceeded answer limit of " ++ toString limit
  | .depth bound => "Resolution exceeded depth " ++ toString bound
  | .negatedHead predicate => "Cannot store a negated clause head: " ++ predicate
  | .backend message => "Engine failure: " ++ message

/-- The bounds of a search. -/
structure Limits where
  /-- The number of nested clause uses. -/
  depth : Nat := 256
  /-- The number of answers to one query. -/
  answers : Nat := 10000
deriving DecidableEq

/-- The largest number that a limit can be. -/
def Limits.largest : Nat := 0xFFFFFFFFFFFFFFFF

/-- The number of answers to look for under a limit: one more, to see that there are more. -/
def Limits.above (limit : Nat) : Nat := min (limit + 1) largest

/-- One item of the answer to a query. -/
abbrev Item := Except Fault Record

/-- The calls of an engine whose state is a `σ`. -/
structure Engine (σ : Type) where
  /-- Store a clause. -/
  assert : Clause → σ → Except Fault Unit × σ
  /-- Remove a clause, and tell whether one was there. -/
  retract : Clause → σ → Except Fault Bool × σ
  /-- Answer a query. -/
  query : Literal → σ → Except Fault (List Item) × σ

/-- A call of an engine. -/
inductive Call where
  | assert (clause : Clause)
  | retract (clause : Clause)
  | query (literal : Literal)
deriving DecidableEq

/-- The engine that writes down every call, the latest first, before it makes it. -/
def Engine.logged {σ : Type} (e : Engine σ) : Engine (σ × List Call) where
  assert c s :=
    let (r, t) := e.assert c s.1
    (r, t, .assert c :: s.2)
  retract c s :=
    let (r, t) := e.retract c s.1
    (r, t, .retract c :: s.2)
  query l s :=
    let (r, t) := e.query l s.1
    (r, t, .query l :: s.2)

end PassageLogic
