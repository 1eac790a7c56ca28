import PassageLogic.Logic.Search

/-! # The clause store

A store keeps clauses in the order in which they were asserted, no two of them equal up to the names
of their variables, and answers queries by depth-first search. The stream of a query ends with a
fault if the search did, or if there are more answers than the limit. -/

namespace PassageLogic

/-- Clauses and the bounds of the search for answers. -/
structure Store where
  limits : Limits
  clauses : List Clause

namespace Store

/-- The store without clauses. -/
def empty (limits : Limits) : Store := ⟨limits, []⟩

/-- Some clause of the store is equal to this one up to the names of variables. -/
def hasVariant (s : Store) (c : Clause) : Bool := s.clauses.any fun d => d.isVariant c

/-- The clauses without the first one that is a variant of `c`. -/
def eraseVariant (c : Clause) (cs : List Clause) : List Clause := cs.eraseP fun d => d.isVariant c

/-- Store a clause at the end, unless it is there already. -/
def assert (c : Clause) (s : Store) : Except Fault Unit × Store :=
  if c.head.negated then (.error (.negatedHead c.head.predicate), s)
  else if s.hasVariant c then (.ok (), s)
  else (.ok (), { s with clauses := s.clauses ++ [c] })

/-- Remove a clause. -/
def retract (c : Clause) (s : Store) : Bool × Store :=
  (s.hasVariant c, { s with clauses := eraseVariant c s.clauses })

/-- The stream of answers to a query. -/
def answers (s : Store) (q : Literal) : List Item :=
  let limit := s.limits.answers
  let o := Search.run s.clauses s.limits.depth q (Limits.above limit)
  let records := (o.found.take limit).map fun t => Except.ok (t.project q)
  match o.fault with
  | some fault => records ++ [.error fault]
  | none => if limit < o.found.length then records ++ [.error (.answerLimit limit)] else records

/-- The store as an engine. -/
def engine : Engine Store where
  assert := assert
  retract c s := let (removed, t) := s.retract c; (.ok removed, t)
  query q s := (.ok (s.answers q), s)

end Store
end PassageLogic
