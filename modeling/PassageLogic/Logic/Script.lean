import PassageLogic.Logic.Engine
import PassageLogic.Logic.Transient

/-! # Scripted engines

A scripted engine stores nothing. It answers the queries of a predicate with prepared streams, one
after the other and the last one again when they run out, and it fails the calls that it is told to
fail. Predicates of conjunctions are looked up by their generic names. -/

namespace PassageLogic

/-- What a scripted engine does. -/
structure Script where
  /-- The streams of the queries of a predicate. -/
  rounds : List (String × List (List Item))
  /-- The faults of assertions, by the predicate of the head. -/
  assertFaults : List (String × Fault)
  /-- The faults of retractions, by the predicate of the head. -/
  retractFaults : List (String × Fault)
  /-- The faults of queries, by predicate. -/
  queryFaults : List (String × Fault)

namespace Script

/-- The stream of the `k`-th query of a predicate, from zero. -/
def stream (script : Script) (predicate : String) (k : Nat) : List Item :=
  let streams := (script.rounds.lookup predicate).getD []
  streams.getD k (streams.getLastD [])

/-- The engine of a script; its state is the predicates of the queries that it has answered. -/
def engine (script : Script) : Engine (List String) where
  assert c s :=
    match script.assertFaults.lookup (Transient.generic c.head.predicate) with
    | some fault => (.error fault, s)
    | none => (.ok (), s)
  retract c s :=
    match script.retractFaults.lookup (Transient.generic c.head.predicate) with
    | some fault => (.error fault, s)
    | none => (.ok true, s)
  query q s :=
    let predicate := Transient.generic q.predicate
    match script.queryFaults.lookup predicate with
    | some fault => (.error fault, s)
    | none => (.ok (script.stream predicate (s.count predicate)), predicate :: s)

end Script
end PassageLogic
