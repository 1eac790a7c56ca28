import PassageLogic.Proofs.Logic.Traces
import PassageLogic.Proofs.Logic.Streams

/-! # The limit on answers

The stream of a query shows the first of all solutions that there are, and then a fault if there are more
of them or a goal was too deep (`Store.answers_uncapped`). -/

namespace PassageLogic

namespace Search

/-- **If more solutions are wanted than there are, then the search finds all of them**, and ends with a
fault just if a goal was too deep. -/
theorem solve_of_lt (clauses : List Clause) (bound room : Nat) (goals : List Literal)
    (s : Substitution) {want : Nat} (uses : Nat)
    (h : (solveAll clauses room goals s uses).solutions.length < want) :
    (solve clauses bound room goals s want uses).found =
        (solveAll clauses room goals s uses).solutions ∧
      (solve clauses bound room goals s want uses).fault =
        if (solveAll clauses room goals s uses).tooDeep then some (.depth bound) else none := by
  rw [solve_eq_cut, Trace.found_cut, Trace.fault_cut, List.take_of_length_le (Nat.le_of_lt h),
    if_neg (Nat.not_le.2 h)]
  exact ⟨rfl, rfl⟩

/-- **A search for one solution** finds the first of all solutions, and ends with a fault just if there is
none and a goal was too deep. -/
theorem solve_one (clauses : List Clause) (bound room : Nat) (goals : List Literal)
    (s : Substitution) (uses : Nat) :
    (solve clauses bound room goals s 1 uses).found =
        (solveAll clauses room goals s uses).solutions.take 1 ∧
      (solve clauses bound room goals s 1 uses).fault =
        if (solveAll clauses room goals s uses).solutions = [] ∧
            (solveAll clauses room goals s uses).tooDeep = true then
          some (.depth bound) else none := by
  rw [solve_eq_cut, Trace.found_cut, Trace.fault_cut]
  refine ⟨rfl, ?_⟩
  cases (solveAll clauses room goals s uses).solutions with
  | nil => simp
  | cons t more => simp

end Search

/-! ### Streams -/

namespace Store

/-- All that there is to find for a query, without a cap on answers. -/
def uncapped (store : Store) (q : Literal) : Search.Trace :=
  Search.solveAll store.clauses (store.limits.depth + 1) [q] [] 0

/-- **The limit on answers cuts off a prefix of all answers.** The stream shows the records of the first
solutions, up to the limit, and then one fault at most: that there are more solutions, or else that a goal
was too deep. All solutions are what a search finds if more are wanted than there are; and the look behind
a denial decides by the first of all solutions of what is denied. -/
theorem answers_uncapped (store : Store) (q : Literal) (hm : store.limits.answers < Limits.largest) :
    (∀ want, (store.uncapped q).solutions.length < want →
      let o := Search.run store.clauses store.limits.depth q want
      o.found = (store.uncapped q).solutions ∧
        o.fault = if (store.uncapped q).tooDeep then some (.depth store.limits.depth) else none) ∧
      store.answers q =
        ((store.uncapped q).solutions.take store.limits.answers).map (fun t => .ok (t.project q)) ++
          (if store.limits.answers < (store.uncapped q).solutions.length then
            [.error (.answerLimit store.limits.answers)]
          else if (store.uncapped q).tooDeep then [.error (.depth store.limits.depth)]
          else []) ∧
      ∀ room goal s uses,
        let probe := Search.solve store.clauses store.limits.depth room [goal] s 1 uses
        let all := Search.solveAll store.clauses room [goal] s uses
        probe.found = all.solutions.take 1 ∧
          probe.fault = if all.solutions = [] ∧ all.tooDeep = true then
            some (.depth store.limits.depth) else none := by
  refine ⟨fun want hwant => Search.solve_of_lt _ _ _ _ _ _ hwant, ?_,
    fun room goal s uses => Search.solve_one store.clauses _ room [goal] s uses⟩
  have habove : Limits.above store.limits.answers = store.limits.answers + 1 := by
    unfold Limits.above
    omega
  have hcut : store.search q =
      (store.uncapped q).cut store.limits.depth (store.limits.answers + 1) 0 := by
    unfold search
    rw [habove]
    exact Search.solve_eq_cut _ _ _ _ _ _ _
  rw [answers_eq, hcut, Search.Trace.found_cut, Search.Trace.fault_cut, List.take_take,
    List.length_take, Nat.min_eq_left (Nat.le_succ _)]
  congr 1
  by_cases hlt : store.limits.answers < (store.uncapped q).solutions.length
  · rw [if_pos (Nat.succ_le_of_lt hlt), if_pos hlt]
    exact if_pos (by omega)
  · rw [if_neg (by omega), if_neg hlt]
    cases (store.uncapped q).tooDeep with
    | true => rfl
    | false => exact if_neg (by omega)

/-- Three lamps, of which those that are not broken shine; one answer to a query. -/
def lampStore : Store where
  limits := { answers := 1 }
  clauses := [.fact (.of "lamp %" [.const (.text "hall")]), .fact (.of "lamp %" [.const (.text "attic")]),
    .fact (.of "lamp %" [.const (.text "porch")]), .fact (.of "broken %" [.const (.text "attic")]),
    ⟨.of "shines %" [.var "x"],
      [.of "lamp %" [.var "x"], { Literal.of "broken %" [.var "x"] with negated := true }]⟩]

/-- What shines? -/
def lampQuery : Literal := .of "shines %" [.var "what"]

theorem answers_uncapped_lamps :
    lampStore.limits.answers < Limits.largest ∧ (lampStore.uncapped lampQuery).solutions.length = 2 ∧
    lampStore.answers lampQuery =
      ((lampStore.uncapped lampQuery).solutions.take 1).map (fun t => .ok (t.project lampQuery)) ++
        [.error (.answerLimit 1)] ∧
    lampStore.answers lampQuery =
      [.ok (.ofList [("what", .text "hall")]), .error (.answerLimit 1)] :=
  have hm : lampStore.limits.answers < Limits.largest := by decide
  have hlength : (lampStore.uncapped lampQuery).solutions.length = 2 := by decide +kernel
  ⟨hm, hlength, (answers_uncapped lampStore lampQuery hm).2.1.trans
    (congrArg _ (if_pos (hlength.symm ▸ Nat.one_lt_two))), by rfl⟩

end Store
end PassageLogic
