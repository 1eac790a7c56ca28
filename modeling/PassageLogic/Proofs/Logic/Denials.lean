import PassageLogic.Proofs.Logic.Depth
import PassageLogic.Proofs.Logic.Uncapped
import PassageLogic.Proofs.Logic.Unification

/-! # Denied queries

The look behind a denied query is the search behind the query itself, one step deeper and for one solution
only. So the answer to the denied query is decided by how the stream of the query begins
(`Store.answers_denied`). -/

namespace PassageLogic

/-- The denial of a literal. -/
def Literal.denied (l : Literal) : Literal := { l with negated := true }

theorem Literal.positive_denied {l : Literal} (h : l.negated = false) : l.denied.positive = l := by
  cases l
  cases h
  rfl

/-- Without bindings no variable has a value. -/
theorem Substitution.project_nil (l : Literal) : Substitution.project [] l = .empty := by
  refine Record.ext_get? fun name => ?_
  rw [get?_project]
  exact ite_self _

namespace Search

/-- **A denial is decided by the first of all solutions** of what it denies, or else by whether a goal is
too deep. -/
theorem solve_denied (clauses : List Clause) (bound room : Nat) {goal : Literal}
    (hg : goal.negated = false) (s : Substitution) (k uses : Nat) :
    ∃ n, solve clauses bound (room + 1) [goal.denied] s (k + 1) uses =
      match solveAll clauses room [goal] s uses with
      | .ended _ true => ⟨[], n, some (.depth bound)⟩
      | .ended _ false => ⟨[s], n, none⟩
      | .solution _ _ _ => ⟨[], n, none⟩ := by
  have hw : k + 1 ≠ 0 := Nat.succ_ne_zero k
  have hprobe : solve clauses bound room [goal.denied.positive] s 1 uses =
      (solveAll clauses room [goal] s uses).cut bound 1 uses := by
    rw [Literal.positive_denied hg, solve_eq_cut]
  cases htr : solveAll clauses room [goal] s uses with
  | ended n deep =>
    rw [htr] at hprobe
    cases deep with
    | true => exact ⟨n, solve_probeFault hw rfl hprobe rfl⟩
    | false => exact ⟨n, (solve_probeEmpty hw rfl hprobe rfl rfl).trans solve_nil⟩
  | solution t n more =>
    rw [htr] at hprobe
    simp only [Trace.cut, Trace.cut_zero] at hprobe
    exact ⟨n, solve_probeFound hw rfl hprobe rfl (List.cons_ne_nil _ _)⟩

end Search

namespace Store

variable {store : Store} {q : Literal}

/-- An answer is taken, and a solution is looked for. -/
theorem exists_limits (hm : 1 ≤ store.limits.answers) :
    ∃ m k, store.limits.answers = m + 1 ∧ Limits.above store.limits.answers = k + 1 := by
  obtain ⟨m, hlimit⟩ := Nat.exists_eq_add_one.2 hm
  obtain ⟨k, habove⟩ := Nat.exists_eq_add_one_of_ne_zero (Limits.above_ne_zero store.limits.answers)
  exact ⟨m, k, hlimit, habove⟩

/-- A stream begins with the first of all solutions, or else with a fault if a goal is too deep. -/
theorem head_answers (hm : 1 ≤ store.limits.answers) (q : Literal) :
    (store.answers q).head? =
      match store.uncapped q with
      | .ended _ true => some (.error (.depth store.limits.depth))
      | .ended _ false => none
      | .solution t _ _ => some (.ok (t.project q)) := by
  obtain ⟨m, k, hlimit, habove⟩ := exists_limits hm
  have hcut : store.search q = (store.uncapped q).cut store.limits.depth (k + 1) 0 := by
    rw [← habove]
    exact Search.solve_eq_cut _ _ _ _ _ _ _
  rw [answers_eq, hcut, hlimit]
  cases store.uncapped q with
  | ended n deep => cases deep <;> rfl
  | solution t n more => rfl

/-- The stream of a denied query under a bound that is larger by one. -/
theorem answers_denied_uncapped (hm : 1 ≤ store.limits.answers) (hq : q.negated = false) :
    (store.withDepth (store.limits.depth + 1)).answers q.denied =
      match store.uncapped q with
      | .ended _ true => [.error (.depth (store.limits.depth + 1))]
      | .ended _ false => [.ok .empty]
      | .solution _ _ _ => [] := by
  obtain ⟨m, k, hlimit, habove⟩ := exists_limits hm
  obtain ⟨n, hdenied⟩ := Search.solve_denied store.clauses (store.limits.depth + 1)
    (store.limits.depth + 1) hq [] k 0
  have hsearch : (store.withDepth (store.limits.depth + 1)).search q.denied =
      Search.solve store.clauses (store.limits.depth + 1) (store.limits.depth + 2) [q.denied] []
        (k + 1) 0 := by
    rw [← habove]
    rfl
  have hanswers : (store.withDepth (store.limits.depth + 1)).limits.answers = m + 1 := hlimit
  have htrace : store.uncapped q = Search.solveAll store.clauses (store.limits.depth + 1) [q] [] 0 := rfl
  rw [answers_eq, hsearch, hdenied, hanswers, ← htrace]
  cases store.uncapped q with
  | ended n deep =>
    cases deep with
    | true => rfl
    | false =>
      -- the one solution binds nothing, and it stays within the limit
      simp only [List.take_succ_cons, List.take_nil, List.map_cons, List.map_nil, List.length_singleton,
        Substitution.project_nil]
      rw [if_neg (by omega), List.append_nil]
  | solution t n more => rfl

/-- **Negation as failure is exact.** A denied query holds, with no values to give, just if the query has
no answers; it fails just if the query has an answer first; and it is too deep just if the stream of the
query begins with a fault. The bound of the denied query is larger by one, for the look behind it. -/
theorem answers_denied (store : Store) {q : Literal} (hq : q.negated = false)
    (hm : 1 ≤ store.limits.answers) :
    let stream := store.answers q
    let denied := (store.withDepth (store.limits.depth + 1)).answers q.denied
    (denied = [.ok .empty] ↔ stream = []) ∧
      (denied = [] ↔ ∃ record, stream.head? = some (.ok record)) ∧
      (denied = [.error (.depth (store.limits.depth + 1))] ↔
        ∃ fault, stream.head? = some (.error fault)) := by
  intro stream denied
  have hstream : stream = [] ↔ stream.head? = none := List.head?_eq_none_iff.symm
  rw [hstream, show stream.head? = _ from head_answers hm q,
    show denied = _ from answers_denied_uncapped hm hq]
  cases store.uncapped q with
  | ended n deep => cases deep <;> simp
  | solution t n more => simp

/-- Is the lamp of this place broken? -/
def brokenQuery (place : String) : Literal := .of "broken %" [.const (.text place)]

theorem answers_denied_storm :
    (∀ place, (brokenQuery place).negated = false) ∧ (∀ depth, 1 ≤ (stormStore depth).limits.answers) ∧
    (stormStore 4).answers (brokenQuery "hall") = [] ∧
    (stormStore 5).answers (brokenQuery "hall").denied = [.ok .empty] ∧
    (stormStore 4).answers (brokenQuery "attic") = [.ok .empty] ∧
    (stormStore 5).answers (brokenQuery "attic").denied = [] ∧
    (stormStore 1).answers (brokenQuery "attic") = [.error (.depth 1)] ∧
    (stormStore 2).answers (brokenQuery "attic").denied = [.error (.depth 2)] := by
  have hq : ∀ place, (brokenQuery place).negated = false := fun _ => rfl
  have hm : ∀ depth, 1 ≤ (stormStore depth).limits.answers := fun _ => Nat.succ_pos 9
  have hhall : (stormStore 4).answers (brokenQuery "hall") = [] := by rfl
  have hattic : (stormStore 4).answers (brokenQuery "attic") = [.ok .empty] := by rfl
  have hdeep : (stormStore 1).answers (brokenQuery "attic") = [.error (.depth 1)] := by rfl
  exact ⟨hq, hm, hhall, (answers_denied (stormStore 4) (hq "hall") (hm 4)).1.2 hhall, hattic,
    (answers_denied (stormStore 4) (hq "attic") (hm 4)).2.1.2 ⟨.empty, by rw [hattic]; rfl⟩, hdeep,
    (answers_denied (stormStore 1) (hq "attic") (hm 1)).2.2.2 ⟨.depth 1, by rw [hdeep]; rfl⟩⟩

end Store
end PassageLogic
