import PassageLogic.Proofs.Logic.SearchSteps
import PassageLogic.Proofs.Logic.Traces

/-! # The limits of a search

* `uses_le`: the number of clause uses never goes down.
* `solve_cap`: a search for fewer solutions finds the first ones of a search for more. `solve_want`:
  if it finds fewer than it wants, then it is the same however many it wants.
* `deepened_steps`: a search with a larger bound finds what the smaller one found; `solve_deeper`: it is
  the same if the smaller one ended without a fault. -/

namespace PassageLogic.Search

variable {clauses : List Clause} {bound room want uses : Nat} {goal : Literal}
  {rest : List Literal} {s t : Substitution}

/-- The search was not cut short. -/
def Finished (want : Nat) (o : Outcome) : Prop := o.fault = none ∧ o.found.length < want

theorem Finished.want_ne_zero {o : Outcome} (h : Finished want o) : want ≠ 0 := by
  have := h.2
  omega

theorem not_finished_iff {o : Outcome} :
    ¬ Finished want o ↔ o.fault ≠ none ∨ want ≤ o.found.length := by
  unfold Finished
  rw [not_and_or, Nat.not_lt]

/-- The second part of a search that was not cut short was not cut short either. -/
theorem Finished.of_append {o : Outcome} {found : List Substitution} {n : Nat}
    (h : Finished want ⟨found ++ o.found, n, o.fault⟩) : Finished (want - found.length) o := by
  have hlt : (found ++ o.found).length < want := h.2
  rw [List.length_append] at hlt
  exact ⟨h.1, by omega⟩

/-! ### The number of clause uses -/

theorem uses_le_steps : Steps clauses bound (fun _ _ _ _ uses o => uses ≤ o.uses)
    (fun _ _ _ _ _ _ uses o => uses ≤ o.uses) where
  done := Nat.le_refl _
  sated := Nat.le_refl _
  tooDeep := fun _ => Nat.le_refl _
  probeFault := fun _ _ h _ _ => h
  probeFound := fun _ _ h _ _ _ => h
  probeEmpty := fun _ _ h _ _ _ h' => Nat.le_trans h h'
  equated := fun _ _ _ _ _ h => h
  unequal := fun _ _ _ _ _ => Nat.le_refl _
  resolved := fun _ _ _ h => h
  exhausted := Nat.le_refl _
  other := fun _ _ h => h
  clash := fun _ _ _ h => Nat.le_of_succ_le h
  ended := fun _ _ _ h _ _ => Nat.le_of_succ_le h
  more := fun _ _ _ h _ _ _ h' => Nat.le_trans (Nat.le_of_succ_le h) h'

/-- The number of clause uses never goes down. -/
theorem uses_le (room : Nat) (goals : List Literal) (s : Substitution) (want uses : Nat) :
    uses ≤ (solve clauses bound room goals s want uses).uses :=
  uses_le_steps.solve room goals s want uses

theorem uses_le_of_solve {goals : List Literal} {o : Outcome}
    (h : solve clauses bound room goals s want uses = o) : uses ≤ o.uses := by
  rw [← h]
  exact uses_le room goals s want uses

/-! ### The number of wanted solutions -/

/-- The outcome of a search for `want` solutions, if the search for more has the outcome `o'`. -/
structure CappedAt (want : Nat) (o' o : Outcome) : Prop where
  found : o.found = o'.found.take want
  same : o'.found.length < want → o = o'
  fault : want ≤ o'.found.length → o.fault = none

/-- **A search for fewer solutions finds the first ones of a search for more**, and is the same if
there are fewer. -/
theorem solve_cap (clauses : List Clause) (bound room : Nat) (goals : List Literal)
    (s : Substitution) (uses : Nat) {want want' : Nat} (h : want ≤ want') :
    CappedAt want (solve clauses bound room goals s want' uses)
      (solve clauses bound room goals s want uses) := by
  rw [solve_eq_cut, solve_eq_cut]
  generalize solveAll clauses room goals s uses = tr
  refine ⟨?_, fun hlt => ?_, fun hle => ?_⟩
  · rw [Trace.found_cut, Trace.found_cut, List.take_take, Nat.min_eq_left h]
  · rw [Trace.found_cut, List.length_take] at hlt
    exact Trace.cut_of_lt (by omega) (by omega)
  · rw [Trace.found_cut, List.length_take] at hle
    rw [Trace.fault_cut, if_pos (by omega)]

/-- A search that ends without enough solutions is the same however many are wanted beyond them. -/
theorem solve_want {goals : List Literal} {s : Substitution} {uses want want' : Nat}
    (h : (solve clauses bound room goals s want uses).found.length < want)
    (h' : (solve clauses bound room goals s want uses).found.length < want') :
    solve clauses bound room goals s want' uses = solve clauses bound room goals s want uses := by
  rw [solve_eq_cut, Trace.found_cut, List.length_take] at h h'
  rw [solve_eq_cut, solve_eq_cut]
  exact Trace.cut_of_lt (by omega) (by omega)

/-! ### The depth -/

/-- An outcome and that of the same search with a larger bound. -/
structure Deepened (o o' : Outcome) : Prop where
  found : o.found <+: o'.found
  same : o.fault = none → o' = o

namespace Deepened

variable {o o' : Outcome}

theorem refl (o : Outcome) : Deepened o o := ⟨List.prefix_refl _, fun _ => rfl⟩

theorem of_fault {n : Nat} {f : Fault} : Deepened ⟨[], n, some f⟩ o' :=
  ⟨List.nil_prefix, fun h => by cases h⟩

theorem append (found : List Substitution) (h : Deepened o o') :
    Deepened ⟨found ++ o.found, o.uses, o.fault⟩ ⟨found ++ o'.found, o'.uses, o'.fault⟩ where
  found := (List.prefix_append_right_inj found).2 h.found
  same hf := by rw [h.same hf]

end Deepened

theorem deepened_steps : Steps clauses bound
    (fun room goals s want uses o => ∀ bound', ∀ room' ≥ room,
      Deepened o (solve clauses bound' room' goals s want uses))
    (fun room goal rest s cs want uses o => ∀ bound', ∀ room' ≥ room,
      Deepened o (resolve (solve clauses bound' room') goal rest s cs want uses)) where
  done := by
    intro room s want uses bound' room' _
    rw [solve_nil]
    exact .refl _
  sated := by
    intro room goal rest s uses bound' room' _
    rw [solve_sated]
    exact .refl _
  tooDeep := fun _ _ _ _ => .of_fault
  probeFault := fun _ _ _ _ _ _ _ _ => .of_fault
  probeFound := by
    intro room goal rest s want uses probe hw hn ih _ hf hfd bound' room' hr
    obtain ⟨k, rfl⟩ := Nat.exists_eq_add_of_le' hr
    rw [← Nat.add_assoc,
      solve_probeFound hw hn ((ih bound' (k + room) (Nat.le_add_left _ _)).same hf) hf hfd]
    exact .refl _
  probeEmpty := by
    intro room goal rest s want uses probe o hw hn ih _ hf hfd ih' bound' room' hr
    obtain ⟨k, rfl⟩ := Nat.exists_eq_add_of_le' hr
    rw [← Nat.add_assoc,
      solve_probeEmpty hw hn ((ih bound' (k + room) (Nat.le_add_left _ _)).same hf) hf hfd]
    exact ih' bound' _ hr
  equated := by
    intro room goal rest s a b t want uses o hw hn he hab hu ih bound' room' hr
    obtain ⟨k, rfl⟩ := Nat.exists_eq_add_of_le' hr
    rw [← Nat.add_assoc, solve_equated hw hn he hab hu]
    exact ih bound' _ hr
  unequal := by
    intro room goal rest s a b want uses hw hn he hab hu bound' room' hr
    obtain ⟨k, rfl⟩ := Nat.exists_eq_add_of_le' hr
    rw [← Nat.add_assoc, solve_unequal hw hn he hab hu]
    exact .refl _
  resolved := by
    intro room goal rest s want uses o hw hn he ih bound' room' hr
    obtain ⟨k, rfl⟩ := Nat.exists_eq_add_of_le' hr
    rw [← Nat.add_assoc, solve_resolved hw hn he]
    exact ih bound' _ (Nat.le_add_left _ _)
  exhausted := fun _ _ _ => .refl _
  other := by
    intro room goal rest s c cs want uses o _ hp ih bound' room' hr
    rw [resolve_other hp]
    exact ih bound' room' hr
  clash := by
    intro room goal rest s c cs want uses o _ hp hu ih bound' room' hr
    rw [resolve_clash hp hu]
    exact ih bound' room' hr
  ended := by
    intro room goal rest s c cs t want uses o _ hp hu ih _ he bound' room' hr
    have hd := ih bound' room' hr
    cases hf : o.fault with
    | none =>
      rw [resolve_ended hp hu (hd.same hf) he]
      exact .refl _
    | some f =>
      -- the larger search may go on with the other clauses after the solutions found here
      refine ⟨hd.found.trans ?_, fun h => absurd (h.symm.trans hf) (by simp)⟩
      generalize hq : solve clauses bound' room' ((c.renamed (uses + 1)).body ++ rest) t want
        (uses + 1) = q
      by_cases hend : q.fault ≠ none ∨ want ≤ q.found.length
      · exact (resolve_ended hp hu hq hend).symm ▸ List.prefix_refl _
      · rw [not_or, not_not, Nat.not_le] at hend
        rw [resolve_more hp hu hq hend.1 hend.2 rfl]
        exact List.prefix_append _ _
  more := by
    intro room goal rest s c cs t want uses o o' _ hp hu ih _ hf hlt ih' bound' room' hr
    rw [resolve_more hp hu ((ih bound' room' hr).same hf) hf hlt rfl]
    exact (ih' bound' room' hr).append o.found

/-- **A search that ends without a fault is the same with a larger bound.** -/
theorem solve_deeper {goals : List Literal} {s : Substitution} {want uses : Nat}
    (h : (solve clauses bound room goals s want uses).fault = none) (bound' : Nat) {room' : Nat}
    (hr : room ≤ room') : solve clauses bound' room' goals s want uses =
      solve clauses bound room goals s want uses :=
  (deepened_steps.solve room goals s want uses bound' room' hr).same h

end PassageLogic.Search
