import PassageLogic.Proofs.Logic.RaisedLimits

/-! # The bound on the depth

A goal that is too deep ends a search on the spot, wherever it comes up. So a search with a larger bound
goes on from there and has the same beginning (`answers_deeper`).

`Looks` says when a search looks behind a denial, at any depth and also behind another denial.
`Looks.outcome`: a look that ends with a fault ends the search with it. Nothing is found after it, so that
the denied goal is taken neither for solved nor for failed. -/

namespace PassageLogic

namespace Search

variable {clauses : List Clause} {bound room want uses : Nat} {s : Substitution}

/-- The only fault of a search is that a goal is too deep. -/
theorem fault_solve (clauses : List Clause) (bound room : Nat) (goals : List Literal)
    (s : Substitution) (want uses : Nat) :
    (solve clauses bound room goals s want uses).fault = none ∨
      (solve clauses bound room goals s want uses).fault = some (.depth bound) := by
  rw [solve_eq_cut, Trace.fault_cut]
  split_ifs
  · exact .inl rfl
  · exact .inr rfl
  · exact .inl rfl

/-! ### Looks behind a denial -/

/-- Where a search stands: before goals, or before the clauses that are left for the first one of them. -/
inductive Place where
  | atGoals (goals : List Literal)
  | atClauses (goal : Literal) (rest : List Literal) (left : List Clause)

/-- What is found from a place on. -/
def Place.outcome (clauses : List Clause) (bound room : Nat) (s : Substitution) (want uses : Nat) :
    Place → Outcome
  | .atGoals goals => solve clauses bound room goals s want uses
  | .atClauses goal rest left => resolve (solve clauses bound room) goal rest s left want uses

/-- **The search from a place looks behind a denial.** It has found these solutions before, and this is
the outcome of the look. A look behind a denial can come to further denials itself. -/
inductive Looks (clauses : List Clause) (bound : Nat) : Nat → Place → Substitution → Nat → Nat →
    List Substitution → Outcome → Prop
  | probe {room goal rest s want uses} : want ≠ 0 → goal.negated = true →
      Looks clauses bound (room + 1) (.atGoals (goal :: rest)) s want uses []
        (solve clauses bound room [goal.positive] s 1 uses)
  | inside {room goal rest s want uses before probe} : want ≠ 0 → goal.negated = true →
      Looks clauses bound room (.atGoals [goal.positive]) s 1 uses before probe →
      Looks clauses bound (room + 1) (.atGoals (goal :: rest)) s want uses [] probe
  | denied {room goal rest s want uses o before probe} : want ≠ 0 → goal.negated = true →
      solve clauses bound room [goal.positive] s 1 uses = o → o.fault = none → o.found = [] →
      Looks clauses bound (room + 1) (.atGoals rest) s want o.uses before probe →
      Looks clauses bound (room + 1) (.atGoals (goal :: rest)) s want uses before probe
  | equated {room goal rest s t a b want uses before probe} : want ≠ 0 → goal.negated = false →
      goal.isEquality = true → goal.terms = [a, b] → s.unify a b = some t →
      Looks clauses bound (room + 1) (.atGoals rest) t want uses before probe →
      Looks clauses bound (room + 1) (.atGoals (goal :: rest)) s want uses before probe
  | resolved {room goal rest s want uses before probe} : want ≠ 0 → goal.negated = false →
      goal.isEquality = false →
      Looks clauses bound room (.atClauses goal rest clauses) s want uses before probe →
      Looks clauses bound (room + 1) (.atGoals (goal :: rest)) s want uses before probe
  | other {room goal rest s c cs want uses before probe} : c.head.samePredicate goal = false →
      Looks clauses bound room (.atClauses goal rest cs) s want uses before probe →
      Looks clauses bound room (.atClauses goal rest (c :: cs)) s want uses before probe
  | clash {room goal rest s c cs want uses before probe} : c.head.samePredicate goal = true →
      s.unifyAll goal.terms (c.renamed (uses + 1)).head.terms = none →
      Looks clauses bound room (.atClauses goal rest cs) s want (uses + 1) before probe →
      Looks clauses bound room (.atClauses goal rest (c :: cs)) s want uses before probe
  | used {room goal rest s t c cs want uses before probe} : c.head.samePredicate goal = true →
      s.unifyAll goal.terms (c.renamed (uses + 1)).head.terms = some t →
      Looks clauses bound room (.atGoals ((c.renamed (uses + 1)).body ++ rest)) t want (uses + 1) before
        probe →
      Looks clauses bound room (.atClauses goal rest (c :: cs)) s want uses before probe
  | more {room goal rest s t c cs want uses o before probe} : c.head.samePredicate goal = true →
      s.unifyAll goal.terms (c.renamed (uses + 1)).head.terms = some t →
      solve clauses bound room ((c.renamed (uses + 1)).body ++ rest) t want (uses + 1) = o →
      o.fault = none → o.found.length < want →
      Looks clauses bound room (.atClauses goal rest cs) s (want - o.found.length) o.uses before probe →
      Looks clauses bound room (.atClauses goal rest (c :: cs)) s want uses (o.found ++ before) probe

/-- **A look that ends with a fault ends the search**, with what was found before it. -/
theorem Looks.outcome {place : Place} {before : List Substitution} {probe : Outcome} {fault : Fault}
    (h : Looks clauses bound room place s want uses before probe) (hf : probe.fault = some fault) :
    place.outcome clauses bound room s want uses = ⟨before, probe.uses, some fault⟩ ∧
      before.length < want := by
  induction h with
  | probe hw hn => exact ⟨solve_probeFault hw hn rfl hf, Nat.pos_of_ne_zero hw⟩
  | inside hw hn _ ih =>
    have hprobe := congrArg Outcome.fault (ih hf).1
    have huses := congrArg Outcome.uses (ih hf).1
    refine ⟨(solve_probeFault hw hn rfl hprobe).trans ?_, Nat.pos_of_ne_zero hw⟩
    exact congrArg (Outcome.mk [] · (some fault)) huses
  | denied hw hn hp hno hnone _ ih =>
    exact ⟨(solve_probeEmpty hw hn hp hno hnone).trans (ih hf).1, (ih hf).2⟩
  | equated hw hn he hab hu _ ih => exact ⟨(solve_equated hw hn he hab hu).trans (ih hf).1, (ih hf).2⟩
  | resolved hw hn he _ ih => exact ⟨(solve_resolved hw hn he).trans (ih hf).1, (ih hf).2⟩
  | other hp _ ih => exact ⟨(resolve_other hp).trans (ih hf).1, (ih hf).2⟩
  | clash hp hu _ ih => exact ⟨(resolve_clash hp hu).trans (ih hf).1, (ih hf).2⟩
  | used hp hu _ ih =>
    exact ⟨resolve_ended hp hu (ih hf).1 (.inl (Option.some_ne_none fault)), (ih hf).2⟩
  | @more _ _ _ _ _ _ _ _ _ o _ _ hp hu ho hno hlt _ ih =>
    obtain ⟨hrest, hbefore⟩ := ih hf
    refine ⟨resolve_more hp hu ho hno hlt hrest, ?_⟩
    rw [List.length_append]
    omega

end Search

/-! ### Streams -/

namespace Store

variable {store : Store} {q : Literal}

/-- The store with another bound on the depth. -/
def withDepth (store : Store) (depth : Nat) : Store :=
  { store with limits := { store.limits with depth } }

/-- The stream ends because a goal was too deep. -/
def EndsTooDeep (store : Store) (q : Literal) : Prop :=
  ∃ bound, (store.answers q).getLast? = some (.error (.depth bound))

theorem fault_search (store : Store) (q : Literal) : (store.search q).fault = none ∨
    (store.search q).fault = some (.depth store.limits.depth) :=
  Search.fault_solve _ _ _ _ _ _ _

theorem answers_of_tooDeep (h : (store.search q).fault = some (.depth store.limits.depth)) :
    store.answers q =
      (store.records q).map Except.ok ++ [.error (.depth store.limits.depth)] := by
  rw [answers_eq, h, records_eq, List.map_map]
  rfl

theorem endsTooDeep_iff : store.EndsTooDeep q ↔
    (store.search q).fault = some (.depth store.limits.depth) := by
  constructor
  · rintro ⟨bound, h⟩
    rcases store.fault_search q with hno | hdeep
    · -- without a fault of the search, a stream ends with a record or with too many answers
      rw [answers_eq, hno] at h
      simp only [] at h
      split_ifs at h
      · rw [List.getLast?_concat] at h
        cases h
      · rw [List.append_nil] at h
        obtain ⟨t, -, ht⟩ := List.mem_map.1 (List.mem_of_getLast? h)
        cases ht
    · exact hdeep
  · intro h
    exact ⟨store.limits.depth, by rw [answers_of_tooDeep h, List.getLast?_concat]⟩

/-- **A larger bound on the depth only extends a stream.** A stream that does not end with a goal that is
too deep is the same under any larger bound. Otherwise its records come first under the larger bound, too.
A look behind a denial that is too deep, also if it is one behind another denial, always shows: the stream
ends with it, after the records of what was found before. -/
theorem answers_deeper (store : Store) (q : Literal) {depth : Nat}
    (h : store.limits.depth ≤ depth) :
    (¬ store.EndsTooDeep q → (store.withDepth depth).answers q = store.answers q) ∧
      (store.EndsTooDeep q → ∃ records : List Record,
        store.answers q = records.map Except.ok ++ [.error (.depth store.limits.depth)] ∧
          records.map Except.ok <+: (store.withDepth depth).answers q) ∧
      ∀ before probe, Search.Looks store.clauses store.limits.depth (store.limits.depth + 1)
          (.atGoals [q]) [] (Limits.above store.limits.answers) 0 before probe → probe.fault ≠ none →
        store.answers q =
          before.map (fun t => .ok (t.project q)) ++ [.error (.depth store.limits.depth)] := by
  refine ⟨fun hno => ?_, fun hdeep => ?_, fun before probe hlooks hfault => ?_⟩
  · have hf : (store.search q).fault = none :=
      (store.fault_search q).resolve_right (mt endsTooDeep_iff.2 hno)
    have hsearch : (store.withDepth depth).search q = store.search q :=
      (Search.run_deepened h q _).same hf
    rw [answers_eq, answers_eq, hsearch, hf]
    rfl
  · have hraised : store.RaisedTo (store.withDepth depth) := ⟨rfl, h, Nat.le_refl _⟩
    exact ⟨store.records q, answers_of_tooDeep (endsTooDeep_iff.1 hdeep), records_begin hraised q⟩
  · obtain ⟨fault, hfault⟩ := Option.ne_none_iff_exists'.1 hfault
    obtain ⟨ho, hlt⟩ := hlooks.outcome hfault
    have hsearch : store.search q = ⟨before, probe.uses, some fault⟩ := ho
    have hdeep : (store.search q).fault = some (.depth store.limits.depth) := by
      refine (store.fault_search q).resolve_left ?_
      rw [hsearch]
      exact Option.some_ne_none fault
    have hle : before.length ≤ store.limits.answers := by
      unfold Limits.above at hlt
      omega
    rw [answers_of_tooDeep hdeep, records_eq, hsearch, List.take_of_length_le hle, List.map_map]
    rfl

/-- Three lamps, which shine unless they are broken; one of them is broken if a storm struck it. -/
def stormStore (depth : Nat) : Store where
  limits := { depth, answers := 10 }
  clauses := [.fact (.of "lamp %" [.const (.text "hall")]), .fact (.of "lamp %" [.const (.text "attic")]),
    .fact (.of "lamp %" [.const (.text "porch")]), .fact (.of "stormy" []),
    ⟨.of "broken %" [.const (.text "attic")], [.of "struck %" [.const (.text "attic")]]⟩,
    ⟨.of "struck %" [.var "x"], [.of "stormy" []]⟩,
    ⟨.of "shines %" [.var "x"],
      [.of "lamp %" [.var "x"], { Literal.of "broken %" [.var "x"] with negated := true }]⟩]

/-- What shines? -/
def shiningQuery : Literal := .of "shines %" [.var "what"]

/-- Is the lamp in the attic whole? -/
def wholeQuery : Literal := { Literal.of "broken %" [.const (.text "attic")] with negated := true }

theorem answers_deeper_storm :
    (stormStore 4).limits.depth ≤ 5 ∧ (stormStore 5).limits.depth ≤ 9 ∧
    -- the look at the lamp in the attic is one step too deep
    (stormStore 4).answers shiningQuery =
      [.ok (.ofList [("what", .text "hall")]), .error (.depth 4)] ∧
    (∃ records : List Record,
      (stormStore 4).answers shiningQuery = records.map Except.ok ++ [.error (.depth 4)] ∧
        records.map Except.ok <+: (stormStore 5).answers shiningQuery) ∧
    (stormStore 5).answers shiningQuery =
      [.ok (.ofList [("what", .text "hall")]), .ok (.ofList [("what", .text "porch")])] ∧
    (stormStore 9).answers shiningQuery = (stormStore 5).answers shiningQuery ∧
    (stormStore 1).answers wholeQuery = [.error (.depth 1)] := by
  have h4 : (stormStore 4).limits.depth ≤ 5 := by decide
  have h5 : (stormStore 5).limits.depth ≤ 9 := by decide
  have hstream : (stormStore 4).answers shiningQuery =
      [.ok (.ofList [("what", .text "hall")]), .error (.depth 4)] := by rfl
  have hstream' : (stormStore 5).answers shiningQuery =
      [.ok (.ofList [("what", .text "hall")]), .ok (.ofList [("what", .text "porch")])] := by rfl
  have hdeep : (stormStore 4).EndsTooDeep shiningQuery := ⟨4, by rw [hstream]; rfl⟩
  have hnot : ¬ (stormStore 5).EndsTooDeep shiningQuery := by
    rintro ⟨bound, hb⟩
    rw [hstream'] at hb
    cases hb
  have hlooks : Search.Looks (stormStore 1).clauses 1 2 (.atGoals [wholeQuery]) [] (Limits.above 10) 0
      [] (Search.solve (stormStore 1).clauses 1 1 [wholeQuery.positive] [] 1 0) :=
    .probe (by decide) rfl
  exact ⟨h4, h5, hstream, (answers_deeper (stormStore 4) shiningQuery h4).2.1 hdeep, hstream',
    (answers_deeper (stormStore 5) shiningQuery h5).1 hnot,
    (answers_deeper (stormStore 1) wholeQuery (Nat.le_refl 1)).2.2 _ _ hlooks (by decide +kernel)⟩

end Store
end PassageLogic
