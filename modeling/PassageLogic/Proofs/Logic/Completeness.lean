import PassageLogic.Proofs.Logic.Freshness
import PassageLogic.Proofs.Logic.SearchLimits
import PassageLogic.Proofs.Logic.Soundness

/-! # Completeness of the search

If a search over clauses without denials ends without a fault and finds fewer solutions than it
wants, then it misses none: every assignment that makes its goals true extends to one that satisfies
a solution (`complete`). At a clause that makes a goal true, the assignment is changed on the
variables of the next use of the clause, and only there; so the names of the state must be old.

The least model is that of the values other than NaN. A fact about NaN is not found by a query about NaN
(`search_misses_nan`), since unification compares values by their equality. -/

namespace PassageLogic

open Classical in
/-- The assignment with the values `η` for the variables of the `n`-th use of a clause. -/
noncomputable def Assignment.withUse (θ η : Assignment) (n : Nat) : Assignment := fun name =>
  if h : ∃ x, name = Clause.useName n x then η h.choose else θ name

theorem Assignment.withUse_useName (θ η : Assignment) (n : Nat) (x : String) :
    withUse θ η n (Clause.useName n x) = η x := by
  have h : ∃ y, Clause.useName n x = Clause.useName n y := ⟨x, rfl⟩
  have hx := (useName_inj.1 h.choose_spec).2
  unfold withUse
  rw [dif_pos h, ← hx]

theorem Assignment.withUse_old (θ η : Assignment) {uses : Nat} {name : String}
    (h : Old uses name) : withUse θ η (uses + 1) name = θ name := by
  unfold withUse
  rw [dif_neg]
  rintro ⟨x, hx⟩
  exact h.ne_useName hx

namespace Literal

variable {E : Value → Value → Prop} {clauses : List Clause} {θ η : Assignment} {p : String → Prop}
  {l : Literal}

theorem valuesIn_congr (hl : l.NamesIn p) (h : ∀ name, p name → η name = θ name) :
    l.valuesIn η = l.valuesIn θ := by
  refine List.map_congr_left fun a ha => ?_
  cases a with
  | const v => rfl
  | var name => exact h name (hl _ ha name rfl)

theorem TrueIn.congr (ht : l.TrueIn E clauses θ) (hl : l.NamesIn p)
    (h : ∀ name, p name → η name = θ name) : l.TrueIn E clauses η := by
  rw [TrueIn, HoldsIn, valuesIn_congr hl h]
  exact ht

/-- A literal of a clause has the same values in the use, under the values for the use. -/
theorem valuesIn_useName (l : Literal) (n : Nat) :
    (l.mapVars (Clause.useName n)).valuesIn (θ.withUse η n) = l.valuesIn η := by
  rw [valuesIn_mapVars]
  congr 1
  exact funext fun x => Assignment.withUse_useName θ η n x

theorem trueIn_useName (n : Nat) :
    (l.mapVars (Clause.useName n)).TrueIn E clauses (θ.withUse η n) ↔ l.TrueIn E clauses η := by
  rw [TrueIn, TrueIn, HoldsIn, HoldsIn, valuesIn_useName]
  rfl

end Literal

namespace Search

variable {clauses : List Clause} {bound : Nat}

/-- A state of a search whose names are all old and whose goals are not denied. -/
structure Settled (uses : Nat) (s : Substitution) (goals : List Literal) : Prop where
  acyclic : s.Acyclic
  names : s.NamesIn (Old uses)
  goalNames : ∀ g ∈ goals, g.NamesIn (Old uses)
  positive : ∀ g ∈ goals, g.negated = false

theorem Settled.mono {uses uses' : Nat} {s : Substitution} {goals : List Literal}
    (h : Settled uses s goals) (hle : uses ≤ uses') : Settled uses' s goals where
  acyclic := h.acyclic
  names := h.names.mono fun _ hx => hx.mono hle
  goalNames g hg := (h.goalNames g hg).mono fun _ hx => hx.mono hle
  positive := h.positive

/-- The state after an equality. -/
theorem Settled.unify {uses : Nat} {s t : Substitution} {goal : Literal} {rest : List Literal}
    {a b : Term} (h : Settled uses s (goal :: rest)) (hab : goal.terms = [a, b])
    (hu : s.unify a b = some t) : Settled uses t rest where
  acyclic := Substitution.acyclic_unify h.acyclic hu
  names := by
    have hg := h.goalNames goal List.mem_cons_self
    exact h.names.unify h.acyclic (hg a (by simp [hab])) (hg b (by simp [hab])) hu
  goalNames g hg := h.goalNames g (List.mem_cons_of_mem _ hg)
  positive g hg := h.positive g (List.mem_cons_of_mem _ hg)

/-- The state after the use of a clause. -/
theorem Settled.use (hd : DenialFree clauses) {uses : Nat} {s t : Substitution} {goal : Literal}
    {rest : List Literal} {c : Clause} (hc : c ∈ clauses) (h : Settled uses s (goal :: rest))
    (hu : s.unifyAll goal.terms (c.renamed (uses + 1)).head.terms = some t) :
    Settled (uses + 1) t ((c.renamed (uses + 1)).body ++ rest) := by
  have h' := h.mono (Nat.le_succ uses)
  obtain ⟨hhead, hbody⟩ := c.namesIn_renamed (uses + 1)
  refine ⟨Substitution.acyclic_unifyAll h.acyclic hu,
    h'.names.unifyAll h.acyclic (h'.goalNames goal List.mem_cons_self) hhead hu,
    fun g hg => ?_, hd.body_append hc _ fun g hg => h.positive g (List.mem_cons_of_mem _ hg)⟩
  rcases List.mem_append.1 hg with hg | hg
  · exact hbody g hg
  · exact h'.goalNames g (List.mem_cons_of_mem _ hg)

/-- Some solution is satisfied by an assignment that agrees with `θ` on old names. -/
def Found (uses : Nat) (θ : Assignment) (o : Outcome) : Prop :=
  ∃ t ∈ o.found, ∃ η, t.SatisfiedBy Value.Equal η ∧ ∀ name, Old uses name → η name = θ name

/-- The clause makes the literal true. -/
def Supports (clauses : List Clause) (θ : Assignment) (goal : Literal) (c : Clause) : Prop :=
  c.head.samePredicate goal = true ∧ ∃ η : Assignment,
    (∀ m ∈ c.body, m.TrueIn Value.Equal clauses η) ∧
      SameValues Value.Equal (c.head.valuesIn η) (goal.valuesIn θ)

/-- The head of a clause that makes a goal true unifies with the goal, under the assignment with
the clause's own values for the variables of the use; the body is true under it. -/
theorem Supports.use {uses : Nat} {s : Substitution} {goal : Literal} {rest : List Literal}
    {c : Clause} {θ : Assignment} (h : Supports clauses θ goal c)
    (hst : Settled uses s (goal :: rest)) (hθ : s.SatisfiedBy Value.Equal θ)
    (hrest : ∀ g ∈ rest, g.TrueIn Value.Equal clauses θ) :
    ∃ η : Assignment, s.SatisfiedBy Value.Equal η ∧
      Term.AgreeIn Value.Equal η goal.terms (c.renamed (uses + 1)).head.terms ∧
      (∀ g ∈ (c.renamed (uses + 1)).body ++ rest, g.TrueIn Value.Equal clauses η) ∧
      ∀ name, Old uses name → η name = θ name := by
  obtain ⟨-, η, hb, hv⟩ := h
  have hold : ∀ name, Old uses name → θ.withUse η (uses + 1) name = θ name := fun _ hn =>
    Assignment.withUse_old θ η hn
  refine ⟨θ.withUse η (uses + 1), hθ.congr hst.names hold, ?_, fun g hg => ?_, hold⟩
  · have hhead : (c.renamed (uses + 1)).head.valuesIn (θ.withUse η (uses + 1)) = c.head.valuesIn η :=
      Literal.valuesIn_useName c.head (uses + 1)
    rw [← sameValues_valuesIn, Literal.valuesIn_congr (hst.goalNames goal List.mem_cons_self) hold,
      hhead]
    exact hv.symm Value.equating_equal
  · rcases List.mem_append.1 hg with hg | hg
    · obtain ⟨m, hm, rfl⟩ := List.mem_map.1 hg
      exact (Literal.trueIn_useName _).2 (hb m hm)
    · exact (hrest g hg).congr (hst.goalNames g (List.mem_cons_of_mem _ hg)) hold

theorem complete_steps (hd : DenialFree clauses) : Steps clauses bound
    (fun _ goals s want uses o => Settled uses s goals → Finished want o →
      ∀ θ, s.SatisfiedBy Value.Equal θ → (∀ g ∈ goals, g.TrueIn Value.Equal clauses θ) →
        Found uses θ o)
    (fun _ goal rest s cs want uses o => Settled uses s (goal :: rest) → Finished want o →
      ∀ θ, s.SatisfiedBy Value.Equal θ → (∀ g ∈ rest, g.TrueIn Value.Equal clauses θ) →
      (∃ c ∈ cs, Supports clauses θ goal c) → Found uses θ o) where
  done := by
    rintro room s want uses - ⟨-, hw⟩ θ hθ -
    split_ifs at hw ⊢ with h
    · exact absurd hw (by omega)
    · exact ⟨s, List.mem_singleton_self s, θ, hθ, fun _ _ => rfl⟩
  sated := fun _ h => absurd h.2 (Nat.not_lt_zero _)
  tooDeep := fun _ _ h => by cases h.1
  probeFault := fun _ _ _ _ _ _ h => by cases h.1
  probeFound := by
    intro room goal rest s want uses probe _ hn _ _ _ _ hst
    rw [hst.positive goal List.mem_cons_self] at hn
    cases hn
  probeEmpty := by
    intro room goal rest s want uses probe o _ hn _ _ _ _ _ hst
    rw [hst.positive goal List.mem_cons_self] at hn
    cases hn
  equated := by
    intro room goal rest s a b t want uses o _ _ he hab hu ih hst hf θ hθ hg
    rw [List.forall_mem_cons, Literal.trueIn_equality he hab] at hg
    have ht := hθ.unify Value.equating_equal hst.acyclic hu hg.1
    exact ih (hst.unify hab hu) hf θ ht hg.2
  unequal := by
    intro room goal rest s a b want uses _ _ he hab hu hst _ θ hθ hg
    rw [List.forall_mem_cons, Literal.trueIn_equality he hab] at hg
    exact absurd hg.1 (Substitution.unify_eq_none hst.acyclic hu hθ)
  resolved := by
    intro room goal rest s want uses o _ _ he ih hst hf θ hθ hg
    rw [List.forall_mem_cons, Literal.trueIn_iff_clause he] at hg
    exact ih hst hf θ hθ hg.2 hg.1
  exhausted := by
    rintro room goal rest s want uses - - θ - - ⟨c, hc, -⟩
    cases hc
  other := by
    rintro room goal rest s c cs want uses o - hp ih hst hf θ hθ hg ⟨d, hd', hsup⟩
    rcases List.mem_cons.1 hd' with rfl | hd'
    · exact absurd hsup.1 (by rw [hp]; decide)
    · exact ih hst hf θ hθ hg ⟨d, hd', hsup⟩
  clash := by
    rintro room goal rest s c cs want uses o - hp hu ih hst hf θ hθ hg ⟨d, hd', hsup⟩
    rcases List.mem_cons.1 hd' with rfl | hd'
    · obtain ⟨η, hη, hag, -⟩ := hsup.use hst hθ hg
      exact absurd hag (Substitution.unifyAll_eq_none hst.acyclic hu hη)
    · obtain ⟨t, ht, η, hη, hold⟩ := ih (hst.mono (Nat.le_succ _)) hf θ hθ hg ⟨d, hd', hsup⟩
      exact ⟨t, ht, η, hη, fun name hn => hold name (hn.mono (Nat.le_succ _))⟩
  ended := by
    rintro room goal rest s c cs t want uses o - _ _ _ _ (h | h) _ hf
    · exact absurd hf.1 h
    · exact absurd hf.2 (by omega)
  more := by
    rintro room goal rest s c cs t want uses o o' hc hp hu ih ho hf hlt ih' hst hfin θ hθ hg
      ⟨d, hd', hsup⟩
    have hle := uses_le_of_solve ho
    rcases List.mem_cons.1 hd' with rfl | hd'
    · -- the clause itself: its body and the other goals are true
      obtain ⟨η, hη, hag, htrue, hold⟩ := hsup.use hst hθ hg
      have ht := hη.unifyAll Value.equating_equal hst.acyclic hu hag
      obtain ⟨u, hu', ζ, hζ, hζo⟩ := ih (hst.use hd hc hu) ⟨hf, hlt⟩ η ht htrue
      refine ⟨u, List.mem_append_left _ hu', ζ, hζ, fun name hn => ?_⟩
      rw [hζo name (hn.mono (Nat.le_succ _)), hold name hn]
    · -- a later clause: the run goes on to it
      obtain ⟨u, hu', ζ, hζ, hζo⟩ :=
        ih' (hst.mono (by omega)) hfin.of_append θ hθ hg ⟨d, hd', hsup⟩
      exact ⟨u, List.mem_append_right _ hu', ζ, hζ, fun name hn => hζo name (hn.mono (by omega))⟩

/-- **A search that is not cut short misses no solution.** -/
theorem complete (hd : DenialFree clauses) {room want uses : Nat} {goals : List Literal}
    {s : Substitution} (hst : Settled uses s goals)
    (hf : Finished want (solve clauses bound room goals s want uses)) {θ : Assignment}
    (hθ : s.SatisfiedBy Value.Equal θ) (hg : ∀ g ∈ goals, g.TrueIn Value.Equal clauses θ) :
    Found uses θ (solve clauses bound room goals s want uses) :=
  (complete_steps hd).solve room goals s want uses hst hf θ hθ hg

end Search

/-- **Completeness.** If the stream of a query without marks in its variable names shows no fault,
then every assignment that makes the query true in the least model of the values other than NaN agrees
with some record of the stream. A stream of `Limits.largest` records, more than any memory holds, is cut
off there without a fault; it is the only exception. -/
theorem search_complete (store : Store) (q : Literal) (hd : DenialFree store.clauses)
    (hq : q.negated = false) (hv : ∀ name ∈ q.vars, '#' ∉ name.toList) (hok : ¬ store.Fails q)
    (hlen : (store.answers q).length < Limits.largest) (θ : Assignment)
    (hθ : q.TrueIn Value.Equal store.clauses θ) :
    ∃ r, .ok r ∈ store.answers q ∧ r.AgreesWith Value.Equal θ := by
  have hgoal : ∀ {p : Literal → Prop}, p q → ∀ g ∈ [q], p g := fun h g hg => by
    rw [List.mem_singleton.1 hg]
    exact h
  have hst : Search.Settled 0 [] [q] := ⟨Substitution.acyclic_nil, Substitution.namesIn_nil,
    hgoal (Literal.namesIn_of_vars fun name hn => old_of_no_hash (hv name hn) 0), hgoal hq⟩
  obtain ⟨t, ht, η, hη, hold⟩ := Search.complete hd hst (Store.search_finished hok hlen)
    (Substitution.satisfiedBy_nil θ) (hgoal hθ)
  have hacyclic := (Search.run_sound Value.equating_equal hd hq ht).1
  refine ⟨t.project q, ?_, fun name v hb => ?_⟩
  · rw [Store.answers_of_not_fails hok]
    exact List.mem_map.2 ⟨t, ht, rfl⟩
  · rw [Substitution.get?_project] at hb
    split_ifs at hb with hn
    rw [← hold name (old_of_no_hash (hv name hn) 0)]
    -- the chain of a variable that ends at a value has a binding
    have hw := (Substitution.walk_leads hacyclic (.var name)).value Value.equating_equal hη
    rw [Term.value?_eq_some.1 hb] at hw
    exact hw.resolve_left (by simp)

/-- Two roads, one after the other, and where they lead. -/
def roadStore : Store where
  limits := {}
  clauses :=
    [.fact (.of "road % %" [.const (.text "a"), .const (.text "b")]),
      .fact (.of "road % %" [.const (.text "b"), .const (.text "c")]),
      ⟨.of "leads % %" [.var "x", .var "y"], [.of "road % %" [.var "x", .var "y"]]⟩,
      ⟨.of "leads % %" [.var "x", .var "z"],
        [.of "road % %" [.var "x", .var "y"], .of "leads % %" [.var "y", .var "z"]]⟩]

/-- Where the roads lead from `from`. -/
def roadQuery : Literal := .of "leads % %" [.var "from", .var "to"]

/-- From `a` to `c`. -/
def longWay : Assignment := fun name => .text (if name = "from" then "a" else "c")

theorem roadQuery_trueIn : roadQuery.TrueIn Value.Equal roadStore.clauses longWay := by
  have hroad : LeastModel Value.Equal roadStore.clauses "road % %" [.text "a", .text "b"] :=
    .clause (c := .fact (.of "road % %" [.const (.text "a"), .const (.text "b")]))
      (.head _) rfl longWay (fun l hl => absurd hl List.not_mem_nil) (.cons rfl (.cons rfl .nil))
  have hroad' : LeastModel Value.Equal roadStore.clauses "road % %" [.text "b", .text "c"] :=
    .clause (c := .fact (.of "road % %" [.const (.text "b"), .const (.text "c")]))
      (.tail _ (.head _)) rfl longWay (fun l hl => absurd hl List.not_mem_nil) (.cons rfl (.cons rfl .nil))
  have hlast : LeastModel Value.Equal roadStore.clauses "leads % %" [.text "b", .text "c"] := by
    refine .clause (c := ⟨.of "leads % %" [.var "x", .var "y"],
      [.of "road % %" [.var "x", .var "y"]]⟩) (.tail _ (.tail _ (.head _))) rfl
      (fun name => .text (if name = "x" then "b" else "c")) (fun l hl => ?_) (.cons rfl (.cons rfl .nil))
    obtain rfl := List.mem_singleton.1 hl
    exact hroad'
  refine .clause (c := ⟨.of "leads % %" [.var "x", .var "z"],
    [.of "road % %" [.var "x", .var "y"], .of "leads % %" [.var "y", .var "z"]]⟩)
    (.tail _ (.tail _ (.tail _ (.head _)))) rfl
    (fun name => .text (if name = "x" then "a" else if name = "y" then "b" else "c"))
    (fun l hl => ?_) (.cons rfl (.cons rfl .nil))
  rcases List.mem_cons.1 hl with rfl | hl
  · exact hroad
  · obtain rfl := List.mem_singleton.1 hl
    exact hlast

theorem search_complete_roads :
    DenialFree roadStore.clauses ∧ roadQuery.negated = false ∧
      (∀ name ∈ roadQuery.vars, '#' ∉ name.toList) ∧ ¬ roadStore.Fails roadQuery ∧
      (roadStore.answers roadQuery).length < Limits.largest ∧
      roadQuery.TrueIn Value.Equal roadStore.clauses longWay ∧
      ∃ r, .ok r ∈ roadStore.answers roadQuery ∧ r.AgreesWith Value.Equal longWay := by
  have hd : DenialFree roadStore.clauses := by decide
  have hv : ∀ name ∈ roadQuery.vars, '#' ∉ name.toList := by decide
  have hok : ¬ roadStore.Fails roadQuery :=
    Store.not_fails_iff.2 ⟨by rfl, by decide +kernel⟩
  have hlen : (roadStore.answers roadQuery).length < Limits.largest := by decide +kernel
  exact ⟨hd, rfl, hv, hok, hlen, roadQuery_trueIn,
    search_complete roadStore roadQuery hd rfl hv hok hlen longWay roadQuery_trueIn⟩

/-- A fact about NaN. -/
def nanFact : Literal := .of "p %" [.const .nan]

/-- **A fact about NaN is not found**: the query for it has no answer and no fault. -/
theorem search_misses_nan : ¬ ∀ (store : Store) (q : Literal), DenialFree store.clauses →
    q.negated = false → (∀ name ∈ q.vars, '#' ∉ name.toList) → ¬ store.Fails q →
      ∀ θ, q.TrueIn Value.Alike store.clauses θ →
        ∃ r, .ok r ∈ store.answers q ∧ r.AgreesWith Value.Alike θ := by
  intro h
  let store : Store := ⟨{}, [.fact nanFact]⟩
  have hempty : store.answers nanFact = [] := by rfl
  have hok : ¬ store.Fails nanFact := Store.not_fails_iff.2 ⟨by rfl, by decide +kernel⟩
  have htrue : nanFact.TrueIn Value.Alike store.clauses fun _ => .nan :=
    .clause (c := .fact nanFact) (.head _) rfl (fun _ => .nan) (fun l hl => absurd hl List.not_mem_nil)
      (.cons (.refl _) .nil)
  obtain ⟨r, hr, -⟩ := h store nanFact (by decide) rfl (by decide) hok _ htrue
  rw [hempty] at hr
  cases hr

end PassageLogic
