import PassageLogic.Proofs.Logic.HerbrandModel
import PassageLogic.Proofs.Logic.SearchSteps
import PassageLogic.Proofs.Logic.Streams

/-! # Soundness of the search

Every substitution that a search finds is a system of equations that includes the one it started
from and makes all its goals true in the least Herbrand model (`sound`). Names play no part in
this: variables of a clause that clash with others only add equations. `search_sound` states it for
queries and for the records of their answers: for all values if NaN is taken to equal itself, and, where
neither the clauses nor the query hold NaN, for equality as it is. The exception is real
(`search_answers_nan`). -/

namespace PassageLogic

/-- The assignment gives every name the value that the record gives it. -/
def Record.ExtendedBy (r : Record) (θ : Assignment) : Prop :=
  ∀ name v, r.get? name = some v → θ name = v

/-- The assignment gives every name a value equal to the one that the record gives it. -/
def Record.AgreesWith (E : Value → Value → Prop) (r : Record) (θ : Assignment) : Prop :=
  ∀ name v, r.get? name = some v → E (θ name) v

namespace Search

variable {E : Value → Value → Prop} {clauses : List Clause} {bound : Nat}

/-! ### Solutions make goals true -/

/-- The solution entails the substitution and, in the least model, the goals. -/
def Entails (E : Value → Value → Prop) (clauses : List Clause) (s : Substitution)
    (goals : List Literal) (t : Substitution) : Prop :=
  t.Acyclic ∧ ∀ θ : Assignment, θ.Proper E → t.SatisfiedBy E θ →
    s.SatisfiedBy E θ ∧ ∀ g ∈ goals, g.TrueIn E clauses θ

variable (hE : Value.Equating E)
include hE

/-- A goal that agrees with the head of a clause is true where the body of the clause is. -/
theorem trueIn_of_head {c : Clause} {goal : Literal} {θ : Assignment} {n : Nat}
    (hc : c ∈ clauses) (hp : c.head.samePredicate goal = true) (he : goal.isEquality = false)
    (hθ : Term.AgreeIn E θ goal.terms (c.renamed n).head.terms)
    (hb : ∀ l ∈ (c.renamed n).body, l.TrueIn E clauses θ) : goal.TrueIn E clauses θ := by
  rw [Literal.trueIn_iff_clause he]
  refine ⟨c, hc, hp, θ ∘ Clause.useName n, fun m hm => ?_, ?_⟩
  · rw [← Literal.trueIn_mapVars]
    exact hb _ (List.mem_map_of_mem hm)
  · rw [← Literal.valuesIn_mapVars]
    exact (sameValues_valuesIn.2 hθ).symm hE

/-- Solutions of the body of a clause and the other goals are solutions of the goal and them. -/
theorem Entails.of_body {c : Clause} {goal : Literal} {rest : List Literal}
    {s t u : Substitution} {n : Nat} (hs : s.Acyclic) (hc : c ∈ clauses)
    (hp : c.head.samePredicate goal = true) (he : goal.isEquality = false)
    (hu : s.unifyAll goal.terms (c.renamed n).head.terms = some u)
    (h : Entails E clauses u ((c.renamed n).body ++ rest) t) :
    Entails E clauses s (goal :: rest) t := by
  refine ⟨h.1, fun θ hθp hθ => ?_⟩
  obtain ⟨hu1, hall⟩ := h.2 θ hθp hθ
  obtain ⟨hs1, hag⟩ := (Substitution.satisfiedBy_unifyAll hE hs hu hθp).1 hu1
  refine ⟨hs1, fun g hg => ?_⟩
  rcases List.mem_cons.1 hg with rfl | hg
  · exact trueIn_of_head hE hc hp he hag fun l hl => hall l (List.mem_append_left _ hl)
  · exact hall g (List.mem_append_right _ hg)

theorem sound_steps (hd : DenialFree clauses) : Steps clauses bound
    (fun _ goals s _ _ o => s.Acyclic → (∀ g ∈ goals, g.negated = false) →
      ∀ t ∈ o.found, Entails E clauses s goals t)
    (fun _ goal rest s _ _ _ o => s.Acyclic → goal.isEquality = false →
      (∀ g ∈ rest, g.negated = false) → ∀ t ∈ o.found, Entails E clauses s (goal :: rest) t) where
  done := by
    intro room s want uses hs _ t ht
    split_ifs at ht with hw
    · cases ht
    · obtain rfl := List.mem_singleton.1 ht
      exact ⟨hs, fun θ _ hθ => ⟨hθ, fun g hg => by cases hg⟩⟩
  sated := fun _ _ t ht => absurd ht List.not_mem_nil
  tooDeep := fun _ _ _ t ht => absurd ht List.not_mem_nil
  probeFault := fun _ _ _ _ _ _ _ t ht => absurd ht List.not_mem_nil
  probeFound := fun _ _ _ _ _ _ _ _ t ht => absurd ht List.not_mem_nil
  probeEmpty := by
    intro room goal rest s want uses probe o _ hn _ _ _ _ _ _ hg
    -- there are no denied goals
    rw [hg goal List.mem_cons_self] at hn
    cases hn
  equated := by
    intro room goal rest s a b u want uses o _ _ he hab hu ih hs hg t ht
    obtain ⟨ht1, ht2⟩ := ih (Substitution.acyclic_unify hs hu)
      (fun g h => hg g (List.mem_cons_of_mem _ h)) t ht
    refine ⟨ht1, fun θ hθp hθ => ?_⟩
    obtain ⟨h1, h2⟩ := ht2 θ hθp hθ
    rw [Substitution.satisfiedBy_unify hE hs hu hθp] at h1
    refine ⟨h1.1, fun g hg => ?_⟩
    rcases List.mem_cons.1 hg with rfl | hg
    · exact (Literal.trueIn_equality he hab).2 h1.2
    · exact h2 g hg
  unequal := fun _ _ _ _ _ _ _ t ht => absurd ht List.not_mem_nil
  resolved := by
    intro room goal rest s want uses o _ _ he ih hs hg
    exact ih hs he fun g h => hg g (List.mem_cons_of_mem _ h)
  exhausted := fun _ _ _ t ht => absurd ht List.not_mem_nil
  other := fun _ _ ih => ih
  clash := fun _ _ _ ih => ih
  ended := by
    intro room goal rest s c cs u want uses o hc hp hu ih _ _ hs he hg t ht
    have hu1 := Substitution.acyclic_unifyAll hs hu
    exact .of_body hE hs hc hp he hu (ih hu1 (hd.body_append hc _ hg) t ht)
  more := by
    intro room goal rest s c cs u want uses o o' hc hp hu ih _ _ _ ih' hs he hg t ht
    rcases List.mem_append.1 ht with ht | ht
    · have hu1 := Substitution.acyclic_unifyAll hs hu
      exact .of_body hE hs hc hp he hu (ih hu1 (hd.body_append hc _ hg) t ht)
    · exact ih' hs he hg t ht

/-- **Every solution entails the goals.** -/
theorem sound (hd : DenialFree clauses) {room want uses : Nat} {goals : List Literal}
    {s t : Substitution} (hs : s.Acyclic) (hg : ∀ g ∈ goals, g.negated = false)
    (ht : t ∈ (solve clauses bound room goals s want uses).found) : Entails E clauses s goals t :=
  (sound_steps hE hd).solve room goals s want uses hs hg t ht

theorem run_sound (hd : DenialFree clauses) {q : Literal} (hq : q.negated = false) {want : Nat}
    {t : Substitution} (ht : t ∈ (run clauses bound q want).found) :
    t.Acyclic ∧ ∀ θ : Assignment, θ.Proper E → t.SatisfiedBy E θ → q.TrueIn E clauses θ := by
  obtain ⟨h1, h2⟩ := sound hE hd Substitution.acyclic_nil
    (fun g hg => by rw [List.mem_singleton.1 hg]; exact hq) ht
  exact ⟨h1, fun θ hθp hθ => (h2 θ hθp hθ).2 q List.mem_cons_self⟩

omit hE

/-! ### Solutions of proper goals -/

/-- The use of a clause of proper terms leaves proper goals. -/
theorem proper_use (hcs : ∀ c ∈ clauses, c.Proper E) {c : Clause} (hc : c ∈ clauses)
    {goal : Literal} {rest : List Literal} {s u : Substitution} {n : Nat} (hs : s.Acyclic)
    (hp : s.Proper E) (hg : ∀ g ∈ goal :: rest, g.Proper E)
    (hu : s.unifyAll goal.terms (c.renamed n).head.terms = some u) :
    u.Proper E ∧ ∀ g ∈ (c.renamed n).body ++ rest, g.Proper E := by
  have hused : (c.renamed n).Proper E := Clause.proper_mapVars.2 (hcs c hc)
  obtain ⟨hgoal, hrest⟩ := List.forall_mem_cons.1 hg
  obtain ⟨hhead, hbody⟩ := List.forall_mem_cons.1 hused
  exact ⟨hp.unifyAll hs hgoal hhead hu, List.forall_mem_append.2 ⟨hbody, hrest⟩⟩

theorem proper_steps (hcs : ∀ c ∈ clauses, c.Proper E) : Steps clauses bound
    (fun _ goals s _ _ o => s.Acyclic → s.Proper E → (∀ g ∈ goals, g.Proper E) →
      ∀ t ∈ o.found, t.Proper E)
    (fun _ goal rest s _ _ _ o => s.Acyclic → s.Proper E → (∀ g ∈ goal :: rest, g.Proper E) →
      ∀ t ∈ o.found, t.Proper E) where
  done := by
    intro room s want uses _ hp _ t ht
    split_ifs at ht
    · cases ht
    · rwa [List.mem_singleton.1 ht]
  sated := fun _ _ _ t ht => absurd ht List.not_mem_nil
  tooDeep := fun _ _ _ _ t ht => absurd ht List.not_mem_nil
  probeFault := fun _ _ _ _ _ _ _ _ t ht => absurd ht List.not_mem_nil
  probeFound := fun _ _ _ _ _ _ _ _ _ t ht => absurd ht List.not_mem_nil
  probeEmpty := fun _ _ _ _ _ _ ih hs hp hg => ih hs hp (List.forall_mem_cons.1 hg).2
  equated := by
    intro room goal rest s a b u want uses o _ _ _ hab hu ih hs hp hg
    obtain ⟨hgoal, hrest⟩ := List.forall_mem_cons.1 hg
    have hu1 := hp.unify hs (hgoal a (by simp [hab])) (hgoal b (by simp [hab])) hu
    exact ih (Substitution.acyclic_unify hs hu) hu1 hrest
  unequal := fun _ _ _ _ _ _ _ _ t ht => absurd ht List.not_mem_nil
  resolved := fun _ _ _ ih => ih
  exhausted := fun _ _ _ t ht => absurd ht List.not_mem_nil
  other := fun _ _ ih => ih
  clash := fun _ _ _ ih => ih
  ended := by
    intro room goal rest s c cs u want uses o hc _ hu ih _ _ hs hp hg
    obtain ⟨hu1, hgoals⟩ := proper_use hcs hc hs hp hg hu
    exact ih (Substitution.acyclic_unifyAll hs hu) hu1 hgoals
  more := by
    intro room goal rest s c cs u want uses o o' hc _ hu ih _ _ _ ih' hs hp hg
    obtain ⟨hu1, hgoals⟩ := proper_use hcs hc hs hp hg hu
    exact List.forall_mem_append.2
      ⟨ih (Substitution.acyclic_unifyAll hs hu) hu1 hgoals, ih' hs hp hg⟩

/-- **Solutions of proper goals bind variables to proper terms.** -/
theorem run_proper (hcs : ∀ c ∈ clauses, c.Proper E) {q : Literal} (hq : q.Proper E) {want : Nat}
    {t : Substitution} (ht : t ∈ (run clauses bound q want).found) : t.Proper E :=
  (proper_steps hcs).solve _ [q] [] want 0 Substitution.acyclic_nil Substitution.proper_nil
    (by simpa using hq) t ht

end Search

/-! ### Answers -/

variable {E : Value → Value → Prop} {q : Literal}

/-- A literal whose variables have equal values is true under both assignments or under neither. -/
theorem Literal.trueIn_of_same (hE : Value.Equating E) (hproper : q.Proper E) {clauses : List Clause}
    {θ η : Assignment} (h : ∀ name ∈ q.vars, E (θ name) (η name)) (hq : q.TrueIn E clauses θ) :
    q.TrueIn E clauses η := by
  refine LeastModel.respects hE ?_ hq
  unfold SameValues valuesIn
  rw [List.forall₂_map_left_iff, List.forall₂_map_right_iff, List.forall₂_same]
  intro a ha
  cases a with
  | const v => exact Term.proper_const.1 (hproper _ ha)
  | var name => exact h name (List.mem_eraseDups.2 (List.mem_filterMap.2 ⟨_, ha, rfl⟩))

/-- **The answers to the query are true**, with equality read in this sense. -/
structure Store.Sound (E : Value → Value → Prop) (store : Store) (q : Literal) : Prop where
  /-- Whatever the limits, an assignment that satisfies a solution makes the query true. -/
  solution : ∀ want, ∀ t ∈ (Search.run store.clauses store.limits.depth q want).found,
    ∀ θ : Assignment, θ.Proper E → t.SatisfiedBy E θ → q.TrueIn E store.clauses θ
  /-- A record extends to a true instance of the query. -/
  record : ∀ r, .ok r ∈ store.answers q → ∃ θ, r.ExtendedBy θ ∧ q.TrueIn E store.clauses θ
  /-- A record with a value for every variable is a true instance of the query. -/
  complete : ∀ r, .ok r ∈ store.answers q → (∀ name ∈ q.vars, r.contains name = true) →
    ∀ θ, r.AgreesWith E θ → q.TrueIn E store.clauses θ

/-- The answers are true in every reading in which clauses and query are proper. -/
theorem Store.sound_of_proper (hE : Value.Equating E) {store : Store} (hd : DenialFree store.clauses)
    (hq : q.negated = false) (hclauses : ∀ c ∈ store.clauses, c.Proper E) (hproper : q.Proper E) :
    store.Sound E q := by
  have hrecord : ∀ r, .ok r ∈ store.answers q → ∃ θ, r.ExtendedBy θ ∧ q.TrueIn E store.clauses θ := by
    intro r hr
    obtain ⟨t, ht, rfl⟩ := Store.mem_answers hr
    obtain ⟨ha, htrue⟩ := Search.run_sound hE hd hq ht
    obtain ⟨η, hηp, hη, hval⟩ :=
      Substitution.exists_satisfies hE ha (Search.run_proper hclauses hproper ht)
    refine ⟨η, fun name v hv => ?_, htrue η hηp hη⟩
    rw [Substitution.get?_project] at hv
    split_ifs at hv with hn
    exact hval name v (Term.value?_eq_some.1 hv)
  refine ⟨fun want t ht => (Search.run_sound hE hd hq ht).2, hrecord, fun r hr hall θ hθ => ?_⟩
  obtain ⟨η, hext, htrue⟩ := hrecord r hr
  refine Literal.trueIn_of_same hE hproper (fun name hn => ?_) htrue
  obtain ⟨v, hv⟩ := Option.isSome_iff_exists.1 (hall name hn)
  rw [hext name v hv]
  exact hE.symm (hθ name v hv)

/-- **Soundness.** The answers to a query are true in the least model in which NaN equals itself, as
every other value does. If neither the clauses nor the query hold NaN, then they are true in the least model
of the values other than NaN. -/
theorem search_sound (store : Store) (q : Literal) (hd : DenialFree store.clauses)
    (hq : q.negated = false) :
    store.Sound Value.Alike q ∧
      ((∀ c ∈ store.clauses, c.Proper Value.Equal) → q.Proper Value.Equal →
        store.Sound Value.Equal q) :=
  ⟨Store.sound_of_proper Value.equating_alike hd hq (fun c _ => c.proper_alike) q.proper_alike,
    Store.sound_of_proper Value.equating_equal hd hq⟩

/-- A rule and a fact. -/
def pizzaStore : Store where
  limits := {}
  clauses :=
    [⟨.of "likes % %" [.var "x", .const (.text "pizza")], [.of "hungry %" [.var "x"]]⟩,
      .fact (.of "hungry %" [.const (.text "sam")])]

/-- A query whose variable has the name that the variable of the rule gets in its first use. -/
def pizzaQuery : Literal := .of "likes % %" [.var "x#1", .const (.text "pizza")]

theorem search_sound_pizza :
    DenialFree pizzaStore.clauses ∧ pizzaQuery.negated = false ∧
      (∀ c ∈ pizzaStore.clauses, c.Proper Value.Equal) ∧ pizzaQuery.Proper Value.Equal ∧
      .ok (Record.ofList [("x#1", .text "sam")]) ∈ pizzaStore.answers pizzaQuery ∧
      pizzaQuery.TrueIn Value.Equal pizzaStore.clauses fun _ => .text "sam" := by
  have hd : DenialFree pizzaStore.clauses := by decide
  have hclauses : ∀ c ∈ pizzaStore.clauses, c.Proper Value.Equal := by decide
  have hproper : pizzaQuery.Proper Value.Equal := by decide
  have hmem : .ok (Record.ofList [("x#1", .text "sam")]) ∈ pizzaStore.answers pizzaQuery := by
    rw [show pizzaStore.answers pizzaQuery = [.ok (Record.ofList [("x#1", .text "sam")])] by rfl]
    exact List.mem_singleton_self _
  refine ⟨hd, rfl, hclauses, hproper, hmem,
    ((search_sound pizzaStore pizzaQuery hd rfl).2 hclauses hproper).complete _ hmem ?_ _ ?_⟩
  · decide
  · intro name v h
    rw [show Record.ofList [("x#1", Value.text "sam")] = Record.empty.insert "x#1" (.text "sam")
      from rfl, Record.get?_insert] at h
    split_ifs at h
    · cases h
      rfl
    · cases h

/-- What is NaN? -/
def nanQuery : Literal := .of equalsPredicate [.var "x", .const .nan]

/-- **NaN is the answer to what equals NaN**, though nothing equals it. -/
theorem search_answers_nan : ¬ ∀ (store : Store) (q : Literal), DenialFree store.clauses →
    q.negated = false → ∀ r, .ok r ∈ store.answers q →
      ∃ θ, r.ExtendedBy θ ∧ q.TrueIn Value.Equal store.clauses θ := by
  intro h
  have hmem : .ok (Record.ofList [("x", .nan)]) ∈ (Store.empty {}).answers nanQuery := by
    rw [show (Store.empty {}).answers nanQuery = [.ok (Record.ofList [("x", .nan)])] by rfl]
    exact List.mem_singleton_self _
  obtain ⟨θ, -, htrue⟩ := h (.empty {}) nanQuery (by decide) rfl _ hmem
  exact Value.not_equal_nan (θ "x")
    ((Literal.trueIn_equality (a := .var "x") (b := .const .nan) rfl rfl).1 htrue)

end PassageLogic
