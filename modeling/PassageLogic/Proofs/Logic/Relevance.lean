import PassageLogic.Proofs.Logic.SearchLimits
import PassageLogic.Proofs.Logic.Freshness

/-! # What a search does not touch

* `solve_filter`: a search is the same without the clauses of predicates that its goals do not need.
  `solve_added`: so a clause of a predicate that neither the goals nor the bodies of the other clauses
  mention does not change it.
* `solve_within`: a search makes no cycles, and it binds only names of its goals and of its clause
  uses, and binds them to such names only. -/

namespace PassageLogic

/-- No clause mentions the predicate, in its head or in its body. -/
def Unmentioned (p : String) (clauses : List Clause) : Prop :=
  ∀ c ∈ clauses, c.head.predicate ≠ p ∧ ∀ l ∈ c.body, l.predicate ≠ p

instance (p : String) (clauses : List Clause) : Decidable (Unmentioned p clauses) := by
  unfold Unmentioned
  infer_instance

theorem Clause.samePredicate_of_ne {c : Clause} {goal : Literal}
    (h : c.head.predicate ≠ goal.predicate) : c.head.samePredicate goal = false := by
  unfold Literal.samePredicate
  rw [beq_false_of_ne h, Bool.false_and]

namespace Literal

variable {l m : Literal}

/-- What a literal is about: the name of the predicate and the number of terms. -/
def signature (l : Literal) : String × Nat := (l.predicate, l.arity)

@[simp] theorem signature_positive (l : Literal) : l.positive.signature = l.signature := rfl

@[simp] theorem signature_mapVars (f : String → String) (l : Literal) :
    (l.mapVars f).signature = l.signature := by
  unfold signature arity mapVars
  rw [List.length_map]

theorem samePredicate_iff_signature : l.samePredicate m = true ↔ l.signature = m.signature := by
  unfold samePredicate signature
  rw [Bool.and_eq_true, beq_iff_eq, beq_iff_eq, Prod.mk.injEq]

theorem isEquality_of_signature (h : l.signature = m.signature) : l.isEquality = m.isEquality := by
  obtain ⟨hp, ha⟩ := Prod.mk.inj h
  unfold isEquality
  rw [hp, ha]

end Literal

namespace Search

variable {clauses : List Clause} {bound : Nat}

/-! ### Clauses that are not needed -/

/-- The clauses for the predicates in `A` are kept, and need no predicates but those in `A`. The built-in
equality needs no clauses. -/
structure Keeps (clauses : List Clause) (keep : Clause → Bool) (A : String × Nat → Prop) : Prop where
  kept : ∀ c ∈ clauses, A c.head.signature → c.head.isEquality = false → keep c = true
  body : ∀ c ∈ clauses, A c.head.signature → c.head.isEquality = false →
    ∀ l ∈ c.body, A l.signature

section Filter

variable {keep : Clause → Bool} {A : String × Nat → Prop} (h : Keeps clauses keep A)
include h

theorem Keeps.of_subset {others : List Clause} (hsub : others ⊆ clauses) : Keeps others keep A where
  kept c hc := h.kept c (hsub hc)
  body c hc := h.body c (hsub hc)

/-- The clauses of a goal are kept, and the goals after the use of one are in `A`. -/
theorem Keeps.use {c : Clause} (hc : c ∈ clauses) {goal : Literal} {rest : List Literal}
    (hp : c.head.samePredicate goal = true) (he : goal.isEquality = false)
    (hg : ∀ g ∈ goal :: rest, A g.signature) (n : Nat) :
    keep c = true ∧ ∀ g ∈ (c.renamed n).body ++ rest, A g.signature := by
  have hsig := Literal.samePredicate_iff_signature.1 hp
  have hA : A c.head.signature := hsig ▸ hg goal List.mem_cons_self
  have hhead : c.head.isEquality = false := (Literal.isEquality_of_signature hsig).trans he
  refine ⟨h.kept c hc hA hhead, fun g hm => ?_⟩
  rcases List.mem_append.1 hm with hm | hm
  · obtain ⟨l, hl, rfl⟩ := List.mem_map.1 hm
    rw [Literal.signature_mapVars]
    exact h.body c hc hA hhead l hl
  · exact hg g (List.mem_cons_of_mem _ hm)

theorem filter_steps : Steps clauses bound
    (fun room goals s want uses o => (∀ g ∈ goals, A g.signature) →
      solve (clauses.filter keep) bound room goals s want uses = o)
    (fun room goal rest s cs want uses o => goal.isEquality = false →
      (∀ g ∈ goal :: rest, A g.signature) →
      resolve (solve (clauses.filter keep) bound room) goal rest s (cs.filter keep) want uses = o)
    where
  done := fun _ => solve_nil
  sated := fun _ => solve_sated _
  tooDeep := fun hw _ => solve_tooDeep hw
  probeFault := by
    intro room goal rest s want uses probe fault hw hn ih _ hf hg
    have hprobe := ih (by simpa using hg goal List.mem_cons_self)
    exact solve_probeFault hw hn hprobe hf
  probeFound := by
    intro room goal rest s want uses probe hw hn ih _ hf hfd hg
    have hprobe := ih (by simpa using hg goal List.mem_cons_self)
    exact solve_probeFound hw hn hprobe hf hfd
  probeEmpty := by
    intro room goal rest s want uses probe o hw hn ih _ hf hfd ih' hg
    have hprobe := ih (by simpa using hg goal List.mem_cons_self)
    rw [solve_probeEmpty hw hn hprobe hf hfd]
    exact ih' fun g hm => hg g (List.mem_cons_of_mem _ hm)
  equated := by
    intro room goal rest s a b t want uses o hw hn he hab hu ih hg
    rw [solve_equated hw hn he hab hu]
    exact ih fun g hm => hg g (List.mem_cons_of_mem _ hm)
  unequal := fun hw hn he hab hu _ => solve_unequal hw hn he hab hu
  resolved := by
    intro room goal rest s want uses o hw hn he ih hg
    rw [solve_resolved hw hn he]
    exact ih he hg
  exhausted := fun _ _ => rfl
  other := by
    intro room goal rest s c cs want uses o _ hp ih he hg
    rw [List.filter_cons]
    split_ifs
    · rw [resolve_other hp]
      exact ih he hg
    · exact ih he hg
  clash := by
    intro room goal rest s c cs want uses o hm hp hu ih he hg
    rw [List.filter_cons_of_pos (h.use hm hp he hg 0).1, resolve_clash hp hu]
    exact ih he hg
  ended := by
    intro room goal rest s c cs t want uses o hm hp hu ih _ hend he hg
    obtain ⟨hkeep, hbody⟩ := h.use hm hp he hg (uses + 1)
    rw [List.filter_cons_of_pos hkeep]
    exact resolve_ended hp hu (ih hbody) hend
  more := by
    intro room goal rest s c cs t want uses o o' hm hp hu ih _ hf hlt ih' he hg
    obtain ⟨hkeep, hbody⟩ := h.use hm hp he hg (uses + 1)
    rw [List.filter_cons_of_pos hkeep]
    exact resolve_more hp hu (ih hbody) hf hlt (ih' he hg)

/-- **A search is the same without the clauses that its goals do not need.** -/
theorem solve_filter (room : Nat) {goals : List Literal} (hg : ∀ g ∈ goals, A g.signature)
    (s : Substitution) (want uses : Nat) :
    solve (clauses.filter keep) bound room goals s want uses =
      solve clauses bound room goals s want uses :=
  (filter_steps h).solve room goals s want uses hg

end Filter

/-- **A clause of a predicate that no body mentions only changes searches for that predicate.** -/
theorem solve_added {p : String} (hp : ∀ c ∈ clauses, ∀ l ∈ c.body, l.predicate ≠ p) {d : Clause}
    (hd : d.head.predicate = p) (room : Nat) {goals : List Literal}
    (hg : ∀ g ∈ goals, g.predicate ≠ p) (s : Substitution) (want uses : Nat) :
    solve (clauses ++ [d]) bound room goals s want uses =
      solve clauses bound room goals s want uses := by
  have hkeeps : Keeps (clauses ++ [d]) (fun c => c.head.predicate != p) (fun sig => sig.1 ≠ p) := by
    refine ⟨fun c _ hA _ => bne_iff_ne.2 hA, fun c hc hA _ l hl => ?_⟩
    rcases List.mem_append.1 hc with hc | hc
    · exact hp c hc l hl
    · exact absurd (List.mem_singleton.1 hc ▸ hd) hA
  have hfilter : (clauses ++ [d]).filter (fun c => c.head.predicate != p) =
      clauses.filter fun c => c.head.predicate != p := by
    rw [List.filter_append, List.filter_cons_of_neg (by simp [hd]), List.filter_nil, List.append_nil]
  rw [← solve_filter hkeeps room hg, hfilter,
    solve_filter (hkeeps.of_subset (List.subset_append_left _ _)) room hg]

/-! ### The names of a search -/

/-- All names of a state, and all that clause uses will bring in, have a property. -/
structure Within (p : String → Prop) (uses : Nat) (s : Substitution) (goals : List Literal) :
    Prop where
  acyclic : s.Acyclic
  names : s.NamesIn p
  goals : ∀ g ∈ goals, g.NamesIn p
  fresh : ∀ n > uses, ∀ x, p (Clause.useName n x)

namespace Within

variable {p : String → Prop} {uses : Nat} {s t : Substitution} {goal : Literal}
  {rest : List Literal}

theorem later (h : Within p uses s (goal :: rest)) {uses' : Nat} (hle : uses ≤ uses') :
    Within p uses' s (goal :: rest) :=
  ⟨h.acyclic, h.names, h.goals, fun n hn => h.fresh n (by omega)⟩

theorem tail (h : Within p uses s (goal :: rest)) : Within p uses s rest :=
  ⟨h.acyclic, h.names, fun g hg => h.goals g (List.mem_cons_of_mem _ hg), h.fresh⟩

theorem unify {a b : Term} (h : Within p uses s (goal :: rest)) (hab : goal.terms = [a, b])
    (hu : s.unify a b = some t) : Within p uses t rest where
  acyclic := Substitution.acyclic_unify h.acyclic hu
  names := by
    have hg := h.goals goal (by simp)
    exact h.names.unify h.acyclic (hg a (by simp [hab])) (hg b (by simp [hab])) hu
  goals g hg := h.goals g (List.mem_cons_of_mem _ hg)
  fresh := h.fresh

theorem use {c : Clause} (h : Within p uses s (goal :: rest))
    (hu : s.unifyAll goal.terms (c.renamed (uses + 1)).head.terms = some t) :
    Within p (uses + 1) t ((c.renamed (uses + 1)).body ++ rest) := by
  have hnew := h.fresh (uses + 1) (by omega)
  have hhead : (c.renamed (uses + 1)).head.NamesIn p := Literal.namesIn_mapVars _ _ hnew
  refine ⟨Substitution.acyclic_unifyAll h.acyclic hu,
    h.names.unifyAll h.acyclic (h.goals goal (by simp)) hhead hu, ?_,
    fun n hn => h.fresh n (by omega)⟩
  intro g hg
  rcases List.mem_append.1 hg with hg | hg
  · obtain ⟨m, -, rfl⟩ := List.mem_map.1 hg
    exact Literal.namesIn_mapVars _ _ hnew
  · exact h.goals g (List.mem_cons_of_mem _ hg)

end Within

theorem within_steps (p : String → Prop) : Steps clauses bound
    (fun _ goals s _ uses o => Within p uses s goals → ∀ t ∈ o.found, t.Acyclic ∧ t.NamesIn p)
    (fun _ goal rest s _ _ uses o => Within p uses s (goal :: rest) →
      ∀ t ∈ o.found, t.Acyclic ∧ t.NamesIn p) where
  done := by
    intro room s want uses h t ht
    split_ifs at ht
    · cases ht
    · rw [List.mem_singleton.1 ht]
      exact ⟨h.acyclic, h.names⟩
  sated := by simp
  tooDeep := by simp
  probeFault := by simp
  probeFound := by simp
  probeEmpty := by
    intro room goal rest s want uses probe o _ _ _ hp _ _ ih h
    have hle := uses_le_of_solve hp
    exact ih (h.later hle).tail
  equated := fun _ _ _ hab hu ih h => ih (h.unify hab hu)
  unequal := by simp
  resolved := fun _ _ _ ih => ih
  exhausted := by simp
  other := fun _ _ ih => ih
  clash := fun _ _ _ ih h => ih (h.later (Nat.le_succ _))
  ended := fun _ _ hu ih _ _ h => ih (h.use hu)
  more := by
    intro room goal rest s c cs t want uses o o' _ _ hu ih ho _ _ ih' h u hmem
    have hle := uses_le_of_solve ho
    rcases List.mem_append.1 hmem with hmem | hmem
    · exact ih (h.use hu) u hmem
    · exact ih' (h.later (by omega)) u hmem

/-- **A search brings in only the names of its clause uses.** -/
theorem solve_within {p : String → Prop} {uses : Nat} {s t : Substitution} {goals : List Literal}
    (h : Within p uses s goals) {room want : Nat}
    (ht : t ∈ (solve clauses bound room goals s want uses).found) : t.Acyclic ∧ t.NamesIn p :=
  (within_steps p).solve room goals s want uses h t ht

end Search
end PassageLogic
