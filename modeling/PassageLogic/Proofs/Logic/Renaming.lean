import PassageLogic.Proofs.Logic.SearchLimits
import PassageLogic.Proofs.Logic.Freshness

/-! # Searches under renamings

A search does not look at names but to tell them apart. So if the goals and the substitution are
renamed by an injective map that leaves the variables of all later clause uses alone, the same search
is made, and its solutions are renamed (`solve_mapVars`). A solution then gives a renamed variable the
value that the variable had. -/

namespace PassageLogic

variable {f g : String → String}

/-! ### Terms, literals and clauses -/

theorem Term.mapVars_mapVars (t : Term) : (t.mapVars g).mapVars f = t.mapVars (f ∘ g) := by
  cases t <;> rfl

theorem Term.mapVars_congr {t : Term} (h : ∀ x, t = .var x → f x = g x) :
    t.mapVars f = t.mapVars g := by
  cases t with
  | var x => exact congrArg Term.var (h x rfl)
  | const v => rfl

theorem Literal.mapVars_congr {l : Literal} (h : ∀ x, .var x ∈ l.terms → f x = g x) :
    l.mapVars f = l.mapVars g := by
  unfold Literal.mapVars
  congr 1
  exact List.map_congr_left fun t ht => Term.mapVars_congr fun x hx => h x (hx ▸ ht)

theorem Literal.mapVars_mapVars (l : Literal) : (l.mapVars g).mapVars f = l.mapVars (f ∘ g) := by
  unfold Literal.mapVars
  simp only [List.map_map, Literal.mk.injEq, true_and, and_true]
  exact List.map_congr_left fun t _ => t.mapVars_mapVars

@[simp] theorem Literal.isEquality_mapVars (l : Literal) :
    (l.mapVars f).isEquality = l.isEquality := by
  unfold isEquality arity mapVars
  rw [List.length_map]

@[simp] theorem Literal.samePredicate_mapVars (l m : Literal) :
    l.samePredicate (m.mapVars f) = l.samePredicate m := by
  unfold samePredicate arity mapVars
  rw [List.length_map]

/-! ### Substitutions -/

namespace Substitution

/-- The substitution with its variables renamed. -/
def mapVars (f : String → String) (s : Substitution) : Substitution :=
  s.map fun e => (f e.1, e.2.mapVars f)

variable (hf : Function.Injective f) (s : Substitution)

include hf

theorem lookup_mapVars (x : String) :
    (s.mapVars f).lookup (f x) = (s.lookup x).map (Term.mapVars f) := by
  induction s with
  | nil => rfl
  | cons e s ih =>
    have hbeq : (f x == f e.1) = (x == e.1) := by
      rw [Bool.eq_iff_iff, beq_iff_eq, beq_iff_eq]
      exact hf.eq_iff
    show (((f e.1, e.2.mapVars f) :: mapVars f s).lookup (f x)) = _
    rw [List.lookup_cons, List.lookup_cons, hbeq]
    cases x == e.1 with
    | true => rfl
    | false => exact ih

theorem walkWithin_mapVars (k : Nat) (t : Term) :
    (s.mapVars f).walkWithin k (t.mapVars f) = (s.walkWithin k t).mapVars f := by
  induction k generalizing t with
  | zero => rfl
  | succ k ih =>
    cases t with
    | const v => rfl
    | var x =>
      show (s.mapVars f).walkWithin (k + 1) (.var (f x)) = _
      unfold walkWithin
      rw [lookup_mapVars hf]
      cases s.lookup x with
      | none => rfl
      | some u => exact ih u

theorem walk_mapVars (t : Term) : (s.mapVars f).walk (t.mapVars f) = (s.walk t).mapVars f := by
  unfold walk
  rw [walkWithin_mapVars hf, mapVars, List.length_map]

theorem unify_mapVars (a b : Term) :
    (s.mapVars f).unify (a.mapVars f) (b.mapVars f) = (s.unify a b).map (mapVars f) := by
  unfold unify
  rw [walk_mapVars hf, walk_mapVars hf]
  cases s.walk a with
  | var x =>
    cases s.walk b with
    | var y =>
      simp only [Term.mapVars, hf.eq_iff]
      split_ifs <;> rfl
    | const w => rfl
  | const v =>
    cases s.walk b with
    | var y => rfl
    | const w =>
      simp only [Term.mapVars]
      split_ifs <;> rfl

theorem unifyAll_mapVars (as bs : List Term) :
    (s.mapVars f).unifyAll (as.map (Term.mapVars f)) (bs.map (Term.mapVars f)) =
      (s.unifyAll as bs).map (mapVars f) := by
  induction as generalizing s bs with
  | nil => cases bs <;> rfl
  | cons a as ih =>
    cases bs with
    | nil => rfl
    | cons b bs =>
      unfold unifyAll
      rw [List.map_cons, List.map_cons]
      simp only [unify_mapVars hf]
      cases s.unify a b with
      | none => rfl
      | some t => exact ih t bs

/-- A renamed variable is given the same value. -/
theorem value?_walk_mapVars (x : String) :
    ((s.mapVars f).walk (.var (f x))).value? = (s.walk (.var x)).value? := by
  have hw : (s.mapVars f).walk (.var (f x)) = (s.walk (.var x)).mapVars f :=
    walk_mapVars hf s (.var x)
  rw [hw]
  cases s.walk (.var x) <;> rfl

end Substitution

/-! ### Searches -/

/-- The map leaves the variables of all uses of these clauses after the first `uses` alone. -/
def SparesUses (clauses : List Clause) (f : String → String) (uses : Nat) : Prop :=
  ∀ n > uses, ∀ c ∈ clauses, ∀ x ∈ c.vars, f (Clause.useName n x) = Clause.useName n x

/-- The outcome with the variables of its solutions renamed. -/
def Outcome.mapVars (f : String → String) (o : Outcome) : Outcome :=
  ⟨o.found.map (Substitution.mapVars f), o.uses, o.fault⟩

namespace SparesUses

variable {clauses : List Clause} {uses : Nat}

theorem mono {n m : Nat} (h : SparesUses clauses f n) (hle : n ≤ m) : SparesUses clauses f m :=
  fun k hk => h k (Nat.lt_of_le_of_lt hle hk)

variable (h : SparesUses clauses f uses) {c : Clause} (hc : c ∈ clauses)
include h hc

theorem mapVars_useName {l : Literal} (hl : l ∈ c.head :: c.body) :
    (l.mapVars (Clause.useName (uses + 1))).mapVars f = l.mapVars (Clause.useName (uses + 1)) := by
  rw [Literal.mapVars_mapVars]
  refine Literal.mapVars_congr fun x hx => ?_
  exact h _ (Nat.lt_succ_self _) c hc x (Clause.mem_vars.2 ⟨l, hl, hx⟩)

/-- The next use of a clause is left alone. -/
theorem map_body (rest : List Literal) :
    ((c.renamed (uses + 1)).body ++ rest).map (Literal.mapVars f) =
      (c.renamed (uses + 1)).body ++ rest.map (Literal.mapVars f) := by
  rw [List.map_append]
  congr 1
  show (c.body.map _).map _ = c.body.map _
  rw [List.map_map]
  exact List.map_congr_left fun l hl => h.mapVars_useName hc (List.mem_cons_of_mem _ hl)

end SparesUses

namespace Search

variable {clauses : List Clause} {bound : Nat}

theorem unifyAll_use_mapVars (hf : Function.Injective f) {uses : Nat}
    (h : SparesUses clauses f uses) (s : Substitution) (goal : Literal) {c : Clause}
    (hc : c ∈ clauses) :
    (s.mapVars f).unifyAll (goal.mapVars f).terms (c.renamed (uses + 1)).head.terms =
      (s.unifyAll goal.terms (c.renamed (uses + 1)).head.terms).map (Substitution.mapVars f) := by
  have hhead : (c.renamed (uses + 1)).head.terms =
      (c.renamed (uses + 1)).head.terms.map (Term.mapVars f) :=
    (congrArg Literal.terms (h.mapVars_useName hc List.mem_cons_self)).symm
  conv_lhs => rw [hhead]
  exact Substitution.unifyAll_mapVars hf s _ _

theorem mapVars_steps (hf : Function.Injective f) : Steps clauses bound
    (fun room goals s want uses o => SparesUses clauses f uses →
      solve clauses bound room (goals.map (Literal.mapVars f)) (s.mapVars f) want uses = o.mapVars f)
    (fun room goal rest s cs want uses o => SparesUses clauses f uses →
      resolve (solve clauses bound room) (goal.mapVars f) (rest.map (Literal.mapVars f)) (s.mapVars f)
        cs want uses = o.mapVars f) where
  done := by
    intro room s want uses _
    rw [List.map_nil, solve_nil]
    split_ifs <;> rfl
  sated := fun _ => solve_sated _
  tooDeep := fun hw _ => solve_tooDeep hw
  probeFault := by
    intro room goal rest s want uses probe fault hw hn ih _ hfault h
    have hn' : (goal.mapVars f).negated = true := hn
    exact solve_probeFault hw hn' (ih h) hfault
  probeFound := by
    intro room goal rest s want uses probe hw hn ih _ hfault hfd h
    have hn' : (goal.mapVars f).negated = true := hn
    have hfault' : (probe.mapVars f).fault = none := hfault
    have hfd' : (probe.mapVars f).found ≠ [] := fun he => hfd (List.map_eq_nil_iff.1 he)
    rw [List.map_cons, solve_probeFound hw hn' (ih h) hfault' hfd']
    rfl
  probeEmpty := by
    intro room goal rest s want uses probe o hw hn ih hp hfault hfd ih' h
    have hn' : (goal.mapVars f).negated = true := hn
    have hfault' : (probe.mapVars f).fault = none := hfault
    have hfd' : (probe.mapVars f).found = [] := by rw [Outcome.mapVars, hfd]; rfl
    rw [List.map_cons, solve_probeEmpty hw hn' (ih h) hfault' hfd']
    exact ih' (h.mono (uses_le_of_solve hp))
  equated := by
    intro room goal rest s a b t want uses o hw hn he hab hu ih h
    have hn' : (goal.mapVars f).negated = false := hn
    have he' : (goal.mapVars f).isEquality = true := by rw [Literal.isEquality_mapVars, he]
    have hab' : (goal.mapVars f).terms = [a.mapVars f, b.mapVars f] :=
      congrArg (List.map (Term.mapVars f)) hab
    have hu' : (s.mapVars f).unify (a.mapVars f) (b.mapVars f) = some (t.mapVars f) := by
      rw [Substitution.unify_mapVars hf, hu]
      rfl
    rw [List.map_cons, solve_equated hw hn' he' hab' hu']
    exact ih h
  unequal := by
    intro room goal rest s a b want uses hw hn he hab hu h
    have hn' : (goal.mapVars f).negated = false := hn
    have he' : (goal.mapVars f).isEquality = true := by rw [Literal.isEquality_mapVars, he]
    have hab' : (goal.mapVars f).terms = [a.mapVars f, b.mapVars f] :=
      congrArg (List.map (Term.mapVars f)) hab
    have hu' : (s.mapVars f).unify (a.mapVars f) (b.mapVars f) = none := by
      rw [Substitution.unify_mapVars hf, hu]
      rfl
    exact solve_unequal hw hn' he' hab' hu'
  resolved := by
    intro room goal rest s want uses o hw hn he ih h
    have hn' : (goal.mapVars f).negated = false := hn
    have he' : (goal.mapVars f).isEquality = false := by rw [Literal.isEquality_mapVars, he]
    rw [List.map_cons, solve_resolved hw hn' he']
    exact ih h
  exhausted := fun _ => rfl
  other := by
    intro room goal rest s c cs want uses o _ hp ih h
    rw [resolve_other ((Literal.samePredicate_mapVars _ _).trans hp)]
    exact ih h
  clash := by
    intro room goal rest s c cs want uses o hc hp hu ih h
    have hu' := unifyAll_use_mapVars hf h s goal hc
    rw [hu] at hu'
    rw [resolve_clash ((Literal.samePredicate_mapVars _ _).trans hp) hu']
    exact ih (h.mono (Nat.le_succ _))
  ended := by
    intro room goal rest s c cs t want uses o hc hp hu ih _ he h
    have hu' := unifyAll_use_mapVars hf h s goal hc
    rw [hu] at hu'
    have ho := ih (h.mono (Nat.le_succ _))
    rw [h.map_body hc] at ho
    refine resolve_ended ((Literal.samePredicate_mapVars _ _).trans hp) hu' ho ?_
    rwa [Outcome.mapVars, List.length_map]
  more := by
    intro room goal rest s c cs t want uses o o' hc hp hu ih ho hfault hlt ih' h
    have hu' := unifyAll_use_mapVars hf h s goal hc
    rw [hu] at hu'
    have ho' := ih (h.mono (Nat.le_succ _))
    rw [h.map_body hc] at ho'
    have hlen : (o.mapVars f).found.length = o.found.length := List.length_map _
    have hmore := ih' (h.mono (Nat.le_of_succ_le (uses_le_of_solve ho)))
    rw [← hlen] at hmore hlt
    rw [resolve_more ((Literal.samePredicate_mapVars _ _).trans hp) hu' ho' hfault hlt hmore]
    simp only [Outcome.mapVars, List.map_append]

/-- **A renamed search is the same search, with renamed solutions.** -/
theorem solve_mapVars (hf : Function.Injective f) {uses : Nat} (h : SparesUses clauses f uses)
    (room : Nat) (goals : List Literal) (s : Substitution) (want : Nat) :
    solve clauses bound room (goals.map (Literal.mapVars f)) (s.mapVars f) want uses =
      (solve clauses bound room goals s want uses).mapVars f :=
  (mapVars_steps hf).solve room goals s want uses h

end Search

end PassageLogic
