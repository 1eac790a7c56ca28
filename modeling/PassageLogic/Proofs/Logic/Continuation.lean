import PassageLogic.Proofs.Logic.Correspondence

/-! # Goals followed by other goals

A search for goals followed by others goes on with the others at each solution of the first goals.
The number of clause uses at that point is not the one of a search for the first goals alone, so the
solutions are the same only up to the names of clause variables: a `Branch` is a state in which the
other goals are reached, and it corresponds to a solution of the first goals alone.

* `solve_append`: **what is found are the solutions of the other goals in each branch, in the order of
  the branches**, if neither search is cut short. -/

namespace PassageLogic.Search

variable {clauses : List Clause} {bound room want uses uses' : Nat} {next : List Literal}
  {E : Value → Value → Prop} {V W : String → String → Prop} {s s' t t' : Substitution}

/-- A state in which the goals that follow are reached. -/
structure Branch where
  subst : Substitution
  room : Nat
  want : Nat
  uses : Nat

/-- What a search finds from a branch on. -/
def Branch.outcome (clauses : List Clause) (bound : Nat) (next : List Literal) (b : Branch) :
    Outcome :=
  solve clauses bound b.room next b.subst b.want b.uses

/-- The branch is reached where a search for the first goals alone has the solution `t`. -/
structure Branch.Reached (clauses : List Clause) (bound : Nat) (next : List Literal)
    (E : Value → Value → Prop) (V : String → String → Prop) (s s' : Substitution)
    (room uses' : Nat) (t : Substitution) (b : Branch) : Prop where
  follows : Follows E V s s' t b.subst
  acyclic : b.subst.Acyclic
  names : b.subst.NamesIn (Old b.uses)
  room_le : b.room ≤ room
  uses_le : uses' ≤ b.uses
  finished : Finished b.want (b.outcome clauses bound next)

theorem Branch.Reached.of_imp {b : Branch} {room' n n' : Nat} {u : Substitution}
    (h : b.Reached clauses bound next E W t t' room n' u) (hVW : ∀ x x', V x x' → W x x')
    (ht : ∀ a a', Alike E V s s' a a' → Alike E W t t' a a') (hr : room ≤ room') (hn : n ≤ n') :
    b.Reached clauses bound next E V s s' room' n u where
  follows := h.follows.of_imp hVW ht
  acyclic := h.acyclic
  names := h.names
  room_le := Nat.le_trans h.room_le hr
  uses_le := Nat.le_trans hn h.uses_le
  finished := h.finished

/-- The solutions `found` of the first goals lead to branches in which `found'` is found. -/
def Continues (clauses : List Clause) (bound : Nat) (next : List Literal)
    (E : Value → Value → Prop) (V : String → String → Prop) (s s' : Substitution)
    (room uses' : Nat) (found found' : List Substitution) : Prop :=
  ∃ bs : List Branch, List.Forall₂ (Branch.Reached clauses bound next E V s s' room uses') found bs ∧
    found' = bs.flatMap fun b => (b.outcome clauses bound next).found

namespace Continues

variable {found found' : List Substitution}

theorem nil : Continues clauses bound next E V s s' room uses' [] [] := ⟨[], .nil, rfl⟩

theorem of_imp {room' n n' : Nat} (h : Continues clauses bound next E W t t' room n' found found')
    (hVW : ∀ x x', V x x' → W x x') (ht : ∀ a a', Alike E V s s' a a' → Alike E W t t' a a')
    (hr : room ≤ room') (hn : n ≤ n') :
    Continues clauses bound next E V s s' room' n found found' := by
  obtain ⟨bs, hbs, hf⟩ := h
  exact ⟨bs, hbs.imp fun {_} {_} hb => hb.of_imp hVW ht hr hn, hf⟩

theorem append {more more' : List Substitution}
    (h : Continues clauses bound next E V s s' room uses' found found')
    (h' : Continues clauses bound next E V s s' room uses' more more') :
    Continues clauses bound next E V s s' room uses' (found ++ more) (found' ++ more') := by
  obtain ⟨bs, hbs, rfl⟩ := h
  obtain ⟨cs, hcs, rfl⟩ := h'
  exact ⟨bs ++ cs, List.rel_append hbs hcs, by rw [List.flatMap_append]⟩

end Continues

theorem continue_steps (hE : Indistinct E) (next : List Literal) : Steps clauses bound
    (fun room goals s want uses o => Finished want o → ∀ V uses' s' goals' want',
      Corresponds V uses uses' s s' → List.Forall₂ (Literal.Alike E V s s') goals goals' →
      Finished want' (solve clauses bound room (goals' ++ next) s' want' uses') →
      Continues clauses bound next E V s s' room uses' o.found
        (solve clauses bound room (goals' ++ next) s' want' uses').found)
    (fun room goal rest s cs want uses o => Finished want o → ∀ V uses' s' goal' rest' want',
      Corresponds V uses uses' s s' → goal.Alike E V s s' goal' →
      List.Forall₂ (Literal.Alike E V s s') rest rest' →
      Finished want' (resolve (solve clauses bound room) goal' (rest' ++ next) s' cs want' uses') →
      Continues clauses bound next E V s s' room uses' o.found
        (resolve (solve clauses bound room) goal' (rest' ++ next) s' cs want' uses').found) where
  done := by
    intro room s want uses hf V uses' s' goals' want' hc hg hf'
    cases hg
    rw [if_neg hf.want_ne_zero]
    refine ⟨[⟨s', room, want', uses'⟩], .cons ?_ .nil, ?_⟩
    · exact ⟨.refl hc.pairing, hc.acyclic', hc.names', Nat.le_refl _, Nat.le_refl _, hf'⟩
    · simp [Branch.outcome]
  sated := fun hf => absurd rfl hf.want_ne_zero
  tooDeep := fun _ hf => by cases hf.1
  probeFault := fun _ _ _ _ _ hf => by cases hf.1
  probeFound := by
    intro room goal rest s want uses probe hw hn _ hp hf hfd _ V uses' s' goals' want' hc hgs hf'
    obtain ⟨goal', rest', hg, hr, rfl⟩ := List.forall₂_cons_left_iff.1 hgs
    have hprobe : EndsAlike E V s s' (solve clauses bound room [goal.positive] s 1 uses)
        (solve clauses bound room [goal'.positive] s' 1 uses') :=
      solve_alike hE hc (.cons hg.positive .nil) room 1
    rw [hp] at hprobe
    rw [List.cons_append, solve_probeFound hf'.want_ne_zero (hg.negated.trans hn) rfl
      (hprobe.fault.trans hf) fun h => hfd (hprobe.found_eq_nil.1 h)]
    exact .nil
  probeEmpty := by
    intro room goal rest s want uses probe o hw hn _ hp hf hfd ih hfin V uses' s' goals' want' hc hgs
      hf'
    obtain ⟨goal', rest', hg, hr, rfl⟩ := List.forall₂_cons_left_iff.1 hgs
    have hprobe : EndsAlike E V s s' (solve clauses bound room [goal.positive] s 1 uses)
        (solve clauses bound room [goal'.positive] s' 1 uses') :=
      solve_alike hE hc (.cons hg.positive .nil) room 1
    have hle := uses_le_of_solve hp
    have hle' : uses' ≤ (solve clauses bound room [goal'.positive] s' 1 uses').uses :=
      uses_le _ _ _ _ _
    rw [hp] at hprobe
    rw [List.cons_append, solve_probeEmpty hf'.want_ne_zero (hg.negated.trans hn) rfl
      (hprobe.fault.trans hf) (hprobe.found_eq_nil.2 hfd)] at hf' ⊢
    exact (ih hfin V _ s' rest' want' (hc.mono hle hle') hr hf').of_imp (fun _ _ hx => hx)
      (fun _ _ ha => ha) (Nat.le_refl _) hle'
  equated := by
    intro room goal rest s a b t want uses o hw hn he hab hu ih hfin V uses' s' goals' want' hc hgs hf'
    obtain ⟨goal', rest', hg, hr, rfl⟩ := List.forall₂_cons_left_iff.1 hgs
    obtain ⟨a', b', t', hab', hu', hc', himp⟩ := hc.equated hE hg hab hu
    rw [List.cons_append, solve_equated hf'.want_ne_zero (hg.negated.trans hn)
      (hg.isEquality.trans he) hab' hu'] at hf' ⊢
    have hr' := hr.imp fun {l} {l'} hl => hl.imp himp
    exact (ih hfin V uses' t' rest' want' hc' hr' hf').of_imp (fun _ _ hx => hx) himp
      (Nat.le_refl _) (Nat.le_refl _)
  unequal := by
    intro room goal rest s a b want uses hw hn he hab hu _ V uses' s' goals' want' hc hgs hf'
    obtain ⟨goal', rest', hg, hr, rfl⟩ := List.forall₂_cons_left_iff.1 hgs
    obtain ⟨a', b', hab', hu'⟩ := hc.unequal hE hg hab hu
    rw [List.cons_append, solve_unequal hf'.want_ne_zero (hg.negated.trans hn)
      (hg.isEquality.trans he) hab' hu']
    exact .nil
  resolved := by
    intro room goal rest s want uses o hw hn he ih hfin V uses' s' goals' want' hc hgs hf'
    obtain ⟨goal', rest', hg, hr, rfl⟩ := List.forall₂_cons_left_iff.1 hgs
    rw [List.cons_append, solve_resolved hf'.want_ne_zero (hg.negated.trans hn)
      (hg.isEquality.trans he)] at hf' ⊢
    exact (ih hfin V uses' s' goal' rest' want' hc hg hr hf').of_imp (fun _ _ hx => hx)
      (fun _ _ ha => ha) (Nat.le_succ _) (Nat.le_refl _)
  exhausted := fun _ _ _ _ _ _ _ _ _ _ _ => .nil
  other := by
    intro room goal rest s c cs want uses o _ hp ih hfin V uses' s' goal' rest' want' hc hg hr hf'
    rw [resolve_other ((hg.samePredicate c.head).trans hp)] at hf' ⊢
    exact ih hfin V uses' s' goal' rest' want' hc hg hr hf'
  clash := by
    intro room goal rest s c cs want uses o _ hp hu ih hfin V uses' s' goal' rest' want' hc hg hr hf'
    rw [resolve_clash ((hg.samePredicate c.head).trans hp) (hc.clash hE hg hu)] at hf' ⊢
    have hc' := hc.mono (Nat.le_succ uses) (Nat.le_succ uses')
    exact (ih hfin V (uses' + 1) s' goal' rest' want' hc' hg hr hf').of_imp (fun _ _ hx => hx)
      (fun _ _ ha => ha) (Nat.le_refl _) (Nat.le_succ _)
  ended := by
    rintro room goal rest s c cs t want uses o _ hp hu _ _ (he | he) hfin
    · exact absurd hfin.1 he
    · exact absurd hfin.2 (by omega)
  more := by
    intro room goal rest s c cs t want uses o o' _ hp hu ih ho hf hlt ih' hfin V uses' s' goal' rest'
      want' hc hg hr hf'
    have hp' := (hg.samePredicate c.head).trans hp
    obtain ⟨t', hu', hc', himp, hbody⟩ := hc.used hE hg hr hu
    have hle := uses_le_of_solve ho
    have hle' : uses' + 1 ≤ (solve clauses bound room
        ((c.renamed (uses' + 1)).body ++ (rest' ++ next)) t' want' (uses' + 1)).uses :=
      uses_le _ _ _ _ _
    have hfirst := ih ⟨hf, hlt⟩ _ (uses' + 1) t' _ want' hc' hbody
    rw [List.append_assoc] at hfirst
    generalize hq : solve clauses bound room ((c.renamed (uses' + 1)).body ++ (rest' ++ next)) t'
      want' (uses' + 1) = q at hfirst hle'
    -- the search is not cut short, so neither is the part of it with this clause
    have hqf : Finished want' q := by
      by_contra hno
      rw [resolve_ended hp' hu' hq (not_finished_iff.1 hno)] at hf'
      exact hno hf'
    rw [resolve_more hp' hu' hq hqf.1 hqf.2 rfl] at hf' ⊢
    have hmore := ih' hfin.of_append V q.uses s' goal' rest' _ (hc.mono (by omega) (by omega)) hg hr
      hf'.of_append
    refine ((hfirst hqf).of_imp (subset_withUses _ _) himp (Nat.le_refl _) (Nat.le_succ _)).append ?_
    exact hmore.of_imp (fun _ _ hx => hx) (fun _ _ ha => ha) (Nat.le_refl _) (by omega)

/-- **A search goes on with the goals that follow in each branch.** -/
theorem solve_append (hE : Indistinct E) (h : Corresponds V uses uses' s s')
    {goals goals' : List Literal} (hg : List.Forall₂ (Literal.Alike E V s s') goals goals')
    (next : List Literal) {want' : Nat} (hf : Finished want (solve clauses bound room goals s want uses))
    (hf' : Finished want' (solve clauses bound room (goals' ++ next) s' want' uses')) :
    Continues clauses bound next E V s s' room uses'
      (solve clauses bound room goals s want uses).found
      (solve clauses bound room (goals' ++ next) s' want' uses').found :=
  (continue_steps hE next).solve room goals s want uses hf V uses' s' goals' want' h hg hf'

end PassageLogic.Search
