import PassageLogic.Proofs.Logic.SearchSteps
import PassageLogic.Proofs.Logic.Unification
import Mathlib.Data.Finset.Card
import Mathlib.Logic.Relation

/-! # Chains of bindings

To walk from a term is to follow bindings, one per step, until there is none. On a chain that leads back
to a variable of its own this would go on for ever. Unification makes no such chain: it binds a variable
that is not bound to the end of another walk.

* `Substitution.loopless_iff_acyclic`: no variable leads back to itself if and only if the variables on
  every chain ascend in some ranking.
* `Substitution.Acyclic.ends`: then a walk ends, and takes no more steps than variables are bound, since
  each step leaves one of them behind.
* `Search.walks`: the walks that a search makes, in order. All of them are in substitutions without loops
  (`Search.acyclic_walks`).
* `Search.unification_exact`: unification adds bindings to what is not bound, and exactly the equations of
  the terms; and all walks of a search come to their end. What is said of all values is said with
  `Value.Alike` for equality, what is said of values other than NaN with equality itself: a variable can be
  bound to NaN, which nothing equals (`Search.unifies_nan`). -/

namespace PassageLogic

namespace Substitution

variable {s t u : Substitution} {a b r : Term} {x y : String} {k : Nat}

/-! ### Loops -/

/-- The first variable is bound to the second one. -/
def Links (s : Substitution) (x y : String) : Prop := s.lookup x = some (.var y)

/-- No chain of bindings leads from a variable back to it. -/
def Loopless (s : Substitution) : Prop := ∀ x, ¬ Relation.TransGen s.Links x x

/-- The variables that are bound. -/
def bound (s : Substitution) : Finset String := (s.map Prod.fst).toFinset

theorem mem_bound (h : s.lookup x = some a) : x ∈ s.bound :=
  List.mem_toFinset.2 (List.mem_map.2 ⟨_, mem_of_lookup_eq_some h, rfl⟩)

/-- A ranking that ascends along every binding to a variable ascends along chains of them. -/
theorem rank_lt_of_transGen {rank : String → Nat} (hr : ∀ x y, s.Links x y → rank x < rank y)
    (h : Relation.TransGen s.Links x y) : rank x < rank y := by
  induction h with
  | single h => exact hr _ _ h
  | tail _ h ih => exact Nat.lt_trans ih (hr _ _ h)

/-- **Without loops the variables can be ranked**, by the number of those that lead to them. -/
theorem loopless_iff_acyclic : s.Loopless ↔ s.Acyclic := by
  classical
  constructor
  · intro hs
    refine ⟨fun x => (s.bound.filter fun z => Relation.TransGen s.Links z x).card, fun x y hxy => ?_⟩
    refine Finset.card_lt_card (Finset.ssubset_iff_of_subset ?_ |>.2 ⟨x, ?_, ?_⟩)
    · exact Finset.monotone_filter_right _ fun z _ hz => hz.tail hxy
    · exact Finset.mem_filter.2 ⟨mem_bound hxy, .single hxy⟩
    · exact fun hx => hs x (Finset.mem_filter.1 hx).2
  · rintro ⟨rank, hr⟩ x hx
    exact Nat.lt_irrefl _ (rank_lt_of_transGen hr hx)

/-! ### The steps of a walk -/

/-- The walk from the first term takes so many steps, each along a binding, and ends at the second term,
which is not bound. -/
inductive WalksIn (s : Substitution) : Nat → Term → Term → Prop
  | stop {t : Term} (h : s.Unbound t) : WalksIn s 0 t t
  | step {k : Nat} {name : String} {t r : Term} (h : s.lookup name = some t)
      (hr : WalksIn s k t r) : WalksIn s (k + 1) (.var name) r

theorem Leads.exists_walksIn (h : s.Leads a r) : ∃ k, s.WalksIn k a r := by
  induction h with
  | stop h => exact ⟨0, .stop h⟩
  | step h _ ih =>
    obtain ⟨k, hk⟩ := ih
    exact ⟨k + 1, .step h hk⟩

/-- Each step of a walk leaves a bound variable behind that ranks below all later ones. -/
theorem WalksIn.le_card {rank : String → Nat} (hr : ∀ x y, s.Links x y → rank x < rank y)
    (h : s.WalksIn k a r) (n : Nat) (ha : ∀ x, a = .var x → n ≤ rank x) :
    k ≤ (s.bound.filter fun z => n ≤ rank z).card := by
  induction h generalizing n with
  | stop h => exact Nat.zero_le _
  | @step k name t r h _ ih =>
    have hname := ha name rfl
    refine Nat.lt_of_le_of_lt (ih (rank name + 1) fun y hy => ?_) ?_
    · subst hy
      exact hr name y h
    · refine Finset.card_lt_card (Finset.ssubset_iff_of_subset ?_ |>.2 ⟨name, ?_, ?_⟩)
      · exact Finset.monotone_filter_right _ fun z _ hz => by omega
      · exact Finset.mem_filter.2 ⟨mem_bound h, hname⟩
      · exact fun hmem => by have := (Finset.mem_filter.1 hmem).2; omega

/-- The walk from the term ends, after at most as many steps as variables are bound. -/
def Ends (s : Substitution) (a : Term) : Prop := ∃ k ≤ s.bound.card, s.WalksIn k a (s.walk a)

/-- **Without loops every walk ends.** -/
theorem Acyclic.ends (hs : s.Acyclic) (a : Term) : s.Ends a := by
  obtain ⟨k, hk⟩ := (walk_leads hs a).exists_walksIn
  obtain ⟨rank, hr⟩ := hs
  refine ⟨k, ?_, hk⟩
  exact (hk.le_card hr 0 fun _ _ => Nat.zero_le _).trans (Finset.card_filter_le _ _)

/-! ### What unification adds -/

/-- The second substitution has further bindings, each of another variable that is not bound in the first
one, and those of the first one as they were. -/
def Extends (s t : Substitution) : Prop :=
  ∃ new : Substitution, t = new ++ s ∧ (new.map Prod.fst).Nodup ∧ ∀ b ∈ new, s.lookup b.1 = none

theorem Extends.refl (s : Substitution) : s.Extends s := ⟨[], rfl, .nil, fun _ h => by cases h⟩

theorem Extends.bind (h : s.lookup x = none) (r : Term) : s.Extends ((x, r) :: s) :=
  ⟨[(x, r)], rfl, List.nodup_singleton x, fun b hb => by rwa [List.mem_singleton.1 hb]⟩

theorem Extends.trans (h : s.Extends t) (h' : t.Extends u) : s.Extends u := by
  obtain ⟨new, rfl, hnodup, hnew⟩ := h
  obtain ⟨more, rfl, hnodup', hmore⟩ := h'
  have hboth : ∀ b ∈ more, new.lookup b.1 = none ∧ s.lookup b.1 = none := fun b hb => by
    have hb := hmore b hb
    rwa [List.lookup_append, Option.or_eq_none_iff] at hb
  refine ⟨more ++ new, (List.append_assoc _ _ _).symm, ?_, fun b hb => ?_⟩
  · rw [List.map_append, List.nodup_append]
    refine ⟨hnodup', hnodup, fun x hx y hy hxy => ?_⟩
    obtain ⟨b, hb, rfl⟩ := List.mem_map.1 hx
    obtain ⟨c, hc, rfl⟩ := List.mem_map.1 hy
    have hnone := (hboth b hb).1
    rw [hxy, lookup_of_mem hnodup hc] at hnone
    cases hnone
  · rcases List.mem_append.1 hb with hb | hb
    · exact (hboth b hb).2
    · exact hnew b hb

theorem extends_unify (hs : s.Acyclic) (h : s.unify a b = some t) : s.Extends t := by
  rcases unify_cases hs h with ⟨rfl, -⟩ | ⟨x, r, rfl, hx, -⟩
  · exact .refl t
  · exact .bind hx r

theorem extends_unifyAll {as bs : List Term} (hs : s.Acyclic) (h : s.unifyAll as bs = some t) :
    s.Extends t := by
  induction as generalizing s bs with
  | nil =>
    obtain ⟨-, rfl⟩ := unifyAll_nil_eq_some h
    exact .refl t
  | cons a as ih =>
    obtain ⟨b, bs, u, rfl, hu, h⟩ := unifyAll_cons_eq_some h
    exact (extends_unify hs hu).trans (ih (acyclic_unify hs hu) h)

section Unified
variable {E : Value → Value → Prop} {as bs : List Term}

/-- Proper lists of terms that are unified are made equal by some assignment. -/
theorem exists_agreeIn (hE : Value.Equating E) (ha : s.Acyclic) (hs : s.Proper E)
    (has : ∀ a ∈ as, a.Proper E) (hbs : ∀ b ∈ bs, b.Proper E) (h : s.unifyAll as bs = some t) :
    ∃ θ, s.SatisfiedBy E θ ∧ Term.AgreeIn E θ as bs := by
  obtain ⟨θ, hp, hθ, -⟩ :=
    exists_satisfies hE (acyclic_unifyAll ha h) (hs.unifyAll ha has hbs h)
  exact ⟨θ, (satisfiedBy_unifyAll hE ha h hp).1 hθ⟩

/-- Lists of terms that some assignment makes equal are unified. -/
theorem isSome_unifyAll (hs : s.Acyclic)
    (h : ∃ θ, s.SatisfiedBy Value.Equal θ ∧ Term.AgreeIn Value.Equal θ as bs) :
    (s.unifyAll as bs).isSome = true := by
  obtain ⟨θ, hθ, hagree⟩ := h
  cases hu : s.unifyAll as bs with
  | none => exact absurd hagree (unifyAll_eq_none hs hu hθ)
  | some t => rfl

end Unified

end Substitution

namespace Search

/-! ### The walks of a search -/

/-- A walk: the substitution whose bindings are followed, and the term where it starts. -/
structure Walk where
  subst : Substitution
  start : Term
deriving DecidableEq

/-- The walks to unify two terms. -/
def unifyWalks (s : Substitution) (a b : Term) : List Walk := [⟨s, a⟩, ⟨s, b⟩]

/-- The walks to unify two lists of terms, up to the first two terms that cannot be unified. -/
def unifyAllWalks (s : Substitution) : List Term → List Term → List Walk
  | a :: as, b :: bs =>
    unifyWalks s a b ++
      match s.unify a b with
      | some t => unifyAllWalks t as bs
      | none => []
  | _, _ => []

/-- The walks of a way to solve goals. -/
abbrev Walker := List Literal → Substitution → Nat → Nat → List Walk

/-- The walks to resolve a goal with clauses and to go on with their bodies and the rest of the goals. -/
def resolveWalks (deeper : Solver) (deeperWalks : Walker) (goal : Literal) (rest : List Literal)
    (s : Substitution) : List Clause → Nat → Nat → List Walk
  | [], _, _ => []
  | c :: cs, want, uses =>
    if c.head.samePredicate goal then
      let used := c.renamed (uses + 1)
      unifyAllWalks s goal.terms used.head.terms ++
        match s.unifyAll goal.terms used.head.terms with
        | none => resolveWalks deeper deeperWalks goal rest s cs want (uses + 1)
        | some t =>
          let o := deeper (used.body ++ rest) t want (uses + 1)
          deeperWalks (used.body ++ rest) t want (uses + 1) ++
            match o.fault, want - o.found.length with
            | some _, _ => []
            | none, 0 => []
            | none, k + 1 => resolveWalks deeper deeperWalks goal rest s cs (k + 1) o.uses
    else resolveWalks deeper deeperWalks goal rest s cs want uses

/-- The walks to solve goals at a depth within the bound. -/
def withinWalks (clauses : List Clause) (deeper : Solver) (deeperWalks : Walker) : Walker
  | [], _, _, _ => []
  | goal :: rest, s, want, uses =>
    if want = 0 then []
    else if goal.negated then
      let probe := deeper [goal.positive] s 1 uses
      deeperWalks [goal.positive] s 1 uses ++
        match probe.fault, probe.found with
        | some _, _ => []
        | none, [] => withinWalks clauses deeper deeperWalks rest s want probe.uses
        | none, _ :: _ => []
    else if goal.isEquality then
      match goal.terms with
      | [a, b] =>
        unifyWalks s a b ++
          match s.unify a b with
          | some t => withinWalks clauses deeper deeperWalks rest t want uses
          | none => []
      | _ => []
    else resolveWalks deeper deeperWalks goal rest s clauses want uses

/-- **The walks that a search makes**, in order. -/
def walks (clauses : List Clause) (bound : Nat) : Nat → Walker
  | 0 => fun _ _ _ _ => []
  | room + 1 => withinWalks clauses (solve clauses bound room) (walks clauses bound room)

/-! ### All walks of a search end -/

/-- All walks are in substitutions without loops. -/
abbrev AllAcyclic (ws : List Walk) : Prop := ∀ w ∈ ws, w.subst.Acyclic

/-- From a substitution without loops a way to solve goals walks in such substitutions only. -/
abbrev Walker.StaysAcyclic (walker : Walker) : Prop :=
  ∀ goals s want uses, s.Acyclic → AllAcyclic (walker goals s want uses)

theorem allAcyclic_nil : AllAcyclic [] := fun _ h => by cases h

variable {clauses : List Clause} {bound : Nat} {s : Substitution}

theorem acyclic_unifyWalks (hs : s.Acyclic) (a b : Term) : AllAcyclic (unifyWalks s a b) := by
  intro w hw
  rcases List.mem_pair.1 hw with rfl | rfl <;> exact hs

theorem acyclic_unifyAllWalks (hs : s.Acyclic) (as bs : List Term) :
    AllAcyclic (unifyAllWalks s as bs) := by
  induction as generalizing s bs with
  | nil => exact allAcyclic_nil
  | cons a as ih =>
    cases bs with
    | nil => exact allAcyclic_nil
    | cons b bs =>
      refine List.forall_mem_append.2 ⟨acyclic_unifyWalks hs a b, ?_⟩
      split
      · rename_i t hu
        exact ih (Substitution.acyclic_unify hs hu) bs
      · exact allAcyclic_nil

section Deeper
variable {deeper : Solver} {deeperWalks : Walker} (hdeeper : deeperWalks.StaysAcyclic)
include hdeeper

theorem acyclic_resolveWalks (hs : s.Acyclic) (goal : Literal) (rest : List Literal)
    (cs : List Clause) (want uses : Nat) :
    AllAcyclic (resolveWalks deeper deeperWalks goal rest s cs want uses) := by
  induction cs generalizing want uses with
  | nil => exact allAcyclic_nil
  | cons c cs ih =>
    unfold resolveWalks
    split
    · refine List.forall_mem_append.2 ⟨acyclic_unifyAllWalks hs _ _, ?_⟩
      split
      · exact ih _ _
      · rename_i t hu
        have ht := Substitution.acyclic_unifyAll hs hu
        refine List.forall_mem_append.2 ⟨hdeeper _ _ _ _ ht, ?_⟩
        split
        · exact allAcyclic_nil
        · exact allAcyclic_nil
        · exact ih _ _
    · exact ih _ _

theorem acyclic_withinWalks : (withinWalks clauses deeper deeperWalks).StaysAcyclic := by
  intro goals s want uses hs
  induction goals generalizing s uses with
  | nil => exact allAcyclic_nil
  | cons goal rest ih =>
    unfold withinWalks
    split_ifs
    · exact allAcyclic_nil
    · refine List.forall_mem_append.2 ⟨hdeeper _ _ _ _ hs, ?_⟩
      split
      · exact allAcyclic_nil
      · exact ih _ _ hs
      · exact allAcyclic_nil
    · split
      · refine List.forall_mem_append.2 ⟨acyclic_unifyWalks hs _ _, ?_⟩
        split
        · rename_i t hu
          exact ih _ _ (Substitution.acyclic_unify hs hu)
        · exact allAcyclic_nil
      · exact allAcyclic_nil
    · exact acyclic_resolveWalks hdeeper hs _ _ _ _ _

end Deeper

/-- **A search that starts without loops makes none.** -/
theorem acyclic_walks (room : Nat) : (walks clauses bound room).StaysAcyclic := by
  induction room with
  | zero => exact fun _ _ _ _ _ => allAcyclic_nil
  | succ room ih => exact acyclic_withinWalks ih

theorem found_acyclic_steps : Steps clauses bound
    (fun _ _ s _ _ o => s.Acyclic → ∀ t ∈ o.found, t.Acyclic)
    (fun _ _ _ s _ _ _ o => s.Acyclic → ∀ t ∈ o.found, t.Acyclic) where
  done := by
    intro room s want uses hs t ht
    split_ifs at ht
    · cases ht
    · rwa [List.mem_singleton.1 ht]
  sated := fun _ t ht => by cases ht
  tooDeep := fun _ _ t ht => by cases ht
  probeFault := fun _ _ _ _ _ _ t ht => by cases ht
  probeFound := fun _ _ _ _ _ _ _ t ht => by cases ht
  probeEmpty := fun _ _ _ _ _ _ ih => ih
  equated := fun _ _ _ _ hu ih hs => ih (Substitution.acyclic_unify hs hu)
  unequal := fun _ _ _ _ _ _ t ht => by cases ht
  resolved := fun _ _ _ ih => ih
  exhausted := fun _ t ht => by cases ht
  other := fun _ _ ih => ih
  clash := fun _ _ _ ih => ih
  ended := fun _ _ hu ih _ _ hs => ih (Substitution.acyclic_unifyAll hs hu)
  more := fun _ _ hu ih _ _ _ ih' hs =>
    List.forall_mem_append.2 ⟨ih (Substitution.acyclic_unifyAll hs hu), ih' hs⟩

/-- **Unification is exact.** It fails if the lists of terms differ in length or no assignment that
satisfies the substitution makes them alike, and succeeds if one makes them equal; where nothing is NaN,
this is the same. It adds bindings to variables that are not bound, no loop, and exactly the equations of
the terms: for all values if NaN is taken to equal itself, and for the values other than NaN as they are.
So in every search that starts without bindings each walk ends, after at most as many steps as variables
are bound: those that unify terms, and those that read a solution. -/
theorem unification_exact :
    (∀ (s : Substitution) (as bs : List Term), s.Loopless →
      ((s.unifyAll as bs).isSome = true →
        as.length = bs.length ∧ ∃ θ, s.SatisfiedBy Value.Alike θ ∧ Term.AgreeIn Value.Alike θ as bs) ∧
      ((∃ θ, s.SatisfiedBy Value.Equal θ ∧ Term.AgreeIn Value.Equal θ as bs) →
        (s.unifyAll as bs).isSome = true) ∧
      (s.Proper Value.Equal → (∀ a ∈ as, a.Proper Value.Equal) → (∀ b ∈ bs, b.Proper Value.Equal) →
        ((s.unifyAll as bs).isSome = true ↔
          as.length = bs.length ∧
            ∃ θ, s.SatisfiedBy Value.Equal θ ∧ Term.AgreeIn Value.Equal θ as bs)) ∧
      ∀ t, s.unifyAll as bs = some t → s.Extends t ∧ t.Loopless ∧
        (∀ θ, t.SatisfiedBy Value.Alike θ ↔
          s.SatisfiedBy Value.Alike θ ∧ Term.AgreeIn Value.Alike θ as bs) ∧
        ∀ θ : Assignment, θ.Proper Value.Equal → (t.SatisfiedBy Value.Equal θ ↔
          s.SatisfiedBy Value.Equal θ ∧ Term.AgreeIn Value.Equal θ as bs)) ∧
    ∀ clauses bound room goals want uses,
      (∀ w ∈ walks clauses bound room goals [] want uses, w.subst.Ends w.start) ∧
      ∀ t ∈ (solve clauses bound room goals [] want uses).found, ∀ a, t.Ends a := by
  refine ⟨fun s as bs hs => ?_, fun clauses bound room goals want uses => ⟨fun w hw => ?_, ?_⟩⟩
  · rw [Substitution.loopless_iff_acyclic] at hs
    refine ⟨fun h => ?_, Substitution.isSome_unifyAll hs, fun hp has hbs => ⟨fun h => ?_, ?_⟩,
      fun t h => ?_⟩
    · obtain ⟨t, h⟩ := Option.isSome_iff_exists.1 h
      obtain ⟨θ, hθ, hagree⟩ := Substitution.exists_agreeIn Value.equating_alike hs s.proper_alike
        (fun a _ => a.proper_alike) (fun b _ => b.proper_alike) h
      exact ⟨hagree.length_eq, θ, hθ, hagree⟩
    · obtain ⟨t, h⟩ := Option.isSome_iff_exists.1 h
      obtain ⟨θ, hθ, hagree⟩ := Substitution.exists_agreeIn Value.equating_equal hs hp has hbs h
      exact ⟨hagree.length_eq, θ, hθ, hagree⟩
    · exact fun h => Substitution.isSome_unifyAll hs h.2
    · exact ⟨Substitution.extends_unifyAll hs h,
        Substitution.loopless_iff_acyclic.2 (Substitution.acyclic_unifyAll hs h),
        fun θ => Substitution.satisfiedBy_unifyAll Value.equating_alike hs h θ.proper_alike,
        fun θ => Substitution.satisfiedBy_unifyAll Value.equating_equal hs h⟩
  · exact (acyclic_walks room goals [] want uses Substitution.acyclic_nil w hw).ends w.start
  · intro t ht a
    exact (found_acyclic_steps.solve room goals [] want uses Substitution.acyclic_nil t ht).ends a

/-- A variable that is bound to another one. -/
def linked : Substitution := [("y", .var "z")]

/-- A store of one fact. -/
def oakDoor : List Clause := [.fact (.of "door %" [.const (.text "oak")])]

/-- Two equations make a chain of two bindings, along which the goal after them is unified. -/
theorem unification_exact_door :
    let as : List Term := [.var "x", .var "y"]
    let bs : List Term := [.var "y", .const (.text "oak")]
    let unified : Substitution := [("z", .const (.text "oak")), ("x", .var "z"), ("y", .var "z")]
    let goals : List Literal := [.of equalsPredicate [.var "a", .var "b"],
      .of equalsPredicate [.var "b", .var "c"], .of "door %" [.var "a"]]
    let chain : Substitution := [("b", .var "c"), ("a", .var "b")]
    let solved : Substitution := ("c", .const (.text "oak")) :: chain
    (linked.Loopless ∧ linked.unifyAll as bs = some unified ∧
      ⟨chain, .var "a"⟩ ∈ walks oakDoor 4 5 goals [] 1 0 ∧
      solved ∈ (solve oakDoor 4 5 goals [] 1 0).found) ∧
    (∃ θ, linked.SatisfiedBy Value.Equal θ ∧ Term.AgreeIn Value.Equal θ as bs) ∧
      linked.Extends unified ∧ unified.Loopless ∧ chain.Ends (.var "a") ∧ solved.Ends (.var "a") := by
  intro as bs unified goals chain solved
  have hs : linked.Loopless :=
    Substitution.loopless_iff_acyclic.2 (Substitution.acyclic_nil.bind rfl rfl (by decide))
  have hunified : linked.unifyAll as bs = some unified := by decide +kernel
  have hwalk : ⟨chain, .var "a"⟩ ∈ walks oakDoor 4 5 goals [] 1 0 := by decide +kernel
  have hfound : (solve oakDoor 4 5 goals [] 1 0).found = [solved] := by decide +kernel
  have hsolved : solved ∈ (solve oakDoor 4 5 goals [] 1 0).found := hfound ▸ List.mem_singleton_self _
  obtain ⟨hunify, hsearch⟩ := unification_exact
  obtain ⟨-, -, hiff, hsome⟩ := hunify linked as bs hs
  have hproper : linked.Proper Value.Equal := fun x t h => by
    unfold linked at h
    rw [lookup_cons_entry] at h
    split_ifs at h
    · cases h
      exact Term.proper_var "z"
    · cases h
  obtain ⟨hextends, hloopless, -⟩ := hsome unified hunified
  obtain ⟨hwalks, hsolutions⟩ := hsearch oakDoor 4 5 goals 1 0
  have hiff := hiff hproper (by decide) (by decide)
  exact ⟨⟨hs, hunified, hwalk, hsolved⟩, (hiff.1 (by rw [hunified]; rfl)).2, hextends, hloopless,
    hwalks _ hwalk, hsolutions solved hsolved (.var "a")⟩

/-- **A variable is unified with NaN**, which no assignment makes it equal to. -/
theorem unifies_nan : ¬ ∀ (s : Substitution) (as bs : List Term), s.Loopless →
    ((s.unifyAll as bs).isSome = true ↔ as.length = bs.length ∧
      ∃ θ, s.SatisfiedBy Value.Equal θ ∧ Term.AgreeIn Value.Equal θ as bs) := by
  intro h
  have hs : Substitution.Loopless [] := Substitution.loopless_iff_acyclic.2 Substitution.acyclic_nil
  obtain ⟨-, θ, -, hagree⟩ := (h [] [.var "x"] [.const .nan] hs).1 rfl
  exact Value.not_equal_nan (θ "x") (List.forall₂_cons.1 hagree).1

end Search
end PassageLogic
