import PassageLogic.Proofs.Logic.QueryNames
import PassageLogic.Proofs.Session.TransientRule

/-! # Asking under different numberings

The answers to a line do not depend on where the numbering of its nameless variables starts, nor on the
number of its transient rule (`askLine_renumbered`). Another start only moves the names of the nameless
variables, and a search is the same under an injective renaming. The names of the other variables must
stay where they are: they must not be names of nameless variables themselves (`IsApart`). -/

namespace PassageLogic

/-! ### Moving a family of names -/

open Classical in
/-- The map that moves the names of a family up by `d` and leaves all other names alone. -/
noncomputable def shiftNames (family : Nat → String) (d : Nat) (x : String) : String :=
  if h : ∃ m, family m = x then family (h.choose + d) else x

section Shift
variable {family : Nat → String} {d : Nat}

theorem shiftNames_family (hg : Function.Injective family) (m : Nat) :
    shiftNames family d (family m) = family (m + d) := by
  have h : ∃ k, family k = family m := ⟨m, rfl⟩
  unfold shiftNames
  rw [dif_pos h, hg h.choose_spec]

theorem shiftNames_other {x : String} (h : ∀ m, family m ≠ x) : shiftNames family d x = x :=
  dif_neg fun ⟨m, hm⟩ => h m hm

theorem shiftNames_injective (hg : Function.Injective family) :
    Function.Injective (shiftNames family d) := by
  intro x y h
  by_cases hx : ∃ m, family m = x
  · obtain ⟨m, rfl⟩ := hx
    by_cases hy : ∃ k, family k = y
    · obtain ⟨k, rfl⟩ := hy
      rw [shiftNames_family hg, shiftNames_family hg] at h
      rw [Nat.add_right_cancel (hg h)]
    · rw [shiftNames_family hg, shiftNames_other (not_exists.1 hy)] at h
      exact absurd ⟨_, h⟩ hy
  · rw [shiftNames_other (not_exists.1 hx)] at h
    by_cases hy : ∃ k, family k = y
    · obtain ⟨k, rfl⟩ := hy
      rw [shiftNames_family hg] at h
      exact absurd ⟨_, h.symm⟩ hx
    · rwa [shiftNames_other (not_exists.1 hy)] at h

end Shift

theorem anonymousName_injective : Function.Injective anonymousName := fun _ _ => anonymousName_inj

/-- The name of the `n`-th nameless variable with the mark of the first use. -/
def markedAnonymousName (n : Nat) : String := Clause.useName 1 (anonymousName n)

theorem markedAnonymousName_injective : Function.Injective markedAnonymousName := fun _ _ h =>
  anonymousName_inj (useName_inj.1 h).2

theorem anonymousName_ne_useName (m n : Nat) (x : String) : anonymousName m ≠ Clause.useName n x :=
  ne_useName_of_no_hash (hash_not_mem_anonymousName m) n x

/-- The name is none of a nameless variable, with the mark of the first use or without. -/
def IsApart (name : String) : Prop := ∀ n, anonymousName n ≠ name ∧ markedAnonymousName n ≠ name

theorem isApart_of_no_opening {name : String} (h : '(' ∉ name.toList) : IsApart name := by
  refine fun n => ⟨?_, ?_⟩
  · rintro rfl
    exact h (opening_mem_anonymousName n)
  · rintro rfl
    refine h ?_
    rw [markedAnonymousName, toList_useName]
    exact List.mem_append_left _ (opening_mem_anonymousName n)

/-- The move of the marked names is the move of the names before they are marked. -/
theorem shiftNames_useName (d : Nat) (x : String) :
    shiftNames markedAnonymousName d (Clause.useName 1 x) =
      Clause.useName 1 (shiftNames anonymousName d x) := by
  by_cases hx : ∃ m, anonymousName m = x
  · obtain ⟨m, rfl⟩ := hx
    rw [shiftNames_family anonymousName_injective]
    exact shiftNames_family markedAnonymousName_injective m
  · rw [shiftNames_other (not_exists.1 hx)]
    exact shiftNames_other fun m hm => hx ⟨m, (useName_inj.1 hm).2⟩

/-! ### Literals -/

/-- The predicate is none of a transient rule, and the names of variables are none of nameless ones. -/
structure Statement.Ordinary (st : Statement) : Prop where
  predicate : '_' ∉ st.predicate.toList
  names : ∀ name, .var name ∈ st.tokens → IsApart name

theorem Statement.FromText.ordinary {st : Statement} (h : st.FromText) : st.Ordinary :=
  ⟨h.grammatical.no_underscore, fun name hn => isApart_of_no_opening (h.grammatical.names name hn)⟩

theorem Statement.ordinary_equation {name : String} (h : IsApart name) (value : String) :
    (Statement.equation name value).Ordinary := by
  refine ⟨?_, fun x hx => ?_⟩
  · intro hc
    unfold Statement.predicate at hc
    rw [Text.toList_trimmed] at hc
    have hwords : '_' ∉ (Text.joinWith " " [placeholder, "=", placeholder]).toList := by decide
    exact hwords (Text.trim_subset _ hc)
  · rcases List.mem_cons.1 hx with hx | hx
    · cases hx
      exact h
    · simp at hx

theorem Statement.Ordinary.isApart_of_mem_vars {st : Statement} (h : st.Ordinary) {x : String}
    (hx : x ∈ st.vars) : IsApart x := h.names x (Statement.mem_vars.1 hx).1

theorem terms_renumbered {ts : List Token} (h : ∀ name, .var name ∈ ts → IsApart name) (k d : Nat) :
    Token.terms ts (k + d) = ((Token.terms ts k).1.map (Term.mapVars (shiftNames anonymousName d)),
      (Token.terms ts k).2 + d) := by
  induction ts generalizing k with
  | nil => rfl
  | cons t ts ih =>
    have ih := ih fun name hn => h name (List.mem_cons_of_mem _ hn)
    cases t with
    | const value =>
      unfold Token.terms
      rw [ih]
      rfl
    | var name =>
      unfold Token.terms
      split_ifs with hn
      · rw [Nat.add_right_comm, ih]
        simp only [List.map_cons, Term.mapVars, shiftNames_family anonymousName_injective]
      · have hx := shiftNames_other (d := d) fun m => (h name List.mem_cons_self m).1
        rw [ih]
        simp only [List.map_cons, Term.mapVars, hx]

theorem literal_renumbered {st : Statement} (h : st.Ordinary) (k d : Nat) :
    st.literal (k + d) = ((st.literal k).1.mapVars (shiftNames anonymousName d),
      (st.literal k).2 + d) := by
  unfold Statement.literal
  rw [terms_renumbered h.names]
  rfl

theorem literals_renumbered {sts : List Statement} (h : ∀ st ∈ sts, st.Ordinary) (k d : Nat) :
    Statement.literals sts (k + d) =
      ((Statement.literals sts k).1.map (Literal.mapVars (shiftNames anonymousName d)),
        (Statement.literals sts k).2 + d) := by
  induction sts generalizing k with
  | nil => rfl
  | cons st sts ih =>
    unfold Statement.literals
    rw [literal_renumbered (h st List.mem_cons_self)]
    simp only []
    rw [ih fun u hu => h u (List.mem_cons_of_mem _ hu)]
    rfl

theorem markedGoals_renumbered {sts : List Statement} (h : ∀ st ∈ sts, st.Ordinary) (k d : Nat) :
    markedGoals sts (k + d) =
      (markedGoals sts k).map (Literal.mapVars (shiftNames markedAnonymousName d)) := by
  have hcomp : Clause.useName 1 ∘ shiftNames anonymousName d =
      shiftNames markedAnonymousName d ∘ Clause.useName 1 :=
    funext fun x => (shiftNames_useName d x).symm
  unfold markedGoals
  rw [literals_renumbered h, List.map_map, List.map_map]
  refine List.map_congr_left fun l _ => ?_
  show (l.mapVars _).mapVars _ = (l.mapVars _).mapVars _
  rw [Literal.mapVars_mapVars, Literal.mapVars_mapVars, hcomp]

/-! ### Streams -/

/-- Streams of searches with the same fault, and solutions that give the same parts of records, are the
same in these parts. -/
theorem Store.answers_map_congr {s s' : Store} {q q' : Literal} {f f' : Record → Record}
    (hl : s'.limits = s.limits) (hfault : (s'.search q').fault = (s.search q).fault)
    (hfound : (s'.search q').found.map (fun t => f' (t.project q')) =
      (s.search q).found.map fun t => f (t.project q)) :
    (s'.answers q').map (Except.map f') = (s.answers q).map (Except.map f) := by
  have hlen : (s'.search q').found.length = (s.search q).found.length := by
    simpa using congrArg List.length hfound
  have hmap : ∀ (f : Record → Record) (q : Literal) (found : List Substitution),
      found.map (Except.map f ∘ fun t => (.ok (t.project q) : Item)) =
        (found.map fun t => f (t.project q)).map Except.ok := by
    intro f q found
    rw [List.map_map]
    rfl
  have htake : ∀ n, ((s'.search q').found.take n).map (fun t => f' (t.project q')) =
      ((s.search q).found.take n).map fun t => f (t.project q) := by
    intro n
    rw [List.map_take, List.map_take, hfound]
  rw [answers_eq, answers_eq, List.map_append, List.map_append, List.map_map, List.map_map, hl, hfault,
    hlen, hmap, hmap, htake]
  congr 1
  cases (s.search q).fault with
  | some fault => rfl
  | none => split_ifs <;> rfl

/-- Streams of searches with the same fault, and solutions whose visible parts are the same, are
gathered alike. -/
theorem Store.gather_congr {s s' : Store} {q q' : Literal} {visible : List String}
    (hl : s'.limits = s.limits) (hfault : (s'.search q').fault = (s.search q).fault)
    (hfound : (s'.search q').found.map (fun t => (t.project q').keep visible.contains) =
      (s.search q).found.map fun t => (t.project q).keep visible.contains)
    (limit : Option Nat) : gather visible limit [] (s'.answers q') =
      gather visible limit [] (s.answers q) :=
  PassageLogic.gather_congr (answers_map_congr hl hfault hfound)

/-- Names that a renaming leaves alone are given the same values. -/
theorem Substitution.answer_mapVars {f : String → String} (hf : Function.Injective f)
    {names : List String} (hn : names.Nodup) (h : ∀ x ∈ names, f x = x) (t : Substitution) :
    (t.mapVars f).answer names = t.answer names := by
  refine Record.ext_get? fun x => ?_
  rw [get?_answer hn, get?_answer hn]
  by_cases hx : x ∈ names
  · rw [if_pos hx, if_pos hx, ← value?_walk_mapVars hf t x, h x hx]
  · rw [if_neg hx, if_neg hx]

/-! ### Claims -/

theorem Statement.mem_vars_literal {st : Statement} {x : String} (hx : x ∈ st.vars) (k : Nat) :
    x ∈ (st.literal k).1.vars := by
  obtain ⟨ht, hne⟩ := Statement.mem_vars.1 hx
  exact Literal.mem_vars.2 (mem_terms_of_name ht hne k)

/-- **The answers to a claim do not depend on the numbering.** -/
theorem gather_claim_renumbered {st : Statement} (h : st.Ordinary) (store : Store)
    (limit : Option Nat) (k d : Nat) :
    gather st.vars limit [] (store.answers (st.literal (k + d)).1) =
      gather st.vars limit [] (store.answers (st.literal k).1) := by
  have hf := shiftNames_injective (d := d) anonymousName_injective
  have hspares : SparesUses store.clauses (shiftNames anonymousName d) 0 := fun n _ _ _ x _ =>
    shiftNames_other fun m => anonymousName_ne_useName m n x
  have hsearch := store.search_mapVars hf hspares (st.literal k).1
  have hq : (st.literal (k + d)).1 = (st.literal k).1.mapVars (shiftNames anonymousName d) := by
    rw [literal_renumbered h]
  have hnodup : st.vars.Nodup := nodup_eraseDups _
  rw [← hq] at hsearch
  refine Store.gather_congr rfl (by rw [hsearch]; rfl) ?_ limit
  rw [hsearch]
  show (((store.search (st.literal k).1).found.map _).map _) = _
  rw [List.map_map]
  refine List.map_congr_left fun t _ => ?_
  show ((t.mapVars _).project _).keep _ = _
  rw [Substitution.keep_project hnodup fun x hx => Statement.mem_vars_literal hx (k + d),
    Substitution.keep_project hnodup fun x hx => Statement.mem_vars_literal hx k]
  exact Substitution.answer_mapVars hf hnodup
    (fun x hx => shiftNames_other fun m => (h.isApart_of_mem_vars hx m).1) t

/-! ### Conjunctions -/

/-- Every variable is at the end of its chain, or leads to a variable. -/
def Substitution.VarsOnly (s : Substitution) : Prop := ∀ e ∈ s, ∃ y, e.2 = .var y

namespace Substitution

variable {s : Substitution}

theorem VarsOnly.walk (hs : s.VarsOnly) (x : String) : ∃ y, s.walk (.var x) = .var y := by
  have hwithin : ∀ k x, ∃ y, s.walkWithin k (.var x) = .var y := by
    intro k
    induction k with
    | zero => exact fun x => ⟨x, rfl⟩
    | succ k ih =>
      intro x
      unfold walkWithin
      cases hl : s.lookup x with
      | none => exact ⟨x, rfl⟩
      | some t =>
        obtain ⟨y, rfl⟩ := hs (x, t) (mem_of_lookup_eq_some hl)
        exact ih y
  exact hwithin _ x

/-- Variables can always be unified. -/
theorem VarsOnly.exists_unify (hs : s.VarsOnly) (x y : String) :
    ∃ t, s.unify (.var x) (.var y) = some t ∧ t.VarsOnly := by
  obtain ⟨u, hu⟩ := hs.walk x
  obtain ⟨v, hv⟩ := hs.walk y
  unfold unify
  rw [hu, hv]
  simp only []
  split_ifs
  · exact ⟨s, rfl, hs⟩
  · exact ⟨_, rfl, List.forall_mem_cons.2 ⟨⟨v, rfl⟩, hs⟩⟩

theorem VarsOnly.exists_unifyAll (hs : s.VarsOnly) (g : String → String) (xs : List String) :
    ∃ t, s.unifyAll (xs.map Term.var) (xs.map fun x => .var (g x)) = some t := by
  induction xs generalizing s with
  | nil => exact ⟨s, rfl⟩
  | cons x xs ih =>
    obtain ⟨u, hu, hus⟩ := hs.exists_unify x (g x)
    obtain ⟨t, ht⟩ := ih hus
    refine ⟨t, ?_⟩
    unfold unifyAll
    simp only [List.map_cons, hu]
    exact ht

end Substitution

section Conjunction
variable {sts : List Statement} (h : ∀ st ∈ sts, st.Ordinary)
include h

theorem isApart_of_mem_visibleNames {x : String} (hx : x ∈ Act.visibleNames sts) : IsApart x := by
  obtain ⟨st, hst, hx⟩ := mem_visibleNames.1 hx
  exact (h st hst).isApart_of_mem_vars hx

/-- The unifier of the heads of a transient rule does not depend on the numbering. -/
theorem exists_unifier (d : Nat) : ∃ s, Substitution.unifyAll [] ((Act.visibleNames sts).map Term.var)
    ((Act.visibleNames sts).map fun x => .var (Clause.useName 1 x)) = some s ∧
      s.mapVars (shiftNames markedAnonymousName d) = s := by
  have hnil : Substitution.VarsOnly [] := fun e he => by cases he
  obtain ⟨s, hs⟩ := hnil.exists_unifyAll (Clause.useName 1) (Act.visibleNames sts)
  refine ⟨s, hs, ?_⟩
  have hmap := Substitution.unifyAll_mapVars
    (shiftNames_injective (d := d) markedAnonymousName_injective) []
    ((Act.visibleNames sts).map Term.var)
    ((Act.visibleNames sts).map fun x => .var (Clause.useName 1 x))
  have hnames : ((Act.visibleNames sts).map Term.var).map
      (Term.mapVars (shiftNames markedAnonymousName d)) = (Act.visibleNames sts).map Term.var := by
    rw [List.map_map]
    refine List.map_congr_left fun x hx => ?_
    exact congrArg Term.var (shiftNames_other fun m => (isApart_of_mem_visibleNames h hx m).2)
  have hmarked : ((Act.visibleNames sts).map fun x => Term.var (Clause.useName 1 x)).map
      (Term.mapVars (shiftNames markedAnonymousName d)) =
        (Act.visibleNames sts).map fun x => .var (Clause.useName 1 x) := by
    rw [List.map_map]
    refine List.map_congr_left fun x hx => congrArg Term.var ?_
    rw [shiftNames_useName, shiftNames_other fun m => (isApart_of_mem_visibleNames h hx m).1]
  rw [hnames, hmarked, hs] at hmap
  exact (Option.some.inj (hs.symm.trans hmap)).symm

theorem conjoin_renumbered (store : Store) {s : Substitution} {d : Nat}
    (hs : s.mapVars (shiftNames markedAnonymousName d) = s) (k : Nat) :
    store.conjoin sts (k + d) s =
      (store.conjoin sts k s).mapVars (shiftNames markedAnonymousName d) := by
  have hspares : SparesUses store.clauses (shiftNames markedAnonymousName d) 1 := fun n hn _ _ x _ =>
    shiftNames_other fun m hm => absurd (useName_inj.1 hm).1 (Nat.ne_of_lt hn)
  unfold Store.conjoin
  rw [markedGoals_renumbered h]
  conv_lhs => rw [← hs]
  exact Search.solve_mapVars (shiftNames_injective markedAnonymousName_injective) hspares _ _ _ _

/-- **The answers to a conjunction depend neither on the numbering nor on the transient rule.** -/
theorem gather_conjunction_renumbered (store : Store) {n n' : Nat}
    (hn : Unmentioned (Act.transientHead n (Act.visibleNames sts)).predicate store.clauses)
    (hn' : Unmentioned (Act.transientHead n' (Act.visibleNames sts)).predicate store.clauses)
    (limit : Option Nat) (k d : Nat) :
    gather (Act.visibleNames sts) limit []
      ((store.withClause (conjunctionRule sts n' (k + d))).answers
        (conjunctionRule sts n' (k + d)).head) =
    gather (Act.visibleNames sts) limit []
      ((store.withClause (conjunctionRule sts n k)).answers (conjunctionRule sts n k).head) := by
  have hf := shiftNames_injective (d := d) markedAnonymousName_injective
  have hpred : ∀ (n k : Nat), ∀ st ∈ sts,
      st.predicate ≠ (conjunctionRule sts n k).head.predicate := fun n k st hst =>
    ne_transientHead (h st hst).predicate _ _
  obtain ⟨s, hu, hs⟩ := exists_unifier h d
  obtain ⟨hfound, hfault⟩ := store.search_rule n k (hpred n k) hu hn
  obtain ⟨hfound', hfault'⟩ := store.search_rule n' (k + d) (hpred n' (k + d)) hu hn'
  rw [conjoin_renumbered h store hs] at hfound' hfault'
  have hlimits : (store.withClause (conjunctionRule sts n' (k + d))).limits =
      (store.withClause (conjunctionRule sts n k)).limits := rfl
  refine Store.gather_congr hlimits (by rw [hfault', hfault]; rfl) ?_ limit
  rw [hfound, hfound']
  show ((store.conjoin sts k s).found.map _).map _ = _
  rw [List.map_map]
  refine List.map_congr_left fun t _ => ?_
  show ((t.mapVars _).project _).keep _ = _
  rw [Substitution.keep_project (nodup_visibleNames sts) fun x hx => mem_vars_conjunctionRule _ _ hx,
    Substitution.keep_project (nodup_visibleNames sts) fun x hx => mem_vars_conjunctionRule _ _ hx]
  exact Substitution.answer_mapVars hf (nodup_visibleNames sts)
    (fun x hx => shiftNames_other fun m => (isApart_of_mem_visibleNames h hx m).2) t

end Conjunction

end PassageLogic
