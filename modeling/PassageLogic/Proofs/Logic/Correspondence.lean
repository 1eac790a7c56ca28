import PassageLogic.Proofs.Logic.SearchLimits
import PassageLogic.Proofs.Logic.Freshness
import PassageLogic.Proofs.Logic.Readings
import Mathlib.Data.List.Forall2

/-! # Searches from corresponding states

Two states of a search correspond if their goals are the same up to the names of unbound variables,
and up to values that no unification tells apart. Names are paired by a relation `V` that gives every
name at most one partner on either side; terms are compared at the ends of their walks (`Alike`).

* `unify_alike`: corresponding terms are unified on both sides or on neither, and what was alike
  stays so.
* `Corresponds.use`: a use of a clause pairs the variables of the two uses, whatever their numbers. The
  two clauses need not be the same: it is enough that they are alike (`Clause.Alike`).
* `solve_alike`: **corresponding searches end alike**, with the same fault and with solutions
  that correspond one by one; `solve_alikeClauses`: the same for searches in two stores whose clauses are
  alike one by one. -/

namespace PassageLogic

/-- Pairs of values that no unification tells apart. -/
structure Indistinct (E : Value → Value → Prop) : Prop where
  refl : ∀ v, E v v
  congr : ∀ {v v' w w'}, E v v' → E w w' → (v == w) = (v' == w')

theorem indistinct_eq : Indistinct Eq where
  refl _ := rfl
  congr := by
    rintro v _ w _ rfl rfl
    rfl

theorem indistinct_alike : Indistinct Value.Alike where
  refl := Value.Alike.refl
  congr := Value.Alike.beq_congr

/-- Paired names and values. -/
inductive Term.Paired (E : Value → Value → Prop) (V : String → String → Prop) : Term → Term → Prop
  | var {x x' : String} (h : V x x') : Paired E V (.var x) (.var x')
  | const {v v' : Value} (h : E v v') : Paired E V (.const v) (.const v')

/-- No name has two partners. -/
structure Pairing (V : String → String → Prop) : Prop where
  right : ∀ {x x' y'}, V x x' → V x y' → x' = y'
  left : ∀ {x y x'}, V x x' → V y x' → x = y

/-- The walks of both terms end alike. -/
def Alike (E : Value → Value → Prop) (V : String → String → Prop) (s s' : Substitution)
    (a a' : Term) : Prop := Term.Paired E V (s.walk a) (s'.walk a')

/-- The literals differ in their terms only, and these are alike. -/
structure Literal.Alike (E : Value → Value → Prop) (V : String → String → Prop)
    (s s' : Substitution) (l l' : Literal) : Prop where
  predicate : l'.predicate = l.predicate
  negated : l'.negated = l.negated
  terms : List.Forall₂ (PassageLogic.Alike E V s s') l.terms l'.terms

/-- The clauses have the same literals up to paired names and values; nothing is bound. -/
structure Clause.Alike (E : Value → Value → Prop) (N : String → String → Prop) (c c' : Clause) :
    Prop where
  head : c.head.Alike E N [] [] c'.head
  body : List.Forall₂ (Literal.Alike E N [] []) c.body c'.body

/-- The clauses are alike for some pairing of their names. -/
def Clause.SameUpTo (E : Value → Value → Prop) (c c' : Clause) : Prop :=
  ∃ N, Pairing N ∧ c.Alike E N c'

/-- **Two states after `uses` and `uses'` clause uses**, with paired names. -/
structure Corresponds (V : String → String → Prop) (uses uses' : Nat) (s s' : Substitution) :
    Prop where
  acyclic : s.Acyclic
  acyclic' : s'.Acyclic
  names : s.NamesIn (Old uses)
  names' : s'.NamesIn (Old uses')
  pairing : Pairing V
  old : ∀ {x x'}, V x x' → Old uses x ∧ Old uses' x'

/-- Two solutions found from a pair of states: the pairing was extended, and what was alike is. -/
def Follows (E : Value → Value → Prop) (V : String → String → Prop) (s s' t t' : Substitution) :
    Prop :=
  ∃ W, Pairing W ∧ (∀ x x', V x x' → W x x') ∧
    ∀ a a', Alike E V s s' a a' → Alike E W t t' a a'

variable {E : Value → Value → Prop} {V W N : String → String → Prop} {uses uses' : Nat}
  {s s' t t' u u' : Substitution} {a a' b b' : Term} {l l' : Literal}

theorem Term.Paired.mono (h : Term.Paired E V a a') (hVW : ∀ x x', V x x' → W x x') :
    Term.Paired E W a a' := by
  cases h with
  | var h => exact .var (hVW _ _ h)
  | const h => exact .const h

theorem Term.Paired.of_var {x : String} (h : Term.Paired E V (.var x) a') :
    ∃ x', a' = .var x' ∧ V x x' := by
  cases h with
  | var hx => exact ⟨_, rfl, hx⟩

/-- Paired terms are paired values, or neither is a value. -/
theorem Term.Paired.value? (h : Term.Paired E V a a') : Option.Rel E a.value? a'.value? := by
  cases h with
  | var _ => exact .none
  | const hv => exact .some hv

theorem Term.Paired.value?_eq (h : Term.Paired Eq V a a') : a.value? = a'.value? := by
  cases h with
  | var _ => rfl
  | const hv => rw [hv]

theorem Literal.Alike.imp (h : l.Alike E V s s' l')
    (ht : ∀ a a', PassageLogic.Alike E V s s' a a' → PassageLogic.Alike E W t t' a a') :
    l.Alike E W t t' l' :=
  ⟨h.predicate, h.negated, h.terms.imp fun {a} {a'} => ht a a'⟩

theorem Literal.Alike.positive (h : l.Alike E V s s' l') : l.positive.Alike E V s s' l'.positive :=
  ⟨h.predicate, rfl, h.terms⟩

theorem Literal.Alike.arity (h : l.Alike E V s s' l') : l'.arity = l.arity :=
  h.terms.length_eq.symm

theorem Literal.Alike.isEquality (h : l.Alike E V s s' l') : l'.isEquality = l.isEquality := by
  unfold Literal.isEquality
  rw [h.predicate, h.arity]

theorem Literal.Alike.samePredicate_alike {F : Value → Value → Prop} {m m' : Literal}
    (h : l.Alike E V s s' l') (hm : m.Alike F N t t' m') :
    m'.samePredicate l' = m.samePredicate l := by
  unfold Literal.samePredicate
  rw [h.predicate, h.arity, hm.predicate, hm.arity]

/-! ### Alike clauses -/

theorem pairing_eq : Pairing Eq where
  right h h' := h.symm.trans h'
  left h h' := h.trans h'.symm

theorem Term.Paired.refl (hE : Indistinct E) (a : Term) : Term.Paired E Eq a a := by
  cases a with
  | var x => exact .var rfl
  | const v => exact .const (hE.refl v)

theorem Literal.Alike.refl (hE : Indistinct E) (l : Literal) : l.Alike E Eq [] [] l :=
  ⟨rfl, rfl, List.forall₂_same.2 fun a _ => Term.Paired.refl hE a⟩

theorem Literal.Alike.samePredicate (h : l.Alike E V s s' l') (m : Literal) :
    m.samePredicate l' = m.samePredicate l :=
  h.samePredicate_alike (.refl indistinct_eq m)

theorem Clause.Alike.refl (hE : Indistinct E) (c : Clause) : c.Alike E Eq c :=
  ⟨.refl hE c.head, List.forall₂_same.2 fun l _ => .refl hE l⟩

theorem Clause.SameUpTo.refl (hE : Indistinct E) (c : Clause) : c.SameUpTo E c :=
  ⟨Eq, pairing_eq, .refl hE c⟩

namespace Follows

theorem refl (hV : Pairing V) : Follows E V s s' s s' := ⟨V, hV, fun _ _ h => h, fun _ _ h => h⟩

theorem of_imp (hVW : ∀ x x', V x x' → W x x')
    (ht : ∀ a a', Alike E V s s' a a' → Alike E W t t' a a') (h : Follows E W t t' u u') :
    Follows E V s s' u u' := by
  obtain ⟨X, hX, hWX, hu⟩ := h
  exact ⟨X, hX, fun x x' hx => hWX x x' (hVW x x' hx), fun a a' ha => hu a a' (ht a a' ha)⟩

end Follows

/-! ### Unification -/

theorem Substitution.NamesIn.bind {p : String → Prop} {x : String} (hs : s.NamesIn p) (hx : p x)
    (ha : a.NamesIn p) : Substitution.NamesIn p ((x, a) :: s) := by
  intro name b hb
  rw [lookup_cons_entry] at hb
  split_ifs at hb with hn
  · cases hb
    rw [hn]
    exact ⟨hx, ha⟩
  · exact hs name b hb

namespace Corresponds

theorem mono (h : Corresponds V uses uses' s s') {n n' : Nat} (hn : uses ≤ n) (hn' : uses' ≤ n') :
    Corresponds V n n' s s' where
  acyclic := h.acyclic
  acyclic' := h.acyclic'
  names := h.names.mono fun _ hx => hx.mono hn
  names' := h.names'.mono fun _ hx => hx.mono hn'
  pairing := h.pairing
  old hx := ⟨(h.old hx).1.mono hn, (h.old hx).2.mono hn'⟩

/-- A variable at the end of a walk is bound to the other term on both sides. -/
theorem bind (h : Corresponds V uses uses' s s') {x x' : String} (hx : V x x')
    (hxs : s.lookup x = none) (hxs' : s'.lookup x' = none) (hr : Term.Paired E V a a')
    (hu : s.Unbound a) (hu' : s'.Unbound a') (hne : a ≠ .var x) (hne' : a' ≠ .var x') :
    Corresponds V uses uses' ((x, a) :: s) ((x', a') :: s') ∧
      ∀ c c', Alike E V s s' c c' → Alike E V ((x, a) :: s) ((x', a') :: s') c c' := by
  obtain ⟨hold, hold'⟩ := h.old hx
  have hnames : a.NamesIn (Old uses) ∧ a'.NamesIn (Old uses') := by
    cases hr with
    | @var y y' hy =>
      obtain ⟨hy, hy'⟩ := h.old hy
      constructor
      · rintro _ ⟨⟩
        exact hy
      · rintro _ ⟨⟩
        exact hy'
    | const hv =>
      constructor
      · rintro _ ⟨⟩
      · rintro _ ⟨⟩
  refine ⟨⟨h.acyclic.bind hxs hu hne, h.acyclic'.bind hxs' hu' hne',
    h.names.bind hold hnames.1, h.names'.bind hold' hnames.2, h.pairing, h.old⟩, ?_⟩
  intro c c' hc
  unfold Alike at hc ⊢
  rw [Substitution.walk_bind h.acyclic hxs hu hne, Substitution.walk_bind h.acyclic' hxs' hu' hne']
  generalize s.walk c = d at hc ⊢
  generalize s'.walk c' = d' at hc ⊢
  cases hc with
  | const hv =>
    rw [if_neg (by simp), if_neg (by simp)]
    exact .const hv
  | @var y y' hy =>
    by_cases hyx : y = x
    · subst hyx
      obtain rfl := h.pairing.right hx hy
      rw [if_pos rfl, if_pos rfl]
      exact hr
    · have hyx' : y' ≠ x' := by
        rintro rfl
        exact hyx (h.pairing.left hy hx)
      rw [if_neg (by simpa using hyx), if_neg (by simpa using hyx')]
      exact .var hy

/-- Unifiers on both sides that keep what was alike, or none. -/
abbrev Unified (E : Value → Value → Prop) (V : String → String → Prop) (uses uses' : Nat)
    (s s' : Substitution) : Option Substitution → Option Substitution → Prop :=
  Option.Rel fun t t' => Corresponds V uses uses' t t' ∧
    ∀ c c', Alike E V s s' c c' → Alike E V t t' c c'

theorem Unified.of_none {o' : Option Substitution} (h : Unified E V uses uses' s s' none o') :
    o' = none := by
  cases h with
  | none => rfl

theorem Unified.of_some {o' : Option Substitution} (h : Unified E V uses uses' s s' (some t) o') :
    ∃ t', o' = some t' ∧ Corresponds V uses uses' t t' ∧
      ∀ c c', Alike E V s s' c c' → Alike E V t t' c c' := by
  cases h with
  | some h => exact ⟨_, rfl, h⟩

theorem Unified.of_imp {o o' : Option Substitution} (h : Unified E V uses uses' t t' o o')
    (himp : ∀ c c', Alike E V s s' c c' → Alike E V t t' c c') :
    Unified E V uses uses' s s' o o' := by
  cases h with
  | none => exact .none
  | some h => exact .some ⟨h.1, fun c c' hc => h.2 c c' (himp c c' hc)⟩

/-- **Alike terms are unified on both sides or on neither.** -/
theorem unify_alike (hE : Indistinct E) (h : Corresponds V uses uses' s s')
    (ha : Alike E V s s' a a') (hb : Alike E V s s' b b') :
    Unified E V uses uses' s s' (s.unify a b) (s'.unify a' b') := by
  have hua := (Substitution.walk_leads h.acyclic a).unbound
  have hub := (Substitution.walk_leads h.acyclic b).unbound
  have hua' := (Substitution.walk_leads h.acyclic' a').unbound
  have hub' := (Substitution.walk_leads h.acyclic' b').unbound
  unfold Alike at ha hb
  unfold Substitution.unify
  generalize s.walk a = c at ha hua ⊢
  generalize s'.walk a' = c' at ha hua' ⊢
  generalize s.walk b = d at hb hub ⊢
  generalize s'.walk b' = d' at hb hub' ⊢
  cases ha with
  | @var x x' hx =>
    cases hb with
    | @var y y' hy =>
      simp only []
      by_cases hxy : x = y
      · subst hxy
        obtain rfl := h.pairing.right hx hy
        rw [if_pos rfl, if_pos rfl]
        exact .some ⟨h, fun _ _ hc => hc⟩
      · have hxy' : x' ≠ y' := by
          rintro rfl
          exact hxy (h.pairing.left hx hy)
        rw [if_neg hxy, if_neg hxy']
        refine .some (h.bind hx hua hua' (.var hy) hub hub' ?_ ?_)
        · simpa using Ne.symm hxy
        · simpa using Ne.symm hxy'
    | const hw => exact .some (h.bind hx hua hua' (.const hw) trivial trivial (by simp) (by simp))
  | @const v v' hv =>
    cases hb with
    | var hy => exact .some (h.bind hy hub hub' (.const hv) trivial trivial (by simp) (by simp))
    | @const w w' hw =>
      simp only [hE.congr hv hw]
      by_cases hvw : (v' == w') = true
      · rw [if_pos hvw, if_pos hvw]
        exact .some ⟨h, fun _ _ hc => hc⟩
      · rw [if_neg hvw, if_neg hvw]
        exact .none

theorem unifyAll_alike (hE : Indistinct E) (h : Corresponds V uses uses' s s')
    {as as' bs bs' : List Term} (ha : List.Forall₂ (Alike E V s s') as as')
    (hb : List.Forall₂ (Alike E V s s') bs bs') :
    Unified E V uses uses' s s' (s.unifyAll as bs) (s'.unifyAll as' bs') := by
  induction as generalizing s s' as' bs bs' with
  | nil =>
    cases ha
    cases hb with
    | nil => exact .some ⟨h, fun _ _ hc => hc⟩
    | cons _ _ => exact .none
  | cons a as ih =>
    obtain ⟨a', as', haa, has, rfl⟩ := List.forall₂_cons_left_iff.1 ha
    cases hb with
    | nil => exact .none
    | @cons b b' bs bs' hb hbs =>
      have hu := h.unify_alike hE haa hb
      unfold Substitution.unifyAll
      cases hs : s.unify a b with
      | none =>
        rw [hs] at hu
        rw [hu.of_none]
        exact .none
      | some t =>
        rw [hs] at hu
        obtain ⟨t', hs', hc, himp⟩ := hu.of_some
        have hrest := ih hc (has.imp fun {c} {c'} => himp c c') (hbs.imp fun {c} {c'} => himp c c')
        rw [hs']
        exact hrest.of_imp himp

end Corresponds

/-! ### The use of a clause -/

/-- The pairing with the variables of the next uses of two clauses whose names are paired by `N`. -/
def withUses (V N : String → String → Prop) (uses uses' : Nat) : String → String → Prop :=
  fun x x' => V x x' ∨
    ∃ y y', N y y' ∧ x = Clause.useName (uses + 1) y ∧ x' = Clause.useName (uses' + 1) y'

theorem subset_withUses (uses uses' : Nat) : ∀ x x', V x x' → withUses V N uses uses' x x' :=
  fun _ _ h => .inl h

theorem alike_withUses (a a' : Term) (h : Alike E V s s' a a') :
    Alike E (withUses V N uses uses') s s' a a' :=
  h.mono (subset_withUses uses uses')

namespace Corresponds

theorem use (h : Corresponds V uses uses' s s') (hN : Pairing N) :
    Corresponds (withUses V N uses uses') (uses + 1) (uses' + 1) s s' where
  acyclic := h.acyclic
  acyclic' := h.acyclic'
  names := h.names.mono fun _ hx => hx.mono (Nat.le_succ _)
  names' := h.names'.mono fun _ hx => hx.mono (Nat.le_succ _)
  pairing := by
    constructor
    · rintro x x' y' (hx | ⟨y, z, hyz, rfl, rfl⟩) (hy | ⟨y₁, z₁, hyz₁, hxz, rfl⟩)
      · exact h.pairing.right hx hy
      · exact absurd hxz (h.old hx).1.ne_useName
      · exact absurd rfl (h.old hy).1.ne_useName
      · obtain rfl := (useName_inj.1 hxz).2
        rw [hN.right hyz hyz₁]
    · rintro x y x' (hx | ⟨y, z, hyz, rfl, rfl⟩) (hy | ⟨y₁, z₁, hyz₁, rfl, hz⟩)
      · exact h.pairing.left hx hy
      · exact absurd hz (h.old hx).2.ne_useName
      · exact absurd rfl (h.old hy).2.ne_useName
      · obtain rfl := (useName_inj.1 hz).2
        rw [hN.left hyz hyz₁]
  old := by
    rintro x x' (hx | ⟨y, z, -, rfl, rfl⟩)
    · exact ⟨(h.old hx).1.mono (Nat.le_succ _), (h.old hx).2.mono (Nat.le_succ _)⟩
    · exact ⟨old_useName _ _, old_useName _ _⟩

theorem walk_useName (hs : s.Acyclic) (hn : s.NamesIn (Old uses)) (y : String) :
    s.walk (.var (Clause.useName (uses + 1) y)) = .var (Clause.useName (uses + 1) y) := by
  refine Substitution.walk_unbound hs ?_
  cases hb : s.lookup (Clause.useName (uses + 1) y) with
  | none => rfl
  | some r => exact absurd rfl (hn _ _ hb).1.ne_useName

theorem alike_mapVars (h : Corresponds V uses uses' s s') (ha : Alike E N [] [] a a') :
    Alike E (withUses V N uses uses') s s' (a.mapVars (Clause.useName (uses + 1)))
      (a'.mapVars (Clause.useName (uses' + 1))) := by
  have hp : Term.Paired E N a a' := ha
  unfold Alike
  cases hp with
  | @var y y' hy =>
    have hw := walk_useName h.acyclic h.names y
    have hw' := walk_useName h.acyclic' h.names' y'
    simp only [Term.mapVars, hw, hw']
    exact .var (.inr ⟨y, y', hy, rfl, rfl⟩)
  | const hv =>
    simp only [Term.mapVars, Substitution.walk_const]
    exact .const hv

theorem alike_literal (h : Corresponds V uses uses' s s') (hl : l.Alike E N [] [] l') :
    (l.mapVars (Clause.useName (uses + 1))).Alike E (withUses V N uses uses') s s'
      (l'.mapVars (Clause.useName (uses' + 1))) where
  predicate := hl.predicate
  negated := hl.negated
  terms := by
    simp only [Literal.mapVars]
    rw [List.forall₂_map_left_iff, List.forall₂_map_right_iff]
    exact hl.terms.imp fun {_} {_} ha => h.alike_mapVars ha

theorem alike_body (h : Corresponds V uses uses' s s') {c c' : Clause} (hc : c.Alike E N c')
    {rest rest' : List Literal} (hr : List.Forall₂ (Literal.Alike E V s s') rest rest') :
    List.Forall₂ (Literal.Alike E (withUses V N uses uses') s s')
      ((c.renamed (uses + 1)).body ++ rest) ((c'.renamed (uses' + 1)).body ++ rest') := by
  refine List.rel_append ?_ (hr.imp fun {l} {l'} hl => hl.imp alike_withUses)
  unfold Clause.renamed Clause.mapVars
  rw [List.forall₂_map_left_iff, List.forall₂_map_right_iff]
  exact hc.body.imp fun {_} {_} hl => h.alike_literal hl

/-! ### What a search does on both sides -/

section Goal

variable {goal goal' : Literal} (hE : Indistinct E) (h : Corresponds V uses uses' s s')
  (hg : goal.Alike E V s s' goal')
include hE h hg

theorem unify_goal (hab : goal.terms = [a, b]) : ∃ a' b', goal'.terms = [a', b'] ∧
    Unified E V uses uses' s s' (s.unify a b) (s'.unify a' b') := by
  have ht := hg.terms
  rw [hab] at ht
  obtain ⟨a', ts, ha, hts, hts'⟩ := List.forall₂_cons_left_iff.1 ht
  obtain ⟨b', us, hb, hus, rfl⟩ := List.forall₂_cons_left_iff.1 hts
  obtain rfl := List.forall₂_nil_left_iff.1 hus
  exact ⟨a', b', hts', h.unify_alike hE ha hb⟩

theorem equated (hab : goal.terms = [a, b]) (hu : s.unify a b = some t) :
    ∃ a' b' t', goal'.terms = [a', b'] ∧ s'.unify a' b' = some t' ∧
      Corresponds V uses uses' t t' ∧ ∀ c c', Alike E V s s' c c' → Alike E V t t' c c' := by
  obtain ⟨a', b', hab', hun⟩ := h.unify_goal hE hg hab
  rw [hu] at hun
  obtain ⟨t', hu', ht⟩ := hun.of_some
  exact ⟨a', b', t', hab', hu', ht⟩

theorem unequal (hab : goal.terms = [a, b]) (hu : s.unify a b = none) :
    ∃ a' b', goal'.terms = [a', b'] ∧ s'.unify a' b' = none := by
  obtain ⟨a', b', hab', hun⟩ := h.unify_goal hE hg hab
  rw [hu] at hun
  exact ⟨a', b', hab', hun.of_none⟩

section Clauses

variable {c c' : Clause} (hN : Pairing N) (hcc : c.Alike E N c')
include hN hcc

theorem unifyAll_alikeUse :
    Unified E (withUses V N uses uses') (uses + 1) (uses' + 1) s s'
      (s.unifyAll goal.terms (c.renamed (uses + 1)).head.terms)
      (s'.unifyAll goal'.terms (c'.renamed (uses' + 1)).head.terms) :=
  (h.use hN).unifyAll_alike hE (hg.imp alike_withUses).terms (h.alike_literal hcc.head).terms

theorem clash_alike (hu : s.unifyAll goal.terms (c.renamed (uses + 1)).head.terms = none) :
    s'.unifyAll goal'.terms (c'.renamed (uses' + 1)).head.terms = none := by
  have hun := h.unifyAll_alikeUse hE hg hN hcc
  rw [hu] at hun
  exact hun.of_none

/-- **Alike clauses are used on both sides or on neither.** Their bodies and the other goals are alike
then. -/
theorem used_alike {rest rest' : List Literal}
    (hr : List.Forall₂ (Literal.Alike E V s s') rest rest')
    (hu : s.unifyAll goal.terms (c.renamed (uses + 1)).head.terms = some t) :
    ∃ t', s'.unifyAll goal'.terms (c'.renamed (uses' + 1)).head.terms = some t' ∧
      Corresponds (withUses V N uses uses') (uses + 1) (uses' + 1) t t' ∧
      (∀ a a', Alike E V s s' a a' → Alike E (withUses V N uses uses') t t' a a') ∧
      List.Forall₂ (Literal.Alike E (withUses V N uses uses') t t')
        ((c.renamed (uses + 1)).body ++ rest) ((c'.renamed (uses' + 1)).body ++ rest') := by
  have hun := h.unifyAll_alikeUse hE hg hN hcc
  rw [hu] at hun
  obtain ⟨t', hu', hc, himp⟩ := hun.of_some
  refine ⟨t', hu', hc, fun a a' ha => himp a a' (alike_withUses a a' ha), ?_⟩
  exact (h.alike_body hcc hr).imp fun {l} {l'} hl => hl.imp himp

end Clauses

theorem clash {c : Clause}
    (hu : s.unifyAll goal.terms (c.renamed (uses + 1)).head.terms = none) :
    s'.unifyAll goal'.terms (c.renamed (uses' + 1)).head.terms = none :=
  h.clash_alike hE hg pairing_eq (.refl hE c) hu

/-- **A clause is used on both sides or on neither.** Its body and the other goals are alike then. -/
theorem used {c : Clause} {rest rest' : List Literal}
    (hr : List.Forall₂ (Literal.Alike E V s s') rest rest')
    (hu : s.unifyAll goal.terms (c.renamed (uses + 1)).head.terms = some t) :
    ∃ t', s'.unifyAll goal'.terms (c.renamed (uses' + 1)).head.terms = some t' ∧
      Corresponds (withUses V Eq uses uses') (uses + 1) (uses' + 1) t t' ∧
      (∀ a a', Alike E V s s' a a' → Alike E (withUses V Eq uses uses') t t' a a') ∧
      List.Forall₂ (Literal.Alike E (withUses V Eq uses uses') t t')
        ((c.renamed (uses + 1)).body ++ rest) ((c.renamed (uses' + 1)).body ++ rest') :=
  h.used_alike hE hg pairing_eq (.refl hE c) hr hu

end Goal

end Corresponds

/-! ### Searches -/

namespace Search

variable {clauses clauses' : List Clause} {bound : Nat}

/-- The same fault, and solutions that correspond one by one. -/
structure EndsAlike (E : Value → Value → Prop) (V : String → String → Prop) (s s' : Substitution)
    (o o' : Outcome) : Prop where
  fault : o'.fault = o.fault
  found : List.Forall₂ (Follows E V s s') o.found o'.found

namespace EndsAlike

variable {o o' : Outcome}

theorem of_imp (h : EndsAlike E W t t' o o') (hVW : ∀ x x', V x x' → W x x')
    (ht : ∀ a a', Alike E V s s' a a' → Alike E W t t' a a') : EndsAlike E V s s' o o' :=
  ⟨h.fault, h.found.imp fun {_} {_} hu => hu.of_imp hVW ht⟩

theorem nil {n n' : Nat} {f : Option Fault} : EndsAlike E V s s' ⟨[], n, f⟩ ⟨[], n', f⟩ :=
  ⟨rfl, .nil⟩

theorem length_eq (h : EndsAlike E V s s' o o') : o'.found.length = o.found.length :=
  h.found.length_eq.symm

theorem found_eq_nil (h : EndsAlike E V s s' o o') : o'.found = [] ↔ o.found = [] := by
  rw [← List.length_eq_zero_iff, h.length_eq, List.length_eq_zero_iff]

end EndsAlike

theorem alike_steps (hE : Indistinct E)
    (hcs : List.Forall₂ (Clause.SameUpTo E) clauses clauses') : Steps clauses bound
    (fun room goals s want uses o => ∀ V uses' s' goals', Corresponds V uses uses' s s' →
      List.Forall₂ (Literal.Alike E V s s') goals goals' →
      EndsAlike E V s s' o (solve clauses' bound room goals' s' want uses'))
    (fun room goal rest s cs want uses o => ∀ V uses' s' goal' rest' cs',
      List.Forall₂ (Clause.SameUpTo E) cs cs' → Corresponds V uses uses' s s' →
      goal.Alike E V s s' goal' → List.Forall₂ (Literal.Alike E V s s') rest rest' →
      EndsAlike E V s s' o (resolve (solve clauses' bound room) goal' rest' s' cs' want uses')) where
  done := by
    intro room s want uses V uses' s' goals' hc hg
    cases hg
    rw [solve_nil]
    by_cases hw : want = 0
    · rw [if_pos hw, if_pos hw]
      exact .nil
    · rw [if_neg hw, if_neg hw]
      exact ⟨rfl, .cons (.refl hc.pairing) .nil⟩
  sated := by
    intro room goal rest s uses V uses' s' goals' hc hg
    rw [solve_sated]
    exact .nil
  tooDeep := by
    intro goal rest s want uses hw V uses' s' goals' hc hg
    cases hg
    rw [solve_tooDeep hw]
    exact .nil
  probeFault := by
    intro room goal rest s want uses probe fault hw hn ih hp hf V uses' s' goals' hc hgs
    obtain ⟨goal', rest', hg, hr, rfl⟩ := List.forall₂_cons_left_iff.1 hgs
    have hprobe := ih V uses' s' [goal'.positive] hc (.cons hg.positive .nil)
    rw [solve_probeFault hw (hg.negated.trans hn) rfl (hprobe.fault.trans hf)]
    exact .nil
  probeFound := by
    intro room goal rest s want uses probe hw hn ih hp hf hfd V uses' s' goals' hc hgs
    obtain ⟨goal', rest', hg, hr, rfl⟩ := List.forall₂_cons_left_iff.1 hgs
    have hprobe := ih V uses' s' [goal'.positive] hc (.cons hg.positive .nil)
    rw [solve_probeFound hw (hg.negated.trans hn) rfl (hprobe.fault.trans hf)
      fun h => hfd (hprobe.found_eq_nil.1 h)]
    exact .nil
  probeEmpty := by
    intro room goal rest s want uses probe o hw hn ih hp hf hfd ih' V uses' s' goals' hc hgs
    obtain ⟨goal', rest', hg, hr, rfl⟩ := List.forall₂_cons_left_iff.1 hgs
    have hprobe := ih V uses' s' [goal'.positive] hc (.cons hg.positive .nil)
    have hle := uses_le_of_solve hp
    rw [solve_probeEmpty hw (hg.negated.trans hn) rfl (hprobe.fault.trans hf)
      (hprobe.found_eq_nil.2 hfd)]
    exact ih' V _ s' rest' (hc.mono hle (uses_le _ _ _ _ _)) hr
  equated := by
    intro room goal rest s a b t want uses o hw hn he hab hu ih V uses' s' goals' hc hgs
    obtain ⟨goal', rest', hg, hr, rfl⟩ := List.forall₂_cons_left_iff.1 hgs
    obtain ⟨a', b', t', hab', hu', hc', himp⟩ := hc.equated hE hg hab hu
    rw [solve_equated hw (hg.negated.trans hn) (hg.isEquality.trans he) hab' hu']
    refine (ih V uses' t' rest' hc' ?_).of_imp (fun _ _ hx => hx) himp
    exact hr.imp fun {l} {l'} hl => hl.imp himp
  unequal := by
    intro room goal rest s a b want uses hw hn he hab hu V uses' s' goals' hc hgs
    obtain ⟨goal', rest', hg, hr, rfl⟩ := List.forall₂_cons_left_iff.1 hgs
    obtain ⟨a', b', hab', hu'⟩ := hc.unequal hE hg hab hu
    rw [solve_unequal hw (hg.negated.trans hn) (hg.isEquality.trans he) hab' hu']
    exact .nil
  resolved := by
    intro room goal rest s want uses o hw hn he ih V uses' s' goals' hc hgs
    obtain ⟨goal', rest', hg, hr, rfl⟩ := List.forall₂_cons_left_iff.1 hgs
    rw [solve_resolved hw (hg.negated.trans hn) (hg.isEquality.trans he)]
    exact ih V uses' s' goal' rest' clauses' hcs hc hg hr
  exhausted := by
    intro room goal rest s want uses V uses' s' goal' rest' cs' hall hc hg hr
    cases hall
    exact .nil
  other := by
    intro room goal rest s c cs want uses o _ hp ih V uses' s' goal' rest' cs' hall hc hg hr
    obtain ⟨c', cs', ⟨N, hN, hcc⟩, hcs', rfl⟩ := List.forall₂_cons_left_iff.1 hall
    rw [resolve_other ((hg.samePredicate_alike hcc.head).trans hp)]
    exact ih V uses' s' goal' rest' cs' hcs' hc hg hr
  clash := by
    intro room goal rest s c cs want uses o _ hp hu ih V uses' s' goal' rest' cs' hall hc hg hr
    obtain ⟨c', cs', ⟨N, hN, hcc⟩, hcs', rfl⟩ := List.forall₂_cons_left_iff.1 hall
    rw [resolve_clash ((hg.samePredicate_alike hcc.head).trans hp) (hc.clash_alike hE hg hN hcc hu)]
    exact ih V (uses' + 1) s' goal' rest' cs' hcs' (hc.mono (Nat.le_succ _) (Nat.le_succ _)) hg hr
  ended := by
    intro room goal rest s c cs t want uses o _ hp hu ih ho he V uses' s' goal' rest' cs' hall hc hg hr
    obtain ⟨c', cs', ⟨N, hN, hcc⟩, hcs', rfl⟩ := List.forall₂_cons_left_iff.1 hall
    obtain ⟨t', hu', hc', himp, hbody⟩ := hc.used_alike hE hg hN hcc hr hu
    have hend := ih _ (uses' + 1) t' _ hc' hbody
    rw [resolve_ended ((hg.samePredicate_alike hcc.head).trans hp) hu' rfl]
    · exact hend.of_imp (subset_withUses _ _) himp
    · rw [hend.fault, hend.length_eq]
      exact he
  more := by
    intro room goal rest s c cs t want uses o o' _ hp hu ih ho hf hlt ih' V uses' s' goal' rest' cs'
      hall hc hg hr
    obtain ⟨c', cs', ⟨N, hN, hcc⟩, hcs', rfl⟩ := List.forall₂_cons_left_iff.1 hall
    obtain ⟨t', hu', hc', himp, hbody⟩ := hc.used_alike hE hg hN hcc hr hu
    have hend := ih _ (uses' + 1) t' _ hc' hbody
    have hle := uses_le_of_solve ho
    have hle' : uses' + 1 ≤ (solve clauses' bound room
        ((c'.renamed (uses' + 1)).body ++ rest') t' want (uses' + 1)).uses :=
      uses_le _ _ _ _ _
    have hmore := ih' V _ s' goal' rest' cs' hcs' (hc.mono (by omega) (Nat.le_of_succ_le hle')) hg hr
    generalize hq : solve clauses' bound room ((c'.renamed (uses' + 1)).body ++ rest') t' want
      (uses' + 1) = q at hend hle' hmore
    have hlt' : q.found.length < want := by
      rw [hend.length_eq]
      exact hlt
    rw [resolve_more ((hg.samePredicate_alike hcc.head).trans hp) hu' hq (hend.fault.trans hf) hlt' rfl,
      hend.length_eq]
    refine ⟨hmore.fault, List.rel_append ?_ hmore.found⟩
    exact (hend.of_imp (subset_withUses _ _) himp).found

/-- **Corresponding searches in stores of alike clauses end alike.** -/
theorem solve_alikeClauses (hE : Indistinct E)
    (hcs : List.Forall₂ (Clause.SameUpTo E) clauses clauses') (h : Corresponds V uses uses' s s')
    {goals goals' : List Literal} (hg : List.Forall₂ (Literal.Alike E V s s') goals goals')
    (room want : Nat) : EndsAlike E V s s' (solve clauses bound room goals s want uses)
      (solve clauses' bound room goals' s' want uses') :=
  (alike_steps hE hcs).solve room goals s want uses V uses' s' goals' h hg

/-- **Corresponding searches end alike.** -/
theorem solve_alike (hE : Indistinct E) (h : Corresponds V uses uses' s s')
    {goals goals' : List Literal} (hg : List.Forall₂ (Literal.Alike E V s s') goals goals')
    (room want : Nat) : EndsAlike E V s s' (solve clauses bound room goals s want uses)
      (solve clauses bound room goals' s' want uses') :=
  solve_alikeClauses hE (List.forall₂_same.2 fun c _ => .refl hE c) h hg room want

end Search

end PassageLogic
