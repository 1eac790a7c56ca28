import PassageLogic.Logic.Substitution
import PassageLogic.Proofs.Logic.Distinct
import PassageLogic.Proofs.Logic.Records

/-! # Substitutions as constraints on assignments

An assignment gives every variable a value. It satisfies a substitution if both sides of every
binding get equal values: a substitution is a system of equations, and unification adds equations. In
what sense values are equal is a parameter, one of the readings of equality.

* `Leads s t r`: following the bindings of `s` from `t` ends at `r`, which is not bound. In an
  acyclic substitution the walk ends there (`walk_leads`).
* `satisfiedBy_unify`, `unify_eq_none`: a unifier adds exactly the equation of the two terms, and there
  is none only if no assignment satisfies it. `satisfiedBy_unifyAll`, `unifyAll_eq_none`: the same for
  lists of terms. What a unifier adds is read in either sense, for assignments that are proper in it;
  that there is none means something for equality itself only, because a term that is NaN is not unified
  with itself.
* `exists_satisfies`: an acyclic substitution of proper terms is satisfied by some assignment, which gives
  a bound variable the very value at the end of its chain. -/

namespace PassageLogic

/-- Values for all variables. -/
abbrev Assignment := String → Value

/-- The value of a term. -/
def Term.valueIn (θ : Assignment) : Term → Value
  | .var name => θ name
  | .const value => value

/-- The value that a term is. -/
def Term.value? : Term → Option Value
  | .var _ => none
  | .const value => some value

@[simp] theorem Term.value?_eq_some {t : Term} {v : Value} :
    t.value? = some v ↔ t = .const v := by
  cases t <;> simp [value?]

@[simp] theorem Term.valueIn_var (θ : Assignment) (name : String) :
    (Term.var name).valueIn θ = θ name := rfl

@[simp] theorem Term.valueIn_const (θ : Assignment) (v : Value) :
    (Term.const v).valueIn θ = v := rfl

/-- The reading relates every value of the assignment to itself. -/
def Assignment.Proper (E : Value → Value → Prop) (θ : Assignment) : Prop := ∀ x, E (θ x) (θ x)

theorem Assignment.proper_alike (θ : Assignment) : θ.Proper Value.Alike := fun x => .refl (θ x)

/-- The values of two lists of terms are equal position by position. -/
def Term.AgreeIn (E : Value → Value → Prop) (θ : Assignment) (as bs : List Term) : Prop :=
  List.Forall₂ (fun a b => E (a.valueIn θ) (b.valueIn θ)) as bs

namespace Substitution

variable {E : Value → Value → Prop} {s t : Substitution} {a b r : Term} {x y : String}
  {θ : Assignment}

/-! ### Following bindings -/

/-- The term is no bound variable. -/
def Unbound (s : Substitution) : Term → Prop
  | .var name => s.lookup name = none
  | .const _ => True

theorem unbound_var : s.Unbound (.var x) ↔ s.lookup x = none := Iff.rfl

/-- The variables on every chain of bindings ascend in some ranking. -/
def Acyclic (s : Substitution) : Prop :=
  ∃ rank : String → Nat, ∀ x y, s.lookup x = some (.var y) → rank x < rank y

/-- Following the bindings from the first term ends at the second one. -/
inductive Leads (s : Substitution) : Term → Term → Prop
  | stop {t : Term} (h : s.Unbound t) : Leads s t t
  | step {name : String} {t r : Term} (h : s.lookup name = some t) (hr : Leads s t r) :
      Leads s (.var name) r

theorem Leads.unbound (h : s.Leads a r) : s.Unbound r := by
  induction h with
  | stop h => exact h
  | step _ _ ih => exact ih

theorem Leads.unique {r' : Term} (h : s.Leads a r) (h' : s.Leads a r') : r = r' := by
  induction h with
  | stop h =>
    cases h' with
    | stop => rfl
    | step hb => rw [unbound_var.1 h] at hb; cases hb
  | step hb _ ih =>
    cases h' with
    | stop h => rw [unbound_var.1 h] at hb; cases hb
    | step hb' hr => rw [hb] at hb'; cases hb'; exact ih hr

theorem acyclic_nil : Acyclic [] := ⟨fun _ => 0, fun x y h => by cases h⟩

/-- The number of bindings of variables that rank at least `n`. -/
def ranked (s : Substitution) (rank : String → Nat) (n : Nat) : Nat :=
  s.countP fun b => n ≤ rank b.1

theorem ranked_lt {rank : String → Nat} (h : s.lookup x = some a) {n : Nat} (hn : rank x < n) :
    s.ranked rank n < s.ranked rank (rank x) := by
  induction s with
  | nil => cases h
  | cons b s ih =>
    obtain ⟨z, u⟩ := b
    have hle : ranked s rank n ≤ ranked s rank (rank x) :=
      List.countP_mono_left fun c _ hc => by
        simp only [decide_eq_true_eq] at hc ⊢
        omega
    rw [lookup_cons_entry] at h
    unfold ranked at hle ih ⊢
    rw [List.countP_cons, List.countP_cons]
    by_cases hx : x = z
    · subst hx
      rw [if_neg (by simp; omega), if_pos (by simp)]
      omega
    · rw [if_neg hx] at h
      have := ih h
      by_cases hz : n ≤ rank z
      · rw [if_pos (by simpa using hz), if_pos (by simp; omega)]
        omega
      · rw [if_neg (by simpa using hz)]
        omega

theorem walkWithin_leads {rank : String → Nat}
    (hr : ∀ x y, s.lookup x = some (.var y) → rank x < rank y) (k : Nat) (t : Term)
    (hk : ∀ x, t = .var x → s.ranked rank (rank x) ≤ k) : s.Leads t (s.walkWithin k t) := by
  induction k generalizing t with
  | zero =>
    refine .stop ?_
    cases t with
    | const v => trivial
    | var x =>
      cases hb : s.lookup x with
      | none => exact hb
      | some u =>
        have h0 := hk x rfl
        have := ranked_lt hb (Nat.lt_succ_self (rank x))
        omega
  | succ k ih =>
    cases t with
    | const v => exact .stop trivial
    | var x =>
      cases hb : s.lookup x with
      | none => simp only [walkWithin, hb]; exact .stop hb
      | some u =>
        simp only [walkWithin, hb]
        refine .step hb (ih u fun y hy => ?_)
        subst hy
        have h1 := ranked_lt hb (hr x y hb)
        have h2 := hk x rfl
        omega

/-- **A walk ends where the chain of bindings does.** -/
theorem walk_leads (hs : s.Acyclic) (t : Term) : s.Leads t (s.walk t) := by
  obtain ⟨rank, hr⟩ := hs
  exact walkWithin_leads hr _ t fun x _ => List.countP_le_length

theorem walk_eq (hs : s.Acyclic) (h : s.Leads a r) : s.walk a = r := (walk_leads hs a).unique h

theorem walk_const (s : Substitution) (v : Value) : s.walk (.const v) = .const v := by
  cases s <;> rfl

theorem walk_unbound (hs : s.Acyclic) (h : s.lookup x = none) : s.walk (.var x) = .var x :=
  walk_eq hs (.stop h)

theorem walk_bound (hs : s.Acyclic) (h : s.lookup x = some a) : s.walk (.var x) = s.walk a :=
  walk_eq hs (.step h (walk_leads hs a))

/-! ### Adding a binding -/

theorem Leads.bind (hx : s.lookup x = none) (hr : s.Unbound r) (hne : r ≠ .var x)
    (h : s.Leads a b) : Leads ((x, r) :: s) a (if b = .var x then r else b) := by
  have hr' : Unbound ((x, r) :: s) r := by
    cases r with
    | const v => trivial
    | var y =>
      rw [unbound_var, lookup_cons_entry, if_neg (fun he => hne (by rw [he]))]
      exact hr
  induction h with
  | @stop u hu =>
    cases u with
    | const v => rw [if_neg (by simp)]; exact .stop trivial
    | var y =>
      by_cases hy : y = x
      · subst hy
        rw [if_pos rfl]
        exact .step (by rw [lookup_cons_entry, if_pos rfl]) (.stop hr')
      · rw [if_neg (by simpa using hy)]
        refine .stop ?_
        rw [unbound_var, lookup_cons_entry, if_neg hy]
        exact hu
  | @step name u v hb _ ih =>
    refine .step ?_ ih
    rw [lookup_cons_entry, if_neg (fun h => by rw [h, hx] at hb; cases hb)]
    exact hb

/-- A new binding of an unbound variable to an unbound term makes no cycle. -/
theorem Acyclic.bind (hs : s.Acyclic) (hx : s.lookup x = none) (hr : s.Unbound r)
    (hne : r ≠ .var x) : Acyclic ((x, r) :: s) := by
  obtain ⟨rank, hrank⟩ := hs
  -- the end of the new binding is raised above the bound variable; nothing is bound at it
  refine ⟨fun z => if r = .var z then rank z + rank x + 1 else rank z, fun z y h => ?_⟩
  show (if r = .var z then rank z + rank x + 1 else rank z) <
    if r = .var y then rank y + rank x + 1 else rank y
  rw [lookup_cons_entry] at h
  split_ifs at h with hzx
  · cases h
    subst hzx
    rw [if_pos rfl, if_neg hne]
    omega
  · have hzr : r ≠ .var z := fun he => by
      rw [he, unbound_var, h] at hr
      cases hr
    rw [if_neg hzr]
    have := hrank z y h
    split_ifs <;> omega

theorem walk_bind (hs : s.Acyclic) (hx : s.lookup x = none) (hr : s.Unbound r)
    (hne : r ≠ .var x) (a : Term) :
    walk ((x, r) :: s) a = if s.walk a = .var x then r else s.walk a :=
  walk_eq (hs.bind hx hr hne) ((walk_leads hs a).bind hx hr hne)

/-! ### Satisfaction -/

/-- Both sides of every binding have equal values. -/
def SatisfiedBy (E : Value → Value → Prop) (s : Substitution) (θ : Assignment) : Prop :=
  ∀ name t, s.lookup name = some t → E (θ name) (t.valueIn θ)

theorem satisfiedBy_nil (θ : Assignment) : SatisfiedBy E [] θ := fun _ _ h => by cases h

/-- A term is the end of its chain, or has a value equal to that of the end. -/
theorem Leads.value (hE : Value.Equating E) (h : s.Leads a r) (hθ : s.SatisfiedBy E θ) :
    a = r ∨ E (a.valueIn θ) (r.valueIn θ) := by
  induction h with
  | stop => exact .inl rfl
  | step hb _ ih =>
    rcases ih with rfl | ih
    · exact .inr (hθ _ _ hb)
    · exact .inr (hE.trans (hθ _ _ hb) ih)

theorem satisfiedBy_bind (hx : s.lookup x = none) :
    SatisfiedBy E ((x, r) :: s) θ ↔ s.SatisfiedBy E θ ∧ E (θ x) (r.valueIn θ) := by
  unfold SatisfiedBy
  constructor
  · refine fun h => ⟨fun name u hb => h name u ?_, h x r (by rw [lookup_cons_entry, if_pos rfl])⟩
    rw [lookup_cons_entry, if_neg (fun h => by rw [h, hx] at hb; cases hb)]
    exact hb
  · rintro ⟨h, hr⟩ name u hb
    rw [lookup_cons_entry] at hb
    split_ifs at hb with hn
    · cases hb
      rw [hn]
      exact hr
    · exact h name u hb

/-- The assignment that reads off the end of every chain; variables at the end get the same value. -/
def assignment (s : Substitution) : Assignment := fun x =>
  (s.walk (.var x)).valueIn fun _ => .bool false

theorem valueIn_assignment (hs : s.Acyclic) (h : s.lookup x = some a) :
    a.valueIn s.assignment = s.assignment x := by
  unfold assignment
  rw [walk_bound hs h]
  cases a with
  | const v =>
    rw [walk_const]
    rfl
  | var y => rfl

/-- All terms that variables are bound to are proper. -/
def Proper (E : Value → Value → Prop) (s : Substitution) : Prop :=
  ∀ name t, s.lookup name = some t → t.Proper E

theorem proper_nil : Proper E [] := fun _ _ h => by cases h

theorem proper_alike (s : Substitution) : s.Proper Value.Alike := fun _ t _ => t.proper_alike

theorem Leads.proper (hs : s.Proper E) (h : s.Leads a r) (ha : a.Proper E) : r.Proper E := by
  induction h with
  | stop => exact ha
  | step hb _ ih => exact ih (hs _ _ hb)

theorem proper_assignment (hE : Value.Equating E) (ha : s.Acyclic) (hs : s.Proper E) :
    s.assignment.Proper E := by
  intro x
  have hproper := (walk_leads ha (.var x)).proper hs (Term.proper_var x)
  unfold assignment
  cases hw : s.walk (.var x) with
  | var y => exact hE.of_equal (beq_self_eq_true false)
  | const v =>
    rw [hw] at hproper
    exact Term.proper_const.1 hproper

/-- **An acyclic substitution of proper terms is satisfied**, by an assignment that gives every variable
whose chain ends at a value this very value. -/
theorem exists_satisfies (hE : Value.Equating E) (ha : s.Acyclic) (hs : s.Proper E) :
    ∃ θ : Assignment, θ.Proper E ∧ s.SatisfiedBy E θ ∧
      ∀ x v, s.walk (.var x) = .const v → θ x = v := by
  have hproper := proper_assignment hE ha hs
  refine ⟨s.assignment, hproper, fun x a h => ?_, fun x v h => ?_⟩
  · rw [valueIn_assignment ha h]
    exact hproper x
  · unfold assignment
    rw [h]
    rfl

/-! ### Unifying two terms -/

/-- What a unifier does: nothing if the walks of both terms end at the same thing, else it binds an
unbound variable at the end of one walk to the end of the other. -/
theorem unify_cases (hs : s.Acyclic) (h : s.unify a b = some t) :
    (t = s ∧ ((∃ x, s.walk a = .var x ∧ s.walk b = .var x) ∨
      ∃ v w, s.walk a = .const v ∧ s.walk b = .const w ∧ Value.Equal v w)) ∨
      ∃ x r, t = (x, r) :: s ∧ s.lookup x = none ∧ s.Unbound r ∧ r ≠ .var x ∧
        ((s.walk a = .var x ∧ s.walk b = r) ∨ (s.walk a = r ∧ s.walk b = .var x)) := by
  have ha := (walk_leads hs a).unbound
  have hb := (walk_leads hs b).unbound
  unfold unify at h
  cases hwa : s.walk a with
  | var x =>
    rw [hwa] at ha
    cases hwb : s.walk b with
    | var y =>
      simp only [hwa, hwb] at h
      split_ifs at h with hxy
      · cases h
        exact .inl ⟨rfl, .inl ⟨x, rfl, by rw [hxy]⟩⟩
      · cases h
        refine .inr ⟨x, .var y, rfl, ha, by rw [← hwb]; exact hb, ?_, .inl ⟨rfl, rfl⟩⟩
        intro he
        cases he
        exact hxy rfl
    | const w =>
      simp only [hwa, hwb] at h
      cases h
      exact .inr ⟨x, .const w, rfl, ha, trivial, by simp, .inl ⟨rfl, rfl⟩⟩
  | const v =>
    cases hwb : s.walk b with
    | var y =>
      simp only [hwa, hwb] at h
      cases h
      rw [hwb] at hb
      exact .inr ⟨y, .const v, rfl, hb, trivial, by simp, .inr ⟨rfl, rfl⟩⟩
    | const w =>
      simp only [hwa, hwb] at h
      split_ifs at h with hvw
      cases h
      exact .inl ⟨rfl, .inr ⟨v, w, rfl, rfl, hvw⟩⟩

/-- Two terms are not unified only if their walks end at different values. -/
theorem unify_none_cases (h : s.unify a b = none) :
    ∃ v w, s.walk a = .const v ∧ s.walk b = .const w ∧ (v == w) = false := by
  unfold unify at h
  cases hwa : s.walk a with
  | var x =>
    cases hwb : s.walk b with
    | var y => simp only [hwa, hwb] at h; split_ifs at h
    | const w => simp only [hwa, hwb, reduceCtorEq] at h
  | const v =>
    cases hwb : s.walk b with
    | var y => simp only [hwa, hwb, reduceCtorEq] at h
    | const w =>
      simp only [hwa, hwb] at h
      split_ifs at h with hvw
      exact ⟨v, w, rfl, rfl, by simpa using hvw⟩

theorem acyclic_unify (hs : s.Acyclic) (h : s.unify a b = some t) : t.Acyclic := by
  rcases unify_cases hs h with ⟨rfl, -⟩ | ⟨x, r, rfl, hx, hr, hne, -⟩
  · exact hs
  · exact hs.bind hx hr hne

/-- A unifier of proper terms binds variables to proper terms. -/
theorem Proper.unify (hs : s.Acyclic) (hp : s.Proper E) (ha : a.Proper E) (hb : b.Proper E)
    (h : s.unify a b = some t) : t.Proper E := by
  rcases unify_cases hs h with ⟨rfl, -⟩ | ⟨x, r, rfl, -, -, -, hw⟩
  · exact hp
  · have hr : r.Proper E := by
      rcases hw with ⟨-, rfl⟩ | ⟨rfl, -⟩
      · exact (walk_leads hs b).proper hp hb
      · exact (walk_leads hs a).proper hp ha
    intro name u hu
    rw [lookup_cons_entry] at hu
    split_ifs at hu
    · cases hu
      exact hr
    · exact hp name u hu

/-- Under an assignment that satisfies the substitution, two terms have equal values if the ends of
their walks have. -/
theorem valueIn_iff_walk (hE : Value.Equating E) (hs : s.Acyclic) (hθ : s.SatisfiedBy E θ) :
    E (a.valueIn θ) (b.valueIn θ) ↔ E ((s.walk a).valueIn θ) ((s.walk b).valueIn θ) := by
  have hleft : ∀ v, E (a.valueIn θ) v ↔ E ((s.walk a).valueIn θ) v := by
    intro v
    rcases (walk_leads hs a).value hE hθ with ha | ha
    · rw [← ha]
    · exact ⟨hE.trans (hE.symm ha), hE.trans ha⟩
  have hright : ∀ v, E v (b.valueIn θ) ↔ E v ((s.walk b).valueIn θ) := by
    intro v
    rcases (walk_leads hs b).value hE hθ with hb | hb
    · rw [← hb]
    · exact ⟨fun h => hE.trans h hb, fun h => hE.trans h (hE.symm hb)⟩
  rw [hleft, hright]

/-- An assignment that gives two terms equal values satisfies their unifier. -/
theorem SatisfiedBy.unify (hE : Value.Equating E) (hs : s.Acyclic) (h : s.unify a b = some t)
    (hθ : s.SatisfiedBy E θ) (hab : E (a.valueIn θ) (b.valueIn θ)) : t.SatisfiedBy E θ := by
  rcases unify_cases hs h with ⟨rfl, -⟩ | ⟨x, r, rfl, hx, -, -, hw⟩
  · exact hθ
  · rw [valueIn_iff_walk hE hs hθ] at hab
    rw [satisfiedBy_bind hx]
    refine ⟨hθ, ?_⟩
    rcases hw with ⟨ha, hb⟩ | ⟨ha, hb⟩
    · rw [ha, hb] at hab
      exact hab
    · rw [ha, hb] at hab
      exact hE.symm hab

/-- **A unifier adds the equation of the two terms.** -/
theorem satisfiedBy_unify (hE : Value.Equating E) (hs : s.Acyclic) (h : s.unify a b = some t)
    (hp : θ.Proper E) :
    t.SatisfiedBy E θ ↔ s.SatisfiedBy E θ ∧ E (a.valueIn θ) (b.valueIn θ) := by
  refine ⟨fun ht => ?_, fun hθ => hθ.1.unify hE hs h hθ.2⟩
  rcases unify_cases hs h with ⟨rfl, hw⟩ | ⟨x, r, rfl, hx, -, -, hw⟩
  · refine ⟨ht, (valueIn_iff_walk hE hs ht).2 ?_⟩
    rcases hw with ⟨x, ha, hb⟩ | ⟨v, w, ha, hb, hvw⟩
    · rw [ha, hb]
      exact hp x
    · rw [ha, hb]
      exact hE.of_equal hvw
  · obtain ⟨hθ, hxr⟩ := (satisfiedBy_bind hx).1 ht
    refine ⟨hθ, (valueIn_iff_walk hE hs hθ).2 ?_⟩
    rcases hw with ⟨ha, hb⟩ | ⟨ha, hb⟩
    · rw [ha, hb]
      exact hxr
    · rw [ha, hb]
      exact hE.symm hxr

/-- **No unifier, no solution.** -/
theorem unify_eq_none (hs : s.Acyclic) (h : s.unify a b = none) (hθ : s.SatisfiedBy Value.Equal θ) :
    ¬ Value.Equal (a.valueIn θ) (b.valueIn θ) := by
  obtain ⟨v, w, ha, hb, hvw⟩ := unify_none_cases h
  rw [valueIn_iff_walk Value.equating_equal hs hθ, ha, hb]
  simp [hvw]

/-! ### Unifying lists of terms -/

theorem unifyAll_nil_eq_some {bs : List Term} (h : s.unifyAll [] bs = some t) :
    bs = [] ∧ t = s := by
  cases bs with
  | nil =>
    cases h
    exact ⟨rfl, rfl⟩
  | cons b bs => cases h

theorem unifyAll_cons_eq_some {as bs : List Term} (h : s.unifyAll (a :: as) bs = some t) :
    ∃ b bs' u, bs = b :: bs' ∧ s.unify a b = some u ∧ unifyAll u as bs' = some t := by
  cases bs with
  | nil => cases h
  | cons b bs =>
    simp only [unifyAll] at h
    split at h
    · rename_i u hu
      exact ⟨b, bs, u, rfl, hu, h⟩
    · cases h

theorem acyclic_unifyAll {as bs : List Term} (hs : s.Acyclic) (h : s.unifyAll as bs = some t) :
    t.Acyclic := by
  induction as generalizing s bs with
  | nil =>
    obtain ⟨rfl, rfl⟩ := unifyAll_nil_eq_some h
    exact hs
  | cons a as ih =>
    obtain ⟨b, bs, u, rfl, hu, h⟩ := unifyAll_cons_eq_some h
    exact ih (acyclic_unify hs hu) h

theorem Proper.unifyAll {as bs : List Term} (hs : s.Acyclic) (hp : s.Proper E)
    (ha : ∀ a ∈ as, a.Proper E) (hb : ∀ b ∈ bs, b.Proper E) (h : s.unifyAll as bs = some t) :
    t.Proper E := by
  induction as generalizing s bs with
  | nil =>
    obtain ⟨rfl, rfl⟩ := unifyAll_nil_eq_some h
    exact hp
  | cons a as ih =>
    obtain ⟨b, bs, u, rfl, hu, h⟩ := unifyAll_cons_eq_some h
    rw [List.forall_mem_cons] at ha hb
    exact ih (acyclic_unify hs hu) (hp.unify hs ha.1 hb.1 hu) ha.2 hb.2 h

theorem SatisfiedBy.unifyAll (hE : Value.Equating E) {as bs : List Term} (hs : s.Acyclic)
    (h : s.unifyAll as bs = some t) (hθ : s.SatisfiedBy E θ) (hag : Term.AgreeIn E θ as bs) :
    t.SatisfiedBy E θ := by
  induction as generalizing s bs with
  | nil =>
    obtain ⟨rfl, rfl⟩ := unifyAll_nil_eq_some h
    exact hθ
  | cons a as ih =>
    obtain ⟨b, bs, u, rfl, hu, h⟩ := unifyAll_cons_eq_some h
    obtain ⟨hab, hag⟩ := List.forall₂_cons.1 hag
    exact ih (acyclic_unify hs hu) h (hθ.unify hE hs hu hab) hag

theorem satisfiedBy_unifyAll (hE : Value.Equating E) {as bs : List Term} (hs : s.Acyclic)
    (h : s.unifyAll as bs = some t) (hp : θ.Proper E) :
    t.SatisfiedBy E θ ↔ s.SatisfiedBy E θ ∧ Term.AgreeIn E θ as bs := by
  induction as generalizing s bs with
  | nil =>
    obtain ⟨rfl, rfl⟩ := unifyAll_nil_eq_some h
    exact ⟨fun hθ => ⟨hθ, .nil⟩, And.left⟩
  | cons a as ih =>
    obtain ⟨b, bs, u, rfl, hu, h⟩ := unifyAll_cons_eq_some h
    rw [ih (acyclic_unify hs hu) h, satisfiedBy_unify hE hs hu hp, Term.AgreeIn, Term.AgreeIn,
      List.forall₂_cons, and_assoc]

theorem unifyAll_eq_none {as bs : List Term} (hs : s.Acyclic) (h : s.unifyAll as bs = none)
    (hθ : s.SatisfiedBy Value.Equal θ) : ¬ Term.AgreeIn Value.Equal θ as bs := by
  induction as generalizing s bs with
  | nil =>
    cases bs with
    | nil => cases h
    | cons b bs => exact fun h => by cases h
  | cons a as ih =>
    cases bs with
    | nil => exact fun h => by cases h
    | cons b bs =>
      rw [Term.AgreeIn, List.forall₂_cons]
      rintro ⟨hab, hall⟩
      simp only [unifyAll] at h
      cases hu : s.unify a b with
      | none => exact unify_eq_none hs hu hθ hab
      | some u =>
        rw [hu] at h
        exact ih (acyclic_unify hs hu) h (hθ.unify Value.equating_equal hs hu hab) hall

/-! ### Projection -/

theorem project_eq (s : Substitution) (l : Literal) :
    s.project l = Record.ofList (assoc (fun name => (s.walk (.var name)).value?) l.vars) := by
  unfold project assoc
  congr 1
  refine congrArg (List.filterMap · l.vars) (funext fun name => ?_)
  show _ = ((s.walk (.var name)).value?).map fun v => (name, v)
  cases s.walk (.var name) <;> rfl

/-- A record gives a variable of the literal the value at the end of its chain, if there is one. -/
theorem get?_project (s : Substitution) (l : Literal) (name : String) :
    (s.project l).get? name = if name ∈ l.vars then (s.walk (.var name)).value? else none := by
  have hv : l.vars.Nodup := nodup_eraseDups _
  rw [project_eq, Record.get?_ofList ((map_fst_assoc_sublist _ _).nodup hv), lookup_assoc]

end Substitution
end PassageLogic
