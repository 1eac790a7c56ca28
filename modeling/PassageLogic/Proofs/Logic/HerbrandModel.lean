import PassageLogic.Proofs.Logic.Unification

/-! # The least Herbrand model

An interpretation says of which values a predicate holds. It is a model of clauses if it does not
tell equal values apart, reads the built-in equality as equality of values, and makes the head of a
clause true under every assignment that makes its body true. Clauses about the built-in equality
have no say. `LeastModel` is what can be derived from the clauses; it is a model (`isModel`) and
contained in every other one (`LeastModel.least`). Denials are not interpreted: the model is meant
for clauses whose bodies have none.

Equality is a parameter. If it is `Value.Equal`, then the model speaks of the values other than NaN only:
nothing equals NaN, so that a head with a value that is NaN is not derived. If it is `Value.Alike`, then the
model speaks of all values, and NaN is equal to itself in it. -/

namespace PassageLogic

variable {E : Value → Value → Prop}

/-- The values of the terms. -/
def Literal.valuesIn (θ : Assignment) (l : Literal) : List Value := l.terms.map (Term.valueIn θ)

/-- Which values a predicate holds of. -/
abbrev Interpretation := String → List Value → Prop

/-- Values that are equal position by position. -/
abbrev SameValues (E : Value → Value → Prop) : List Value → List Value → Prop := List.Forall₂ E

/-- What the literal is about holds under the assignment. -/
def Literal.HoldsIn (I : Interpretation) (θ : Assignment) (l : Literal) : Prop :=
  I l.predicate (l.valuesIn θ)

/-- **A model of clauses.** A head whose values do not equal themselves need not be true. -/
structure IsModel (E : Value → Value → Prop) (clauses : List Clause) (I : Interpretation) : Prop where
  respects : ∀ p vs ws, SameValues E vs ws → I p vs → I p ws
  equality : ∀ v w, I equalsPredicate [v, w] ↔ E v w
  clause : ∀ c ∈ clauses, c.head.isEquality = false → ∀ θ, (∀ l ∈ c.body, l.HoldsIn I θ) →
    SameValues E (c.head.valuesIn θ) (c.head.valuesIn θ) → c.head.HoldsIn I θ

/-- **The least model of clauses.** -/
inductive LeastModel (E : Value → Value → Prop) (clauses : List Clause) : Interpretation
  | equality {v w : Value} (h : E v w) : LeastModel E clauses equalsPredicate [v, w]
  | clause {c : Clause} {vs : List Value} (hc : c ∈ clauses) (he : c.head.isEquality = false)
      (θ : Assignment) (hb : ∀ l ∈ c.body, LeastModel E clauses l.predicate (l.valuesIn θ))
      (hv : SameValues E (c.head.valuesIn θ) vs) : LeastModel E clauses c.head.predicate vs

theorem SameValues.symm (hE : Value.Equating E) {vs ws : List Value} (h : SameValues E vs ws) :
    SameValues E ws vs := h.flip.imp fun _ _ => hE.symm

theorem SameValues.trans (hE : Value.Equating E) {us vs ws : List Value} (h : SameValues E us vs)
    (h' : SameValues E vs ws) : SameValues E us ws := by
  induction h generalizing ws with
  | nil => exact h'
  | cons hv _ ih =>
    cases h' with
    | cons hw ht => exact .cons (hE.trans hv hw) (ih ht)

/-- Two lists of terms agree if their values do. -/
theorem sameValues_valuesIn {θ : Assignment} {l m : Literal} :
    SameValues E (l.valuesIn θ) (m.valuesIn θ) ↔ Term.AgreeIn E θ l.terms m.terms := by
  unfold Literal.valuesIn Term.AgreeIn SameValues
  rw [List.forall₂_map_left_iff, List.forall₂_map_right_iff]

namespace LeastModel

variable {clauses : List Clause} {p : String} {vs ws : List Value}

theorem respects (hE : Value.Equating E) (h : SameValues E vs ws) (hp : LeastModel E clauses p vs) :
    LeastModel E clauses p ws := by
  cases hp with
  | equality hvw =>
    -- the two lists are `[v, w]` and `[v', w']`
    cases h with
    | cons hv h =>
      cases h with
      | cons hw h =>
        cases h
        exact .equality (hE.trans (hE.symm hv) (hE.trans hvw hw))
  | clause hc he θ hb hv => exact .clause hc he θ hb (hv.trans hE h)

theorem equality_iff {v w : Value} : LeastModel E clauses equalsPredicate [v, w] ↔ E v w := by
  constructor
  · intro h
    generalize hp : equalsPredicate = p at h
    generalize hvs : [v, w] = vs at h
    cases h with
    | equality h => cases hvs; exact h
    | @clause c _ _ he θ _ hv =>
      -- the head would be the equality of two terms
      have hl := hv.length_eq
      rw [← hvs, Literal.valuesIn, List.length_map] at hl
      simp [Literal.isEquality, Literal.arity, ← hp, hl] at he
  · exact .equality

/-- **The least model is a model.** -/
theorem isModel (hE : Value.Equating E) (clauses : List Clause) :
    IsModel E clauses (LeastModel E clauses) where
  respects _ _ _ := respects hE
  equality _ _ := equality_iff
  clause _ hc he θ hb hv := .clause hc he θ hb hv

/-- **The least model is contained in every model.** -/
theorem least (hE : Value.Equating E) {I : Interpretation} (hI : IsModel E clauses I)
    (h : LeastModel E clauses p vs) : I p vs := by
  induction h with
  | equality h => exact (hI.equality _ _).2 h
  | clause hc he θ _ hv ih =>
    exact hI.respects _ _ _ hv (hI.clause _ hc he θ ih (hv.trans hE (hv.symm hE)))

end LeastModel

/-- The literal is true in the least model of the clauses under the assignment. -/
def Literal.TrueIn (E : Value → Value → Prop) (clauses : List Clause) (θ : Assignment) (l : Literal) :
    Prop := l.HoldsIn (LeastModel E clauses) θ

namespace Literal

variable {clauses : List Clause} {θ : Assignment} {l : Literal}

/-- The built-in equality is true if both sides have equal values. -/
theorem trueIn_equality {a b : Term} (he : l.isEquality = true) (ht : l.terms = [a, b]) :
    l.TrueIn E clauses θ ↔ E (a.valueIn θ) (b.valueIn θ) := by
  have hp : l.predicate = equalsPredicate := by
    simp only [isEquality, Bool.and_eq_true, beq_iff_eq] at he
    exact he.1
  rw [TrueIn, HoldsIn, hp, valuesIn, ht]
  exact LeastModel.equality_iff

theorem samePredicate_iff {m : Literal} :
    l.samePredicate m = true ↔ l.predicate = m.predicate ∧ l.terms.length = m.terms.length := by
  simp [samePredicate, arity]

theorem isEquality_congr {m : Literal} (h : l.samePredicate m = true) :
    l.isEquality = m.isEquality := by
  obtain ⟨hp, hl⟩ := samePredicate_iff.1 h
  rw [isEquality, isEquality, arity, arity, hp, hl]

/-- A literal that is no equality is true by a clause whose body is true and whose head agrees. -/
theorem trueIn_iff_clause (he : l.isEquality = false) :
    l.TrueIn E clauses θ ↔ ∃ c ∈ clauses, c.head.samePredicate l = true ∧
      ∃ η : Assignment, (∀ m ∈ c.body, m.TrueIn E clauses η) ∧
        SameValues E (c.head.valuesIn η) (l.valuesIn θ) := by
  constructor
  · intro h
    unfold TrueIn HoldsIn at h
    generalize hp : l.predicate = p at h
    generalize hvs : l.valuesIn θ = vs at h
    cases h with
    | @equality v w _ =>
      have hl : l.terms.length = 2 := by
        rw [← List.length_map (f := Term.valueIn θ), show l.terms.map _ = _ from hvs]
        rfl
      simp [isEquality, arity, hp, hl] at he
    | @clause c _ hc _ η hb hv =>
      refine ⟨c, hc, samePredicate_iff.2 ⟨hp.symm, ?_⟩, η, hb, hv⟩
      have hl := hv.length_eq
      rwa [← hvs, valuesIn, valuesIn, List.length_map, List.length_map] at hl
  · rintro ⟨c, hc, hp, η, hb, hv⟩
    rw [TrueIn, HoldsIn, ← (samePredicate_iff.1 hp).1]
    exact .clause hc (by rw [isEquality_congr hp, he]) η hb hv

/-! ### Renamed literals -/

theorem valuesIn_mapVars (f : String → String) (θ : Assignment) (l : Literal) :
    (l.mapVars f).valuesIn θ = l.valuesIn (θ ∘ f) := by
  rw [valuesIn, valuesIn, mapVars, List.map_map]
  refine List.map_congr_left fun a _ => ?_
  cases a <;> rfl

theorem trueIn_mapVars (f : String → String) :
    (l.mapVars f).TrueIn E clauses θ ↔ l.TrueIn E clauses (θ ∘ f) := by
  rw [TrueIn, HoldsIn, valuesIn_mapVars]
  rfl

end Literal

/-- No body of a clause denies anything. -/
def DenialFree (clauses : List Clause) : Prop := ∀ c ∈ clauses, ∀ l ∈ c.body, l.negated = false

instance (clauses : List Clause) : Decidable (DenialFree clauses) :=
  inferInstanceAs (Decidable (∀ c ∈ clauses, ∀ l ∈ c.body, l.negated = false))

/-- The goals after the use of a clause are not denied if the goals before it are not. -/
theorem DenialFree.body_append {clauses : List Clause} (h : DenialFree clauses) {c : Clause}
    (hc : c ∈ clauses) (n : Nat) {rest : List Literal} (hr : ∀ g ∈ rest, g.negated = false) :
    ∀ g ∈ (c.renamed n).body ++ rest, g.negated = false := by
  intro g hg
  rcases List.mem_append.1 hg with hg | hg
  · obtain ⟨m, hm, rfl⟩ := List.mem_map.1 hg
    exact h c hc m hm
  · exact hr g hg

end PassageLogic
