import Mathlib.Data.List.Forall2
import PassageLogic.Logic.Term

/-! # Readings of equality

Equality of values is not reflexive, since NaN does not equal itself; but a variable that is bound to NaN
has this very value. What is computed with values is therefore read in two ways: `Value.Equal` is the
equality of the program, and `Value.Alike` the least equivalence that contains it. They differ at NaN only.
`Value.Equating` is what they have in common, and what is proper in a reading has values that the reading
relates to themselves: in the first one these are the values other than NaN, in the second one all. Lists
are compared element by element (`beq_iff_forall₂`). -/

namespace PassageLogic

namespace Value

/-- The values are equal. -/
abbrev Equal (v w : Value) : Prop := (v == w) = true

/-- The values are equal, or one and the same. -/
def Alike (v w : Value) : Prop := v = w ∨ Equal v w

/-- **A reading of equality.** -/
structure Equating (E : Value → Value → Prop) : Prop where
  of_equal : ∀ {v w}, Equal v w → E v w
  symm : ∀ {v w}, E v w → E w v
  trans : ∀ {u v w}, E u v → E v w → E u w

variable {u v w v' w' : Value}

theorem equating_equal : Equating Equal where
  of_equal h := h
  symm h := BEq.symm h
  trans h h' := BEq.trans h h'

namespace Alike

theorem refl (v : Value) : Alike v v := .inl rfl

theorem symm (h : Alike v w) : Alike w v := h.imp Eq.symm BEq.symm

theorem trans (h : Alike u v) (h' : Alike v w) : Alike u w := by
  rcases h with rfl | h
  · exact h'
  · rcases h' with rfl | h'
    · exact .inr h
    · exact .inr (BEq.trans h h')

/-- No comparison tells alike values apart. -/
theorem beq_congr (hv : Alike v v') (hw : Alike w w') : (v == w) = (v' == w') := by
  rcases hv with rfl | hv
  · rcases hw with rfl | hw
    · rfl
    · exact BEq.congr_right hw
  · rcases hw with rfl | hw
    · exact BEq.congr_left hv
    · exact (BEq.congr_left hv).trans (BEq.congr_right hw)

end Alike

theorem equating_alike : Equating Alike where
  of_equal := .inr
  symm := Alike.symm
  trans := Alike.trans

/-- The value NaN. -/
def nan : Value := .float (.nan false)

/-- Nothing equals NaN. -/
theorem not_equal_nan (v : Value) : ¬ Equal v .nan := fun h =>
  absurd (BEq.trans (BEq.symm h) h) (by decide)

end Value

/-! ### Lists -/

section Lists
variable {α : Type} [BEq α] {as bs : List α}

theorem beq_iff_forall₂ : (as == bs) = true ↔ List.Forall₂ (fun a b => (a == b) = true) as bs := by
  induction as generalizing bs with
  | nil => cases bs <;> simp
  | cons a as ih =>
    cases bs with
    | nil => simp
    | cons b bs => rw [List.cons_beq_cons, Bool.and_eq_true, List.forall₂_cons, ih]

/-- A list equals itself if all its elements do. -/
theorem beq_self_iff_forall : (as == as) = true ↔ ∀ a ∈ as, (a == a) = true := by
  rw [beq_iff_forall₂, List.forall₂_same]

instance partialEquivBEqList [PartialEquivBEq α] : PartialEquivBEq (List α) where
  symm h := beq_iff_forall₂.2 ((beq_iff_forall₂.1 h).imp fun _ _ hab => BEq.symm hab).flip
  trans {as bs cs} h h' := by
    rw [beq_iff_forall₂] at h h' ⊢
    induction h generalizing cs with
    | nil => exact h'
    | cons hab _ ih =>
      cases h' with
      | cons hbc htail => exact .cons (BEq.trans hab hbc) (ih htail)

end Lists

/-! ### Terms, literals and clauses whose values are related to themselves -/

variable {E : Value → Value → Prop}

/-- The reading relates the value that the term is to itself. -/
def Term.Proper (E : Value → Value → Prop) (t : Term) : Prop := ∀ v, t = .const v → E v v

/-- All terms of the literal are proper. -/
def Literal.Proper (E : Value → Value → Prop) (l : Literal) : Prop := ∀ t ∈ l.terms, t.Proper E

/-- All terms of the clause are proper. -/
def Clause.Proper (E : Value → Value → Prop) (c : Clause) : Prop :=
  ∀ l ∈ c.head :: c.body, l.Proper E

theorem Term.proper_var (x : String) : (Term.var x).Proper E := fun _ h => by cases h

theorem Term.proper_const {v : Value} : (Term.const v).Proper E ↔ E v v := by
  constructor
  · exact fun h => h v rfl
  · rintro h _ ⟨⟩
    exact h

instance [∀ v w, Decidable (E v w)] (t : Term) : Decidable (t.Proper E) :=
  match t with
  | .var x => .isTrue (Term.proper_var x)
  | .const _ => decidable_of_iff _ Term.proper_const.symm

instance [∀ v w, Decidable (E v w)] (l : Literal) : Decidable (l.Proper E) :=
  inferInstanceAs (Decidable (∀ t ∈ l.terms, t.Proper E))

instance [∀ v w, Decidable (E v w)] (c : Clause) : Decidable (c.Proper E) :=
  inferInstanceAs (Decidable (∀ l ∈ c.head :: c.body, l.Proper E))

theorem Term.proper_mapVars {f : String → String} {t : Term} : (t.mapVars f).Proper E ↔ t.Proper E := by
  cases t with
  | var x => exact iff_of_true (proper_var _) (proper_var _)
  | const v => exact Iff.rfl

theorem Literal.proper_mapVars {f : String → String} {l : Literal} :
    (l.mapVars f).Proper E ↔ l.Proper E := by
  unfold Proper mapVars
  simp only [List.forall_mem_map, Term.proper_mapVars]

theorem Clause.proper_mapVars {f : String → String} {c : Clause} :
    (c.mapVars f).Proper E ↔ c.Proper E := by
  unfold Proper mapVars
  simp only [List.forall_mem_cons, List.forall_mem_map, Literal.proper_mapVars]

theorem Term.proper_alike (t : Term) : t.Proper Value.Alike := fun v _ => .refl v

theorem Literal.proper_alike (l : Literal) : l.Proper Value.Alike := fun t _ => t.proper_alike

theorem Clause.proper_alike (c : Clause) : c.Proper Value.Alike := fun l _ => l.proper_alike

end PassageLogic
