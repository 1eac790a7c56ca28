import PassageLogic.Logic.Store
import PassageLogic.Proofs.Logic.Readings
import Mathlib.Data.List.Basic

/-! # Clauses up to the names of their variables

To be a variant is symmetric and transitive (`isVariant_symm`, `isVariant_trans`); a clause is a variant of
itself unless it holds NaN (`isVariant_self_iff`). A store that was made by its own operations holds no
two variants (`Reachable.distinct`), so that a retraction takes away all that is equal to its clause:
`hasVariant_assert` and `hasVariant_retract` say what each operation does to the clauses that a store
has. -/

namespace PassageLogic

/-! ### Equality of terms, literals and clauses -/

instance : PartialEquivBEq Term where
  symm {a b} h := by
    cases a with
    | var x =>
      cases b with
      | var y => exact BEq.symm (α := String) h
      | const w => cases h
    | const v =>
      cases b with
      | var y => cases h
      | const w => exact BEq.symm (α := Value) h
  trans {a b c} h h' := by
    cases b with
    | var y =>
      cases a with
      | const v => cases h
      | var x =>
        cases c with
        | const w => cases h'
        | var z => exact BEq.trans (α := String) h h'
    | const w =>
      cases a with
      | var x => cases h
      | const v =>
        cases c with
        | var z => cases h'
        | const u => exact BEq.trans (α := Value) h h'

theorem Term.beq_self_iff {t : Term} : (t == t) = true ↔ t.Proper Value.Equal := by
  cases t with
  | var x => exact iff_of_true (beq_self_eq_true x) (proper_var x)
  | const v =>
    show Value.Equal v v ↔ _
    exact proper_const.symm

theorem Literal.beq_iff {l m : Literal} : (l == m) = true ↔
    l.predicate = m.predicate ∧ (l.terms == m.terms) = true ∧ l.negated = m.negated := by
  have h : (l == m) = (l.predicate == m.predicate && (l.terms == m.terms && l.negated == m.negated)) :=
    rfl
  rw [h, Bool.and_eq_true, Bool.and_eq_true, beq_iff_eq, beq_iff_eq (a := l.negated)]

theorem Literal.beq_self_iff {l : Literal} : (l == l) = true ↔ l.Proper Value.Equal := by
  simp only [beq_iff, beq_self_iff_forall, Term.beq_self_iff, true_and, and_true]
  exact Iff.rfl

instance : PartialEquivBEq Literal where
  symm h := by
    obtain ⟨hp, ht, hn⟩ := Literal.beq_iff.1 h
    exact Literal.beq_iff.2 ⟨hp.symm, BEq.symm ht, hn.symm⟩
  trans h h' := by
    obtain ⟨hp, ht, hn⟩ := Literal.beq_iff.1 h
    obtain ⟨hp', ht', hn'⟩ := Literal.beq_iff.1 h'
    exact Literal.beq_iff.2 ⟨hp.trans hp', BEq.trans ht ht', hn.trans hn'⟩

namespace Clause

variable {c d e : Clause}

theorem beq_iff : (c == d) = true ↔ (c.head == d.head) = true ∧ (c.body == d.body) = true := by
  have h : (c == d) = (c.head == d.head && c.body == d.body) := rfl
  rw [h, Bool.and_eq_true]

/-- A clause equals itself if none of its values is NaN. -/
theorem beq_self_iff : (c == c) = true ↔ c.Proper Value.Equal := by
  rw [beq_iff, beq_self_iff_forall, Literal.beq_self_iff, Proper, List.forall_mem_cons]
  simp only [Literal.beq_self_iff]

instance : PartialEquivBEq Clause where
  symm h := beq_iff.2 ⟨BEq.symm (beq_iff.1 h).1, BEq.symm (beq_iff.1 h).2⟩
  trans h h' := beq_iff.2
    ⟨BEq.trans (beq_iff.1 h).1 (beq_iff.1 h').1, BEq.trans (beq_iff.1 h).2 (beq_iff.1 h').2⟩

/-! ### Variants -/

/-- A clause is a variant of itself if none of its values is NaN. -/
theorem isVariant_self_iff : c.isVariant c = true ↔ c.Proper Value.Equal :=
  beq_self_iff.trans proper_mapVars

theorem isVariant_symm (h : c.isVariant d = true) : d.isVariant c = true :=
  BEq.symm (α := Clause) h

theorem isVariant_trans (h : c.isVariant d = true) (h' : d.isVariant e = true) :
    c.isVariant e = true := BEq.trans (α := Clause) h h'

theorem isVariant_comm (c d : Clause) : c.isVariant d = d.isVariant c :=
  Bool.eq_iff_iff.2 ⟨isVariant_symm, isVariant_symm⟩

/-- Variants are variants of the same clauses. -/
theorem isVariant_congr (h : c.isVariant d = true) (e : Clause) : e.isVariant c = e.isVariant d :=
  Bool.eq_iff_iff.2
    ⟨fun he => isVariant_trans he h, fun he => isVariant_trans he (isVariant_symm h)⟩

/-- What has a variant is a variant of itself. -/
theorem isVariant_self (h : d.isVariant c = true) : c.isVariant c = true :=
  isVariant_trans (isVariant_symm h) h

/-- A clause of a list is a variant of one of the list, if it is one of itself. -/
theorem any_isVariant_of_mem {cs : List Clause} (h : c ∈ cs) (hc : c.isVariant c = true) :
    (cs.any fun d => d.isVariant c) = true := List.any_eq_true.2 ⟨c, h, hc⟩

/-- Variants have the same predicate. -/
theorem predicate_of_isVariant (h : c.isVariant d = true) : c.head.predicate = d.head.predicate :=
  (Literal.beq_iff.1 (beq_iff.1 h).1).1

end Clause

namespace Store

variable {s : Store} {c d : Clause}

/-! ### The clauses that a store has -/

theorem hasVariant_iff : s.hasVariant c = true ↔ ∃ d ∈ s.clauses, d.isVariant c = true :=
  List.any_eq_true

theorem hasVariant_of_mem (h : c ∈ s.clauses) (hc : c.isVariant c = true) : s.hasVariant c = true :=
  Clause.any_isVariant_of_mem h hc

theorem hasVariant_congr (h : c.isVariant d = true) (s : Store) : s.hasVariant c = s.hasVariant d :=
  List.any_congr rfl fun e => Clause.isVariant_congr h e

theorem ext {s t : Store} (hl : s.limits = t.limits) (hc : s.clauses = t.clauses) : s = t := by
  cases s
  cases t
  cases hl
  cases hc
  rfl

/-- No two clauses of the store are variants of each other. -/
def Distinct (s : Store) : Prop := s.clauses.Pairwise fun c d => c.isVariant d = false

theorem assert_fst (hc : c.head.negated = false) (s : Store) : (s.assert c).1 = .ok () := by
  unfold Store.assert
  rw [hc, if_neg (by decide)]
  split_ifs <;> rfl

/-- **What an assertion adds.** -/
theorem hasVariant_assert (hc : c.head.negated = false) (s : Store) (d : Clause) :
    (s.assert c).2.hasVariant d = (s.hasVariant d || c.isVariant d) := by
  unfold Store.assert
  rw [hc, if_neg (by decide)]
  split_ifs with h
  · -- a variant of the clause is there, and it is a variant of `d` if the clause is
    cases hcd : c.isVariant d with
    | false => rw [Bool.or_false]
    | true => rw [Bool.or_true, ← hasVariant_congr hcd, h]
  · simp only [hasVariant, List.any_append, List.any_cons, List.any_nil, Bool.or_false]

theorem Distinct.assert (hs : s.Distinct) (c : Clause) : (s.assert c).2.Distinct := by
  unfold Store.assert
  split_ifs with hn h
  · exact hs
  · exact hs
  · refine List.pairwise_append.2 ⟨hs, List.pairwise_singleton _ _, fun d hd e he => ?_⟩
    rw [List.mem_singleton.1 he]
    exact Bool.eq_false_iff.2 fun hv => h (hasVariant_iff.2 ⟨d, hd, hv⟩)

theorem eraseP_eq_filter {α : Type} {p : α → Bool} {l : List α}
    (h : l.Pairwise fun a b => p a = true → p b = false) : l.eraseP p = l.filter fun a => !p a := by
  induction l with
  | nil => rfl
  | cons a l ih =>
    obtain ⟨ha, hl⟩ := List.pairwise_cons.1 h
    cases hp : p a with
    | false =>
      rw [List.eraseP_cons_of_neg (by simp [hp]), List.filter_cons_of_pos (by simp [hp]), ih hl]
    | true =>
      rw [List.eraseP_cons_of_pos hp, List.filter_cons_of_neg (by simp [hp])]
      exact (List.filter_eq_self.2 fun b hb => by rw [ha b hb hp]; rfl).symm

/-- **A retraction takes away every variant of its clause**, since there are no two. -/
theorem Distinct.clauses_retract (hs : s.Distinct) (c : Clause) :
    (s.retract c).2.clauses = s.clauses.filter fun d => !d.isVariant c := by
  refine eraseP_eq_filter (hs.imp fun {d e} hde hd => ?_)
  rw [← hde, Clause.isVariant_comm d e]
  exact Clause.isVariant_congr (Clause.isVariant_symm hd) e

theorem Distinct.retract (hs : s.Distinct) (c : Clause) : (s.retract c).2.Distinct := by
  unfold Distinct
  rw [hs.clauses_retract]
  exact hs.sublist List.filter_sublist

/-- **What a retraction takes away.** -/
theorem Distinct.hasVariant_retract (hs : s.Distinct) (c d : Clause) :
    (s.retract c).2.hasVariant d = (s.hasVariant d && !c.isVariant d) := by
  have hsame : ∀ e : Clause,
      (e.isVariant d && !e.isVariant c) = (e.isVariant d && !c.isVariant d) := by
    intro e
    cases hed : e.isVariant d with
    | false => rfl
    | true => rw [Clause.isVariant_comm e c, Clause.isVariant_congr hed]
  unfold hasVariant
  rw [hs.clauses_retract, List.any_filter]
  induction s.clauses with
  | nil => rfl
  | cons e cs ih =>
    rw [List.any_cons, List.any_cons, ih, Bool.and_comm, hsame, Bool.and_or_distrib_right]

/-- Clauses that are not variants of the retracted one stay, in their order. -/
theorem Distinct.sublist_retract (hs : s.Distinct) {kept : List Clause} (hk : kept.Sublist s.clauses)
    (h : ∀ k ∈ kept, c.isVariant k = false) : kept.Sublist (s.retract c).2.clauses := by
  rw [hs.clauses_retract]
  have hself : kept.filter (fun d => !d.isVariant c) = kept :=
    List.filter_eq_self.2 fun k hkm => by rw [Clause.isVariant_comm, h k hkm]; rfl
  exact hself ▸ hk.filter _

theorem sublist_assert (s : Store) (c : Clause) : s.clauses.Sublist (s.assert c).2.clauses := by
  unfold Store.assert
  split_ifs
  · exact .refl _
  · exact .refl _
  · exact List.sublist_append_left _ _

/-! ### Stores made by their own operations -/

/-- The store was made from an empty one by assertions and retractions. -/
inductive Reachable : Store → Prop where
  | empty (limits : Limits) : Reachable (.empty limits)
  | assert {s : Store} (h : Reachable s) (c : Clause) : Reachable (s.assert c).2
  | retract {s : Store} (h : Reachable s) (c : Clause) : Reachable (s.retract c).2

/-- **A store holds no two variants.** -/
theorem Reachable.distinct (h : s.Reachable) : s.Distinct := by
  induction h with
  | empty limits => exact .nil
  | assert h c ih => exact ih.assert c
  | retract h c ih => exact ih.retract c

end Store

end PassageLogic
