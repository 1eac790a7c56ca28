import PassageLogic.Proofs.Session.Performing
import PassageLogic.Proofs.Session.Reads

/-! # Tidy stores

A store is tidy if no two of its clauses are variants of each other, no head is denied, and no rule of a
conjunction is left in it. All that a session does through its texts keeps a store tidy, however it
ends: the clauses of a text are no rules of conjunctions, since no statement has such a predicate;
directives assert facts; and the rule of a conjunction is removed by the retraction that follows
(`Tidy.withdraw`). Only a clause that is asserted directly can be such a rule. -/

namespace PassageLogic

/-- The clause is a rule for the predicate of the `n`-th transient rule. -/
def Clause.IsTransient (n : Nat) (c : Clause) : Prop :=
  c.body ≠ [] ∧ ∃ visible, c.head.predicate = (Act.transientHead n visible).predicate

theorem Clause.not_isTransient_fact (head : Literal) (n : Nat) : ¬ (Clause.fact head).IsTransient n :=
  fun h => h.1 rfl

theorem Clause.not_isTransient_of_no_underscore {c : Clause} (h : '_' ∉ c.head.predicate.toList)
    (n : Nat) : ¬ c.IsTransient n :=
  fun ⟨_, visible, he⟩ => ne_transientHead h n visible he

/-! ### Stores -/

/-- No two clauses are variants, no head is denied, and no clause is a transient rule with such a
number. -/
structure Store.Tidy (p : Nat → Prop) (s : Store) : Prop where
  distinct : s.Distinct
  positive : ∀ c ∈ s.clauses, c.head.negated = false
  lasting : ∀ c ∈ s.clauses, ∀ n, p n → ¬ c.IsTransient n

namespace Store.Tidy

variable {p : Nat → Prop} {s t : Store}

theorem empty (limits : Limits) : (Store.empty limits).Tidy p :=
  ⟨.nil, by simp [Store.empty], by simp [Store.empty]⟩

/-- To take clauses away keeps a store tidy. -/
theorem of_sublist (h : s.Tidy p) (ht : t.clauses.Sublist s.clauses) : t.Tidy p :=
  ⟨h.distinct.sublist ht, fun c hc => h.positive c (ht.subset hc),
    fun c hc => h.lasting c (ht.subset hc)⟩

theorem retract (h : s.Tidy p) (c : Clause) : (s.retract c).2.Tidy p :=
  h.of_sublist List.eraseP_sublist

theorem assert (h : s.Tidy p) {c : Clause} (hc : ∀ n, p n → ¬ c.IsTransient n) :
    (s.assert c).2.Tidy p := by
  refine ⟨h.distinct.assert c, ?_, ?_⟩ <;> unfold Store.assert <;> split_ifs with hn hv
  · exact h.positive
  · exact h.positive
  · exact List.forall_mem_append.2 ⟨h.positive, List.forall_mem_singleton.2 (by simpa using hn)⟩
  · exact h.lasting
  · exact h.lasting
  · exact List.forall_mem_append.2 ⟨h.lasting, List.forall_mem_singleton.2 hc⟩

/-- **What is asserted and retracted at once leaves no trace but that it is gone.** -/
theorem withdraw (h : s.Tidy p) {c : Clause} (hc : c.Proper Value.Equal) :
    ((s.assert c).2.retract c).2.Tidy p := by
  refine h.of_sublist ?_
  rw [(h.distinct.assert c).clauses_retract]
  unfold Store.assert
  split_ifs
  · exact List.filter_sublist
  · exact List.filter_sublist
  · rw [List.filter_append, List.filter_singleton, Clause.isVariant_self_iff.2 hc]
    simp

theorem assertAll (h : s.Tidy p) {cs : List Clause} (hcs : ∀ c ∈ cs, ∀ n, p n → ¬ c.IsTransient n) :
    (s.assertAll cs).Tidy p := by
  induction cs generalizing s with
  | nil => exact h
  | cons c cs ih =>
    obtain ⟨hc, hcs⟩ := List.forall_mem_cons.1 hcs
    exact ih (h.assert hc) hcs

theorem retractAll (h : s.Tidy p) (cs : List Clause) : (s.retractAll cs).Tidy p := by
  induction cs generalizing s with
  | nil => exact h
  | cons c cs ih => exact ih (h.retract c)

/-- A directive asserts or retracts a fact. -/
theorem change (h : s.Tidy p) (d : Directive) : (d.change s).Tidy p := by
  unfold Directive.change
  split
  · exact h.assert fun n _ => Clause.not_isTransient_fact _ n
  · exact h.retract _
  · exact h

theorem changeAll (h : s.Tidy p) (ds : List Directive) : (Directive.changeAll ds s).Tidy p := by
  induction ds generalizing s with
  | nil => exact h
  | cons d ds ih => exact ih (h.change d)

end Store.Tidy

/-! ### Clauses of texts -/

theorem Line.predicate_of_mem_clauses {l : Line} {n : Nat} {c : Clause} (h : c ∈ (l.clauses n).1) :
    ∃ st ∈ l.statements, c.head.predicate = st.predicate := by
  cases l with
  | claim st =>
    rw [List.mem_singleton.1 h]
    exact ⟨st, List.mem_singleton_self st, rfl⟩
  | rule head body =>
    rw [List.mem_singleton.1 h]
    exact ⟨head, List.mem_cons_self, rfl⟩
  | conjunction sts =>
    obtain ⟨l, hl, rfl⟩ := List.mem_map.1 h
    exact predicate_of_mem_literals hl

namespace Act

variable {p : Nat → Prop} {α β : Type}

/-- No predicate of a clause of a text has an underscore. -/
theorem no_underscore_of_clausesOf {σ : Type} {text : String} {S : Session σ} {cs : List Clause}
    (h : ((clausesOf text).runIn S).1 = .ok cs) : ∀ c ∈ cs, '_' ∉ c.head.predicate.toList := by
  rw [runIn_clausesOf] at h
  split at h
  · cases h
  · rename_i l hread
    split_ifs at h
    cases h
    intro c hc
    obtain ⟨st, hst, hpred⟩ := Line.predicate_of_mem_clauses hc
    have hplain : '_' ∉ st.predicate.toList :=
      (Statement.FromText.grammatical ⟨text, l, hread, hst⟩).no_underscore
    exact hpred ▸ hplain

/-- No clause of a text is a transient rule. -/
theorem not_isTransient_of_clausesOf {text : String} {S : Session Store} {cs : List Clause}
    (h : ((clausesOf text).runIn S).1 = .ok cs) : ∀ c ∈ cs, ∀ n, ¬ c.IsTransient n :=
  fun c hc n => Clause.not_isTransient_of_no_underscore (no_underscore_of_clausesOf h c hc) n

/-! ### Steps -/

/-- The step keeps a tidy store tidy, however it ends. -/
def Tidies (p : Nat → Prop) (x : Act Store α) : Prop :=
  ∀ S : Session Store, S.engine.Tidy p → (x.runIn S).2.engine.Tidy p

theorem tidies_of_engine_eq {x : Act Store α} (h : ∀ S, (x.runIn S).2.engine = S.engine) :
    Tidies p x := fun S hS => (h S).symm ▸ hS

theorem tidies_pure (a : α) : Tidies p (pure a) := tidies_of_engine_eq fun _ => rfl

theorem tidies_throw (f : Failure) : Tidies p (throw f : Act Store α) :=
  tidies_of_engine_eq fun _ => rfl

theorem tidies_ofExcept (r : Except Failure α) : Tidies p (ofExcept r) :=
  tidies_of_engine_eq fun _ => rfl

theorem Tidies.outcome {x : Act Store α} (hx : Tidies p x) : Tidies p (outcome x) := hx

/-- **Steps that keep stores tidy one after the other keep them tidy together.** -/
theorem Tidies.bind {x : Act Store α} {f : α → Act Store β} (hx : Tidies p x)
    (hf : ∀ a, Tidies p (f a)) : Tidies p (x >>= f) := by
  intro S hS
  have hU := hx S hS
  rw [runIn_bind]
  cases h : x.runIn S with
  | mk r U =>
    rw [h] at hU
    cases r with
    | error e => exact hU
    | ok a => exact hf a U hU

theorem tidies_assertAll {cs : List Clause} (hpos : ∀ c ∈ cs, c.head.negated = false)
    (hcs : ∀ c ∈ cs, ∀ n, p n → ¬ c.IsTransient n) : Tidies p (assertAll Store.engine cs) := by
  intro S hS
  rw [runIn_assertAll hpos]
  exact hS.assertAll hcs

theorem tidies_retractAll (cs : List Clause) : Tidies p (retractAll Store.engine cs) := by
  intro S hS
  rw [runIn_retractAll]
  exact hS.retractAll cs

/-- What is done with the clauses of a text may rely on what they are. -/
theorem tidies_clausesOf_bind {text : String} {f : List Clause → Act Store β}
    (hf : ∀ cs, (∀ c ∈ cs, c.head.negated = false) → (∀ c ∈ cs, ∀ n, p n → ¬ c.IsTransient n) →
      Tidies p (f cs)) : Tidies p (clausesOf text >>= f) := by
  intro S hS
  have hengine := engine_clausesOf text S
  rw [runIn_bind]
  cases h : (clausesOf text).runIn S with
  | mk r U =>
    rw [h] at hengine
    cases r with
    | error e => exact hengine.symm ▸ hS
    | ok cs =>
      have hr : ((clausesOf text).runIn S).1 = .ok cs := by rw [h]
      exact hf cs (negated_of_clausesOf hr) (fun c hc n _ => not_isTransient_of_clausesOf hr c hc n) U
        (hengine.symm ▸ hS)

theorem tidies_assertText (text : String) : Tidies p (assertText Store.engine text) :=
  tidies_clausesOf_bind fun _ hpos hcs => (tidies_assertAll hpos hcs).bind fun _ => tidies_ofExcept _

theorem tidies_retractText (text : String) : Tidies p (retractText Store.engine text) :=
  tidies_clausesOf_bind fun cs _ _ => (tidies_retractAll cs).bind fun _ => tidies_ofExcept _

theorem tidies_askLine (l : Line) (limit : Option Nat) : Tidies p (askLine Store.engine l limit) := by
  intro S hS
  cases l with
  | claim st =>
    rw [runIn_askLine_claim]
    exact hS
  | conjunction sts =>
    rw [askLine, runIn_askAll]
    exact hS.withdraw (proper_conjunctionRule _ _ _)
  | rule head body => exact hS

theorem tidies_ask (text : String) (limit : Option Nat) : Tidies p (ask Store.engine text limit) :=
  (tidies_ofExcept _).bind fun l => tidies_askLine l limit

theorem tidies_drain (l : Line) : Tidies p (drain Store.engine l) :=
  (tidies_askLine l none).bind fun _ => tidies_pure _

theorem tidies_directives : Tidies p (directives Store.engine) :=
  tidies_of_engine_eq fun S => by rw [runIn_directives]

theorem tidies_dispatchNew (before : List Directive) : Tidies p (dispatchNew Store.engine before) := by
  intro S hS
  rw [runIn_dispatchNew]
  cases S.engine.directives with
  | error f => exact hS
  | ok after => exact hS.changeAll _

theorem tidies_perform (text : String) : Tidies p (perform Store.engine text) := by
  refine tidies_clausesOf_bind fun action hpos haction => ?_
  refine tidies_directives.bind fun before => (tidies_assertAll hpos haction).bind fun asserted => ?_
  have hclose : ∀ result, Tidies p (do
      orFail text (← retractAll Store.engine action)
      ofExcept result : Act Store (List Directive)) := fun _ =>
    (tidies_retractAll action).bind fun _ => (tidies_ofExcept _).bind fun _ => tidies_ofExcept _
  cases asserted with
  | ok => exact (tidies_dispatchNew before).outcome.bind hclose
  | error fault => exact (tidies_pure _).bind hclose

end Act
end PassageLogic
