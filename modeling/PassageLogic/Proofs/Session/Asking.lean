import PassageLogic.Proofs.Session.Gathering
import PassageLogic.Proofs.Logic.Relevance
import PassageLogic.Proofs.Logic.Streams
import PassageLogic.Proofs.Logic.Variants

/-! # What asking does

* `gather_eq_ok`: the answers to a query are the distinct records of its stream, in order; a fault
  anywhere in the stream is a failure.
* `Statement.proper_literal`, `proper_conjunctionRule`: what is stored for statements holds texts only, so
  that it is a variant of itself and can be retracted.
* `askAll_eq_ok`: a conjunction is answered by the stream of its transient rule, asked while the rule
  is stored. -/

namespace PassageLogic

/-! ### Runs of steps -/

namespace Act

variable {σ α β : Type}

theorem runIn_bind (x : Act σ α) (f : α → Act σ β) (s : Session σ) :
    (x >>= f).runIn s = match x.runIn s with
      | (.ok a, t) => (f a).runIn t
      | (.error e, t) => (.error e, t) := by
  show (match x s with | (r, t) => ExceptT.bindCont f r t) = _
  unfold runIn
  rcases x s with ⟨_ | a, t⟩ <;> rfl

theorem runIn_bind_eq_ok {x : Act σ α} {f : α → Act σ β} {s t : Session σ} {b : β} :
    (x >>= f).runIn s = (.ok b, t) ↔ ∃ a u, x.runIn s = (.ok a, u) ∧ (f a).runIn u = (.ok b, t) := by
  rw [runIn_bind]
  rcases x.runIn s with ⟨_ | a, u⟩
  · simp
  · simp only [Prod.mk.injEq, Except.ok.injEq]
    constructor
    · exact fun h => ⟨a, u, ⟨rfl, rfl⟩, h⟩
    · rintro ⟨_, _, ⟨rfl, rfl⟩, h⟩
      exact h

theorem runIn_pure (a : α) (s : Session σ) : (pure a : Act σ α).runIn s = (.ok a, s) := rfl

theorem runIn_ofRun (f : Session σ → Except Failure α × Session σ) (s : Session σ) :
    (ofRun f).runIn s = f s := rfl

theorem runIn_ofExcept (r : Except Failure α) (s : Session σ) :
    (Act.ofExcept r).runIn s = (r, s) := rfl

theorem runIn_orFail (query : String) (r : Except Fault α) (s : Session σ) :
    (orFail query r).runIn s = (r.mapError fun fault => Failure.ofFault fault query, s) := rfl

theorem runIn_call (f : σ → Except Fault α × σ) (s : Session σ) :
    (call f).runIn s = (.ok (f s.engine).1, { s with engine := (f s.engine).2 }) := rfl

theorem runIn_outcome (x : Act σ α) (s : Session σ) :
    (outcome x).runIn s = (.ok (x.runIn s).1, (x.runIn s).2) := rfl

theorem runIn_numbering (f : Nat → α × Nat) (s : Session σ) : (numbering f).runIn s =
    (.ok (f s.anonymous).1, { s with anonymous := (f s.anonymous).2 }) := rfl

theorem runIn_collect (l : Literal) (visible : List String) (limit : Option Nat) (query : String)
    (s : Session Store) : (collect Store.engine l visible limit query).runIn s =
      ((gather visible limit [] (s.engine.answers l)).mapError
        fun fault => Failure.ofFault fault query, s) := rfl

end Act

theorem mapError_eq_ok {ε δ α : Type} {f : ε → δ} {r : Except ε α} {a : α}
    (h : r.mapError f = .ok a) : r = .ok a := by
  cases r with
  | error e => cases h
  | ok b =>
    cases h
    rfl

/-! ### Gathering -/

/-- The answers to a literal, if there is no failure. -/
theorem gather_answers {store : Store} {q : Literal} {visible : List String} {L : List Record}
    (h : gather visible none [] (store.answers q) = .ok L) :
    ¬ store.Fails q ∧ L = ((store.records q).map fun r => r.keep visible.contains).eraseDups := by
  obtain ⟨hno, hL⟩ := gather_eq_ok h
  refine ⟨fun ⟨fault, hf⟩ => hno fault hf, ?_⟩
  rw [hL, Store.records]
  congr 1
  rw [List.filter_eq_self]
  simp

/-! ### The constants of statements -/

theorem Token.proper_terms (ts : List Token) (n : Nat) :
    ∀ t ∈ (Token.terms ts n).1, t.Proper Value.Equal := by
  induction ts generalizing n with
  | nil => exact fun t ht => absurd ht List.not_mem_nil
  | cons token ts ih =>
    cases token with
    | const value =>
      exact List.forall_mem_cons.2 ⟨Term.proper_const.2 (beq_self_eq_true value), ih n⟩
    | var name =>
      unfold Token.terms
      split_ifs
      · exact List.forall_mem_cons.2 ⟨Term.proper_var _, ih (n + 1)⟩
      · exact List.forall_mem_cons.2 ⟨Term.proper_var _, ih n⟩

/-- The constants of a statement are texts. -/
theorem Statement.proper_literal (st : Statement) (n : Nat) :
    (st.literal n).1.Proper Value.Equal := Token.proper_terms st.tokens n

theorem Statement.proper_literals (sts : List Statement) (n : Nat) :
    ∀ l ∈ (Statement.literals sts n).1, l.Proper Value.Equal := by
  induction sts generalizing n with
  | nil => exact fun l hl => absurd hl List.not_mem_nil
  | cons st sts ih => exact List.forall_mem_cons.2 ⟨st.proper_literal n, ih _⟩

theorem Clause.proper_fact {E : Value → Value → Prop} {l : Literal} (h : l.Proper E) :
    (Clause.fact l).Proper E := List.forall_mem_cons.2 ⟨h, fun _ hm => absurd hm List.not_mem_nil⟩

theorem Line.proper_clauses (l : Line) (n : Nat) : ∀ c ∈ (l.clauses n).1, c.Proper Value.Equal := by
  intro c hc
  cases l with
  | claim st =>
    rw [List.mem_singleton.1 hc]
    exact Clause.proper_fact (st.proper_literal n)
  | rule head body =>
    rw [List.mem_singleton.1 hc]
    exact List.forall_mem_cons.2 ⟨head.proper_literal _, Statement.proper_literals body n⟩
  | conjunction sts =>
    obtain ⟨l, hl, rfl⟩ := List.mem_map.1 hc
    exact Clause.proper_fact (Statement.proper_literals sts n l hl)

/-! ### Asking -/

/-- The transient rule of a conjunction. -/
def conjunctionRule (sts : List Statement) (n k : Nat) : Clause :=
  ⟨Act.transientHead n (Act.visibleNames sts), (Statement.literals sts k).1⟩

theorem proper_conjunctionRule (sts : List Statement) (n k : Nat) :
    (conjunctionRule sts n k).Proper Value.Equal := by
  refine List.forall_mem_cons.2 ⟨fun t ht => ?_, Statement.proper_literals sts k⟩
  obtain ⟨x, -, rfl⟩ := List.mem_map.1 ht
  exact Term.proper_var x

/-- The store with one more clause. -/
def Store.withClause (store : Store) (c : Clause) : Store :=
  { store with clauses := store.clauses ++ [c] }

/-- A clause of a new predicate is no variant of a stored one. -/
theorem Unmentioned.isVariant_eq_false {clauses : List Clause} {c : Clause}
    (h : Unmentioned c.head.predicate clauses) : ∀ d ∈ clauses, d.isVariant c = false := fun d hd =>
  Bool.eq_false_iff.2 fun hv => (h d hd).1 (Clause.predicate_of_isVariant hv)

theorem Store.assert_unmentioned {store : Store} {c : Clause} (hn : c.head.negated = false)
    (h : Unmentioned c.head.predicate store.clauses) :
    store.assert c = (.ok (), store.withClause c) := by
  have hv : store.hasVariant c = false :=
    List.any_eq_false.2 fun d hd => Bool.eq_false_iff.1 (h.isVariant_eq_false d hd)
  unfold Store.assert
  rw [hn, hv]
  rfl

/-- The first variant is taken away, and nothing else. -/
theorem Store.eraseVariant_middle {c : Clause} (hc : c.Proper Value.Equal) {before : List Clause}
    (h : ∀ d ∈ before, d.isVariant c = false) (after : List Clause) :
    Store.eraseVariant c (before ++ c :: after) = before ++ after := by
  unfold Store.eraseVariant
  rw [List.eraseP_append_right (c :: after) fun d hd => Bool.eq_false_iff.1 (h d hd)]
  exact congrArg (before ++ ·) (List.eraseP_cons_of_pos (Clause.isVariant_self_iff.2 hc))

/-- **A clause of a new predicate comes and goes without a trace.** -/
theorem Store.retract_withClause {store : Store} {c : Clause} (hc : c.Proper Value.Equal)
    (h : Unmentioned c.head.predicate store.clauses) :
    ((store.withClause c).retract c).2 = store :=
  Store.ext rfl ((Store.eraseVariant_middle hc h.isVariant_eq_false []).trans (List.append_nil _))

namespace Act

/-- What asking a claim does. -/
theorem runIn_askLine_claim (st : Statement) (limit : Option Nat) (S : Session Store) :
    (askLine Store.engine (.claim st) limit).runIn S =
      ((gather st.vars limit [] (S.engine.answers (st.literal S.anonymous).1)).mapError
        fun fault => Failure.ofFault fault st.display,
        { S with anonymous := (st.literal S.anonymous).2 }) := by
  unfold askLine
  simp only [runIn_bind, runIn_numbering, runIn_collect]

/-- **What asking a conjunction does**: its rule comes, is asked for its head and goes. -/
theorem runIn_askAll (sts : List Statement) (limit : Option Nat) (S : Session Store) :
    (askAll Store.engine sts limit).runIn S =
      let rule := conjunctionRule sts S.transient S.anonymous
      let stored := (S.engine.assert rule).2
      ((gather (visibleNames sts) limit [] (stored.answers rule.head)).mapError
        fun fault => Failure.ofFault fault (Line.displayAll sts),
        ⟨(stored.retract rule).2, (Statement.literals sts S.anonymous).2, S.transient + 1⟩) := by
  have hstored : (S.engine.assert (conjunctionRule sts S.transient S.anonymous)).1 = .ok () :=
    Store.assert_fst rfl _
  unfold askAll
  unfold conjunctionRule at hstored ⊢
  simp only [runIn_bind, newTransient, runIn_ofRun, runIn_numbering, runIn_call, runIn_orFail,
    runIn_outcome, runIn_ofExcept, runIn_pure, runIn_collect]
  simp only [Store.engine, hstored, Except.mapError]
  cases gather (visibleNames sts) limit [] _ <;> rfl

end Act

theorem askLine_claim_eq_ok {s : Session Store} {st : Statement} {L : List Record}
    (h : ((Act.askLine Store.engine (.claim st) none).runIn s).1 = .ok L) :
    gather st.vars none [] (s.engine.answers (st.literal s.anonymous).1) = .ok L := by
  rw [Act.runIn_askLine_claim] at h
  exact mapError_eq_ok h

/-- **A conjunction is answered by the stream of its transient rule.** -/
theorem askAll_eq_ok {s : Session Store} {sts : List Statement} {L : List Record}
    (hfresh : Unmentioned (conjunctionRule sts s.transient s.anonymous).head.predicate
      s.engine.clauses)
    (h : ((Act.askLine Store.engine (.conjunction sts) none).runIn s).1 = .ok L) :
    gather (Act.visibleNames sts) none []
      ((s.engine.withClause (conjunctionRule sts s.transient s.anonymous)).answers
        (conjunctionRule sts s.transient s.anonymous).head) = .ok L := by
  rw [Act.askLine, Act.runIn_askAll] at h
  have hanswers := mapError_eq_ok h
  rw [Store.assert_unmentioned rfl hfresh] at hanswers
  exact hanswers

end PassageLogic
