import PassageLogic.Proofs.Session.Events
import PassageLogic.Proofs.Session.Tidy

/-! # Transient rules among the calls

A transient rule is asserted, its head is queried, and it is retracted, and no call comes in between; if
the assertion fails, neither of the others follows. `Bracketed p log` says so of all clauses with `p`
whose assertions are in the list. It is read off a list that is a series of such groups and of calls
that have nothing to do with transient rules (`Segmented`), and the steps of a session write such lists
over any engine. To ask a line is one group of the rule of its conjunction (`Inquired`). -/

namespace PassageLogic

/-- The predicate begins like the names of transient rules. -/
def Transient.Begins (predicate : String) : Prop := stem.toList <+: predicate.toList

/-- The clause is a rule whose predicate begins like the names of transient rules. -/
def Clause.IsTransientRule (c : Clause) : Prop := c.body ≠ [] ∧ Transient.Begins c.head.predicate

theorem Transient.not_begins_of_no_underscore {predicate : String} (h : '_' ∉ predicate.toList) :
    ¬ Begins predicate :=
  fun hb => h (hb.subset (by decide))

/-- The call queries the head of the clause or retracts the clause. -/
def Event.Concerns (c : Clause) : Event → Prop
  | .assert _ _ => False
  | .retract d _ => d = c
  | .query l _ => l = c.head

/-- No call concerns the clause before one with this head is asserted again. -/
def Settled (c : Clause) (log : List Event) : Prop :=
  ∀ before event after, log = before ++ event :: after → event.Concerns c →
    ∃ d result, .assert d result ∈ before ∧ d.head = c.head

/-- What follows an assertion: the query of the head, the retraction, and then no call that concerns the
clause; if the assertion failed, no such call at all. -/
def Followed (c : Clause) : Except Fault Unit → List Event → Prop
  | .ok (), after => ∃ answers removed rest,
    after = .query c.head answers :: .retract c removed :: rest ∧ Settled c rest
  | .error _, after => Settled c after

/-- Every assertion of such a clause is followed by its query and its retraction at once, or has failed. -/
def Bracketed (p : Clause → Prop) (log : List Event) : Prop :=
  ∀ before c result after, log = before ++ .assert c result :: after → p c → Followed c result after

/-! ### Lists of groups of calls -/

/-- The call has nothing to do with transient rules. -/
def Event.IsPlain : Event → Prop
  | .assert c _ => ¬ c.IsTransientRule
  | .retract c _ => ¬ c.IsTransientRule
  | .query l _ => ¬ Transient.Begins l.predicate

/-- Plain calls, failed assertions, and assertions that are followed by the query and the retraction. -/
inductive Segmented : List Event → Prop
  | nil : Segmented []
  | plain {event log} (h : event.IsPlain) (hlog : Segmented log) : Segmented (event :: log)
  | refused {c fault log} (hlog : Segmented log) : Segmented (.assert c (.error fault) :: log)
  | asked {c answers removed log} (hlog : Segmented log) :
      Segmented (.assert c (.ok ()) :: .query c.head answers :: .retract c removed :: log)

theorem Segmented.of_plain {event : Event} (h : event.IsPlain) : Segmented [event] := .plain h .nil

theorem composes_segmented : Composes Segmented where
  nil := .nil
  append h h' := by
    induction h with
    | nil => exact h'
    | plain hevent _ ih => exact .plain hevent ih
    | refused _ ih => exact .refused ih
    | asked _ ih => exact .asked ih

section Settled
variable {c : Clause} {event : Event} {log : List Event}

theorem settled_nil (c : Clause) : Settled c [] := by
  intro before event after h
  simp at h

theorem Settled.cons (h : Settled c log) (hevent : ¬ event.Concerns c) : Settled c (event :: log) := by
  intro before event' after heq hc
  rcases List.cons_eq_append_iff.1 heq with ⟨rfl, heq⟩ | ⟨before, rfl, rfl⟩
  · obtain ⟨rfl, -⟩ := List.cons.inj heq
    exact absurd hc hevent
  · obtain ⟨d, result, hmem, hd⟩ := h before event' after rfl hc
    exact ⟨d, result, List.mem_cons_of_mem _ hmem, hd⟩

/-- Nothing is said about what comes after an assertion of a clause with this head. -/
theorem settled_assert {d : Clause} {result : Except Fault Unit} (hd : d.head = c.head)
    (log : List Event) : Settled c (.assert d result :: log) := by
  intro before event after heq hc
  rcases List.cons_eq_append_iff.1 heq with ⟨rfl, heq⟩ | ⟨before, rfl, rfl⟩
  · obtain ⟨rfl, -⟩ := List.cons.inj heq
    exact hc.elim
  · exact ⟨d, result, List.mem_cons_self, hd⟩

theorem Event.IsPlain.not_concerns (h : event.IsPlain) (hc : c.IsTransientRule) :
    ¬ event.Concerns c := by
  cases event with
  | assert d r => exact id
  | retract d r => rintro rfl; exact h hc
  | query l r => rintro rfl; exact h hc.2

theorem Segmented.settled (h : Segmented log) (hc : c.IsTransientRule) : Settled c log := by
  induction h with
  | nil => exact settled_nil c
  | plain hevent _ ih => exact ih.cons (hevent.not_concerns hc)
  | refused _ ih => exact ih.cons id
  | @asked d answers removed log _ ih =>
    by_cases hd : d.head = c.head
    · exact settled_assert hd _
    · have hretract : ¬ (Event.retract d removed).Concerns c := fun h => hd (congrArg _ h)
      have hquery : ¬ (Event.query d.head answers).Concerns c := hd
      exact ((ih.cons hretract).cons hquery).cons id

theorem bracketed_nil (p : Clause → Prop) : Bracketed p [] := by
  intro before c result after h
  simp at h

theorem Bracketed.cons {p : Clause → Prop} (h : Bracketed p log)
    (hevent : ∀ c result, event = .assert c result → p c → Followed c result log) :
    Bracketed p (event :: log) := by
  intro before c result after heq hc
  rcases List.cons_eq_append_iff.1 heq with ⟨rfl, heq⟩ | ⟨before, rfl, rfl⟩
  · obtain ⟨rfl, rfl⟩ := List.cons.inj heq
    exact hevent c result rfl hc
  · exact h before c result after rfl hc

/-- A group is in order if no later call concerns its clause before it is asserted again. -/
theorem Bracketed.asked {p : Clause → Prop} (h : Bracketed p log) (hlog : p c → Settled c log)
    (answers : Except Fault (List Item)) (removed : Except Fault Bool) :
    Bracketed p (.assert c (.ok ()) :: .query c.head answers :: .retract c removed :: log) := by
  have hretract : Bracketed p (.retract c removed :: log) := h.cons (by simp)
  have hquery : Bracketed p (.query c.head answers :: .retract c removed :: log) :=
    hretract.cons (by simp)
  refine hquery.cons fun d result heq hd => ?_
  cases heq
  exact ⟨answers, removed, log, rfl, hlog hd⟩

theorem Bracketed.refused {p : Clause → Prop} (h : Bracketed p log) (hlog : p c → Settled c log)
    (fault : Fault) : Bracketed p (.assert c (.error fault) :: log) := by
  refine h.cons fun d result heq hd => ?_
  cases heq
  exact hlog hd

/-- **In a list of groups, every transient rule that is asserted is queried and retracted at once.** -/
theorem Segmented.bracketed (h : Segmented log) : Bracketed Clause.IsTransientRule log := by
  induction h with
  | nil => exact bracketed_nil _
  | plain hevent hlog ih =>
    refine ih.cons fun c result heq hc => ?_
    subst heq
    exact absurd hc hevent
  | refused hlog ih => exact ih.refused (fun hc => hlog.settled hc) _
  | asked hlog ih => exact ih.asked (fun hc => hlog.settled hc) _ _

end Settled

/-! ### Asking -/

/-- The calls of asking a line: of a claim its query, of a conjunction the group of its rule, and none of
a rule. -/
inductive Inquired : Line → List Event → Prop
  | claim {st l answers} (hl : l.predicate = st.predicate) : Inquired (.claim st) [.query l answers]
  | refused {sts n k fault} :
      Inquired (.conjunction sts) [.assert (conjunctionRule sts n k) (.error fault)]
  | asked {sts n k answers removed} : Inquired (.conjunction sts)
      [.assert (conjunctionRule sts n k) (.ok ()), .query (conjunctionRule sts n k).head answers,
        .retract (conjunctionRule sts n k) removed]
  | rule {head body} : Inquired (.rule head body) []

namespace Inquired

variable {l : Line} {log : List Event}

theorem bracketed (h : Inquired l log) : Bracketed (fun _ => True) log := by
  have hnil := bracketed_nil fun _ => True
  cases h with
  | claim => exact hnil.cons (by simp)
  | refused => exact hnil.refused (fun _ => settled_nil _) _
  | asked => exact hnil.asked (fun _ => settled_nil _) _ _
  | rule => exact hnil

theorem segmented (h : Inquired l log) (hl : ∀ st, l = .claim st → ¬ Transient.Begins st.predicate) :
    Segmented log := by
  cases h with
  | claim hpred => exact .of_plain fun hb => hl _ rfl (hpred ▸ hb)
  | refused => exact .refused .nil
  | asked => exact .asked .nil
  | rule => exact .nil

end Inquired

namespace Act

variable {σ α β : Type} (e : Engine σ)

/-- **The calls of asking a conjunction are one group.** -/
theorem writes_askAll (sts : List Statement) (limit : Option Nat) :
    Writes (fun _ log => Inquired (.conjunction sts) log) (askAll e.traced sts limit) := by
  refine Writes.after (p := fun _ => True)
    (writes_of_silent (fun _ => rfl) fun _ => ⟨⟨_, rfl, trivial⟩, rfl⟩) fun n _ => ?_
  refine Writes.after (p := fun body => ∃ k, body = (Statement.literals sts k).1)
    (writes_numbering fun k => ⟨⟨_, rfl, k, rfl⟩, rfl⟩) fun body hbody => ?_
  obtain ⟨k, rfl⟩ := hbody
  refine (calls_assert e _).bind fun a => ?_
  cases a with
  | error fault => exact writes_ofExcept (.refused (n := n) (k := k))
  | ok =>
    refine Writes.after (p := fun _ => True) (writes_ofExcept ⟨⟨(), rfl, trivial⟩, rfl⟩) fun _ _ => ?_
    have hcollect := writes_collect e (transientHead n (visibleNames sts)) (visibleNames sts) limit
      (Line.displayAll sts)
    have hanswers := writes_outcome
      (Q := fun r log => (∃ a, r = .ok a) ∧ ∃ answers,
        log = [.query (transientHead n (visibleNames sts)) answers])
      (hcollect.mono fun _ _ h => ⟨⟨_, rfl⟩, h⟩)
    refine Writes.bind hanswers (fun _ _ ⟨⟨_, h⟩, _⟩ => by cases h) fun records log h => ?_
    obtain ⟨-, answers, rfl⟩ := h
    refine (calls_retract e _).bind fun removed => ?_
    refine writes_of_silent (fun S => ?_) fun _ => .asked (n := n) (k := k)
    cases records <;> cases removed <;> rfl

theorem writes_askLine (l : Line) (limit : Option Nat) :
    Writes (fun _ log => Inquired l log) (askLine e.traced l limit) := by
  cases l with
  | claim st =>
    refine Writes.after (p := fun l => l.predicate = st.predicate)
      (writes_numbering fun _ => ⟨⟨_, rfl, rfl⟩, rfl⟩) fun literal hpred => ?_
    refine (writes_collect e literal st.vars limit st.display).mono fun _ _ h => ?_
    obtain ⟨answers, rfl⟩ := h
    exact .claim hpred
  | conjunction sts => exact writes_askAll e sts limit
  | rule head body => exact writes_ofExcept .rule

/-! ### Texts -/

theorem emits_askLine {l : Line} (hl : ∀ st, l = .claim st → '_' ∉ st.predicate.toList)
    (limit : Option Nat) : Emits Segmented (askLine e.traced l limit) :=
  (writes_askLine e l limit).mono fun _ _ h =>
    h.segmented fun st hst => Transient.not_begins_of_no_underscore (hl st hst)

theorem emits_drain {l : Line} (hl : ∀ st, l = .claim st → '_' ∉ st.predicate.toList) :
    Emits Segmented (drain e.traced l) :=
  Emits.bind composes_segmented (emits_askLine e hl none) fun _ => emits_pure composes_segmented _

/-- What is done with a line may rely on that its claim has no underscore. -/
theorem emits_readLine_bind {text : String} {f : Line → Act (σ × List Event) β}
    (hf : ∀ l, (∀ st, l = .claim st → '_' ∉ st.predicate.toList) → Emits Segmented (f l)) :
    Emits Segmented (readLine text >>= f) := by
  refine emits_bind_of composes_segmented (p := fun l => Line.read text = .ok l) ?_ ?_
  · exact (writes_readLine text).mono fun _ _ ⟨hlog, hread⟩ => ⟨hlog ▸ .nil, hread⟩
  · intro l hread
    refine hf l fun st hst => ?_
    have hmem : st ∈ l.statements := by rw [hst]; exact List.mem_singleton_self st
    exact (Statement.FromText.grammatical ⟨text, l, hread, hmem⟩).no_underscore

theorem emits_ask (text : String) (limit : Option Nat) :
    Emits Segmented (ask e.traced text limit) :=
  emits_readLine_bind fun _ hl => emits_askLine e hl limit

/-- What is done with the clauses of a text may rely on that none is a transient rule. -/
theorem emits_clausesOf_bind {text : String} {f : List Clause → Act (σ × List Event) β}
    (hf : ∀ cs, (∀ c ∈ cs, ¬ c.IsTransientRule) → Emits Segmented (f cs)) :
    Emits Segmented (clausesOf text >>= f) := by
  refine emits_bind_of composes_segmented (p := fun cs => ∀ c ∈ cs, ¬ c.IsTransientRule) ?_ hf
  refine writes_clausesOf fun S => ⟨.nil, fun cs hcs c hc htransient => ?_⟩
  exact Transient.not_begins_of_no_underscore (no_underscore_of_clausesOf hcs c hc) htransient.2

theorem emits_assertText (text : String) : Emits Segmented (assertText e.traced text) :=
  emits_clausesOf_bind fun _ hcs =>
    Emits.bind composes_segmented
      (emits_assertAll composes_segmented fun c hc _ => .of_plain (hcs c hc))
      fun _ => emits_ofExcept composes_segmented _

theorem emits_retractText (text : String) : Emits Segmented (retractText e.traced text) :=
  emits_clausesOf_bind fun _ hcs =>
    Emits.bind composes_segmented
      (emits_retractAll composes_segmented fun c hc _ => .of_plain (hcs c hc))
      fun _ => emits_ofExcept composes_segmented _

/-- The query for directives begins with the word of commands. -/
theorem not_begins_query (n : Nat) : ¬ Transient.Begins (Directive.query n).predicate := by
  have hpred : (Directive.query n).predicate =
      commandWord ++ " " ++ Text.joinWith " " (List.replicate (n + 2) placeholder) := rfl
  rw [hpred, Transient.Begins, String.toList_append, String.toList_append]
  simp [Transient.stem, commandWord]

theorem emits_perform (text : String) : Emits Segmented (perform e.traced text) := by
  have hP := composes_segmented
  have hquery (n : Nat) (r) : Segmented [.query (Directive.query n) r] := .of_plain (not_begins_query n)
  have hfact (d : Directive) : ¬ d.fact.IsTransientRule := fun h => h.1 rfl
  refine emits_clausesOf_bind fun action haction => ?_
  have hcleanup (result : Except Failure (List Directive)) : Emits Segmented (do
      orFail text (← retractAll e.traced action)
      ofExcept result : Act (σ × List Event) (List Directive)) :=
    Emits.bind hP (emits_retractAll hP fun c hc _ => .of_plain (haction c hc)) fun _ =>
      Emits.bind hP (emits_ofExcept hP _) fun _ => emits_ofExcept hP _
  refine Emits.bind hP (emits_directives hP hquery) fun before => ?_
  refine Emits.bind hP (emits_assertAll hP fun c hc _ => .of_plain (haction c hc)) fun asserted => ?_
  cases asserted with
  | error fault => exact Emits.bind hP (emits_pure hP _) hcleanup
  | ok =>
    have hnew : Emits Segmented (dispatchNew e.traced before) :=
      emits_dispatchNew hP hquery (fun d _ => .of_plain (hfact d)) (fun d _ => .of_plain (hfact d)) before
    exact Emits.bind hP (writes_outcome hnew) hcleanup

end Act
end PassageLogic
