import PassageLogic.Proofs.Logic.RaisedLimits
import PassageLogic.Proofs.Session.Performing

/-! # Steps under raised limits

A step survives the raising of limits if what it gives without a failure is also what it gives under
higher limits, with the same clauses after it. Survival is kept by putting steps together (`bind`), and
asking, asserting, retracting and performing survive. -/

namespace PassageLogic

/-- A session and one whose store has no lower limits. -/
structure Session.RaisedTo (S T : Session Store) : Prop where
  engine : S.engine.RaisedTo T.engine
  anonymous : T.anonymous = S.anonymous
  transient : T.transient = S.transient

namespace Store.RaisedTo

variable {s t : Store}

theorem hasVariant (h : s.RaisedTo t) (c : Clause) : t.hasVariant c = s.hasVariant c := by
  unfold Store.hasVariant
  rw [h.clauses]

theorem assert (h : s.RaisedTo t) (c : Clause) :
    (t.assert c).1 = (s.assert c).1 ∧ (s.assert c).2.RaisedTo (t.assert c).2 := by
  unfold Store.assert
  rw [h.hasVariant]
  split_ifs
  · exact ⟨rfl, h⟩
  · exact ⟨rfl, h⟩
  · exact ⟨rfl, by rw [h.clauses], h.limits⟩

theorem retract (h : s.RaisedTo t) (c : Clause) :
    (t.retract c).1 = (s.retract c).1 ∧ (s.retract c).2.RaisedTo (t.retract c).2 := by
  refine ⟨h.hasVariant c, ?_, h.limits⟩
  show Store.eraseVariant c t.clauses = Store.eraseVariant c s.clauses
  rw [h.clauses]

theorem assertAll (h : s.RaisedTo t) (cs : List Clause) :
    (s.assertAll cs).RaisedTo (t.assertAll cs) := by
  induction cs generalizing s t with
  | nil => exact h
  | cons c cs ih => exact ih (h.assert c).2

theorem retractAll (h : s.RaisedTo t) (cs : List Clause) :
    (s.retractAll cs).RaisedTo (t.retractAll cs) := by
  induction cs generalizing s t with
  | nil => exact h
  | cons c cs ih => exact ih (h.retract c).2

/-- What is gathered from the stream of a query is gathered under raised limits. -/
theorem gather (h : s.RaisedTo t) {visible : List String} {limit : Option Nat} {q : Literal}
    {L : List Record} (hL : PassageLogic.gather visible limit [] (s.answers q) = .ok L) :
    PassageLogic.gather visible limit [] (t.answers q) = .ok L :=
  gather_continued (Store.answers_continued h q) hL

end Store.RaisedTo

namespace Act

variable {α β : Type}

/-- What the first step gives without a failure, the second one gives under raised limits. -/
def Survives (x y : Act Store α) : Prop :=
  ∀ S T : Session Store, S.RaisedTo T → ∀ a S', x.runIn S = (.ok a, S') →
    ∃ T', y.runIn T = (.ok a, T') ∧ S'.RaisedTo T'

namespace Survives

/-! ### Steps put together -/

theorem pure (a : α) : Survives (Pure.pure a) (Pure.pure a) := by
  intro S T h b S' hx
  cases hx
  exact ⟨T, rfl, h⟩

theorem throw (f : Failure) (y : Act Store α) : Survives (MonadExcept.throw f) y := by
  intro S T h b S' hx
  cases hx

theorem ofExcept (r : Except Failure α) : Survives (Act.ofExcept r) (Act.ofExcept r) := by
  intro S T h b S' hx
  cases hx
  exact ⟨T, rfl, h⟩

theorem orFail (query : String) (r : Except Fault α) :
    Survives (Act.orFail query r) (Act.orFail query r) := ofExcept _

/-- **Steps that survive one after the other survive together.** -/
theorem bind {x y : Act Store α} {f g : α → Act Store β} (hxy : Survives x y)
    (hfg : ∀ a, Survives (f a) (g a)) : Survives (x >>= f) (y >>= g) := by
  intro S T h b S' hrun
  obtain ⟨a, U, hx, hf⟩ := runIn_bind_eq_ok.1 hrun
  obtain ⟨V, hy, hUV⟩ := hxy S T h a U hx
  obtain ⟨T', hg, h'⟩ := hfg a U V hUV b S' hf
  exact ⟨T', runIn_bind_eq_ok.2 ⟨a, V, hy, hg⟩, h'⟩

/-! ### Steps of a session -/

theorem numbering (f : Nat → α × Nat) : Survives (Act.numbering f) (Act.numbering f) := by
  intro S T h b S' hx
  cases hx
  refine ⟨{ T with anonymous := (f S.anonymous).2 }, ?_, h.engine, rfl, h.transient⟩
  rw [runIn_numbering, h.anonymous]

theorem clausesOf (text : String) :
    Survives (Act.clausesOf text : Act Store (List Clause)) (Act.clausesOf text) := by
  refine (ofExcept _).bind fun l => ?_
  split
  · exact numbering _
  · exact throw _ _

theorem collect (l : Literal) (visible : List String) (limit : Option Nat) (query : String) :
    Survives (Act.collect Store.engine l visible limit query)
      (Act.collect Store.engine l visible limit query) := by
  intro S T h L S' hx
  rw [runIn_collect, Prod.mk.injEq] at hx
  obtain ⟨hL, rfl⟩ := hx
  refine ⟨T, ?_, h⟩
  rw [runIn_collect, h.engine.gather (mapError_eq_ok hL)]
  rfl

theorem assert (c : Clause) :
    Survives (call (Store.engine.assert c)) (call (Store.engine.assert c)) := by
  intro S T h r S' hx
  obtain ⟨hr, hs⟩ := h.engine.assert c
  cases hx
  refine ⟨{ T with engine := (T.engine.assert c).2 }, ?_, hs, h.anonymous, h.transient⟩
  rw [runIn_call]
  exact congrArg (fun r => (Except.ok r, _)) hr

theorem retract (c : Clause) :
    Survives (call (Store.engine.retract c)) (call (Store.engine.retract c)) := by
  intro S T h r S' hx
  obtain ⟨hr, hs⟩ := h.engine.retract c
  cases hx
  refine ⟨{ T with engine := (T.engine.retract c).2 }, ?_, hs, h.anonymous, h.transient⟩
  rw [runIn_call]
  exact congrArg (fun r => (Except.ok (Except.ok r), _)) hr

theorem assertAll (cs : List Clause) :
    Survives (Act.assertAll Store.engine cs) (Act.assertAll Store.engine cs) := by
  induction cs with
  | nil => exact pure _
  | cons c cs ih =>
    refine (assert c).bind fun r => ?_
    cases r with
    | error f => exact pure _
    | ok u => exact ih

theorem retractAll (cs : List Clause) :
    Survives (Act.retractAll Store.engine cs) (Act.retractAll Store.engine cs) := by
  induction cs with
  | nil => exact pure _
  | cons c cs ih =>
    refine (retract c).bind fun r => ?_
    cases r with
    | error f => exact pure _
    | ok u => exact ih

theorem assertText (text : String) :
    Survives (Act.assertText Store.engine text) (Act.assertText Store.engine text) :=
  (clausesOf text).bind fun cs => (assertAll cs).bind fun _ => orFail _ _

theorem retractText (text : String) :
    Survives (Act.retractText Store.engine text) (Act.retractText Store.engine text) :=
  (clausesOf text).bind fun cs => (retractAll cs).bind fun _ => orFail _ _

/-! ### Performing -/

theorem directives : Survives (Act.directives Store.engine) (Act.directives Store.engine) := by
  have hfor : ∀ ns, Survives (directivesFor Store.engine ns) (directivesFor Store.engine ns) := by
    intro ns
    induction ns with
    | nil => exact pure _
    | cons n ns ih =>
      exact ((collect _ _ _ _).bind fun _ => pure _).bind fun _ => ih.bind fun _ => pure _
  exact hfor _

theorem dispatch (d : Directive) :
    Survives (Act.dispatch Store.engine d) (Act.dispatch Store.engine d) := by
  have heffect : Survives (effectOf d.command : Act Store Effect) (effectOf d.command) := by
    unfold effectOf
    split
    · exact pure _
    · exact throw _ _
  refine heffect.bind fun e => ?_
  cases e with
  | assert => exact (assert d.fact).bind fun _ => orFail _ _
  | retract => exact (retract d.fact).bind fun _ => (orFail _ _).bind fun _ => pure _

theorem dispatchAll (ds : List Directive) :
    Survives (Act.dispatchAll Store.engine ds) (Act.dispatchAll Store.engine ds) := by
  induction ds with
  | nil => exact pure _
  | cons d ds ih => exact (dispatch d).bind fun _ => ih

theorem dispatchNew (before : List Directive) :
    Survives (Act.dispatchNew Store.engine before) (Act.dispatchNew Store.engine before) :=
  directives.bind fun _ => (dispatchAll _).bind fun _ => pure _

/-- The directives that are derivable are derivable under raised limits. -/
theorem directives_eq {s t : Store} (h : s.RaisedTo t) {ds : List Directive}
    (hs : s.directives = .ok ds) : t.directives = .ok ds := by
  have hrun := runIn_directives ⟨s, 0, 0⟩
  rw [hs] at hrun
  obtain ⟨T', ht, -⟩ := directives ⟨s, 0, 0⟩ ⟨t, 0, 0⟩ ⟨h, rfl, rfl⟩ ds _ hrun
  exact congrArg Prod.fst ht

theorem perform (text : String) :
    Survives (Act.perform Store.engine text) (Act.perform Store.engine text) := by
  intro S T h ds S' hrun
  rw [runIn_perform] at hrun ⊢
  generalize hcs : (Act.clausesOf text).runIn S = p at hrun
  obtain ⟨r, U⟩ := p
  cases r with
  | error f => cases hrun
  | ok action =>
    obtain ⟨V, hcs', hUV⟩ := clausesOf text S T h action U hcs
    cases hb : S.engine.directives with
    | error f =>
      rw [hb] at hrun
      cases hrun
    | ok before =>
      rw [hb] at hrun
      rw [hcs', directives_eq h.engine hb]
      simp only [] at hrun ⊢
      have hstored : Session.RaisedTo { U with engine := S.engine.assertAll action }
          { V with engine := T.engine.assertAll action } :=
        ⟨h.engine.assertAll action, hUV.anonymous, hUV.transient⟩
      generalize hd : (Act.dispatchNew Store.engine before).runIn
        { U with engine := S.engine.assertAll action } = p at hrun
      obtain ⟨r, W⟩ := p
      cases hrun
      obtain ⟨X, hd', hWX⟩ := dispatchNew before _ _ hstored ds W hd
      rw [hd']
      exact ⟨_, rfl, hWX.engine.retractAll action, hWX.anonymous, hWX.transient⟩

end Survives

/-! ### Asking -/

section Asking
variable {S S' T : Session Store} {limit limit' : Option Nat} {L : List Record}

/-- Both limits give these records wherever the first one does. -/
def SameUnder (limit limit' : Option Nat) (L : List Record) : Prop :=
  ∀ visible items, gather visible limit [] items = .ok L → gather visible limit' [] items = .ok L

/-- Answers within a limit are the same under what is looked for above it and above a raised one. -/
theorem sameUnder_above {n m : Nat} (hL : L.length ≤ n) (h : n ≤ m) :
    SameUnder (some (Limits.above n)) (some (Limits.above m)) L := by
  intro visible items hg
  rcases Limits.lt_above_or hL h with he | ⟨hn, hm⟩
  · rwa [he]
  · exact gather_limit hg hn hm

/-- **The answers to a line are its answers under raised limits.** -/
theorem askLine_raised (h : S.RaisedTo T) (hL : SameUnder limit limit' L) {l : Line}
    (hrun : (askLine Store.engine l limit).runIn S = (.ok L, S')) :
    ∃ T', (askLine Store.engine l limit').runIn T = (.ok L, T') ∧ S'.RaisedTo T' := by
  cases l with
  | claim st =>
    rw [runIn_askLine_claim, Prod.mk.injEq] at hrun
    obtain ⟨hg, rfl⟩ := hrun
    refine ⟨{ T with anonymous := (st.literal S.anonymous).2 }, ?_, h.engine, rfl, h.transient⟩
    rw [runIn_askLine_claim, h.anonymous, hL _ _ (h.engine.gather (mapError_eq_ok hg))]
    rfl
  | conjunction sts =>
    rw [askLine, runIn_askAll, Prod.mk.injEq] at hrun
    obtain ⟨hg, rfl⟩ := hrun
    have hstored := (h.engine.assert (conjunctionRule sts S.transient S.anonymous)).2
    have hg' := hL _ _ (hstored.gather (mapError_eq_ok hg))
    refine ⟨⟨((T.engine.assert (conjunctionRule sts S.transient S.anonymous)).2.retract
      (conjunctionRule sts S.transient S.anonymous)).2, (Statement.literals sts S.anonymous).2,
      S.transient + 1⟩, ?_, (hstored.retract _).2, rfl, rfl⟩
    rw [askLine, runIn_askAll, h.anonymous, h.transient]
    simp only [hg']
    rfl
  | rule head body => cases hrun

theorem ask_raised (h : S.RaisedTo T) (hL : SameUnder limit limit' L) {text : String}
    (hrun : (ask Store.engine text limit).runIn S = (.ok L, S')) :
    ∃ T', (ask Store.engine text limit').runIn T = (.ok L, T') ∧ S'.RaisedTo T' := by
  obtain ⟨l, U, hl, hask⟩ := runIn_bind_eq_ok.1 hrun
  obtain ⟨V, hl', hUV⟩ := Survives.ofExcept _ S T h l U hl
  obtain ⟨T', hask', h'⟩ := askLine_raised hUV hL hask
  exact ⟨T', runIn_bind_eq_ok.2 ⟨l, V, hl', hask'⟩, h'⟩

namespace Survives

theorem askLine (l : Line) (limit : Option Nat) :
    Survives (Act.askLine Store.engine l limit) (Act.askLine Store.engine l limit) :=
  fun _ _ h _ _ hrun => askLine_raised h (fun _ _ hg => hg) hrun

theorem ask (text : String) (limit : Option Nat) :
    Survives (Act.ask Store.engine text limit) (Act.ask Store.engine text limit) :=
  fun _ _ h _ _ hrun => ask_raised h (fun _ _ hg => hg) hrun

theorem drain (l : Line) : Survives (Act.drain Store.engine l) (Act.drain Store.engine l) :=
  (askLine l none).bind fun _ => pure _

end Survives
end Asking
end Act
end PassageLogic
