import PassageLogic.Proofs.Session.Performing
import Mathlib.Data.List.TakeWhile

/-! # The net effect of an action

Performing an action leaves three traces in a store (`NetEffect`): nothing of the action, the facts of
the directives that were carried out, as the last of them decides, and all else as it was.

* `perform_net_effect`: this is so however performing ends, and the store stays as it was if the action
  was not asserted at all.
* `mem_perform_iff`: a stored clause that no directive retracts is stored afterwards unless it is a
  clause of the action. The exception is real: `perform_drops_stored_clause`. -/

namespace PassageLogic

/-- A clause that is neither a clause of the action nor retracted by a directive. -/
def isSpared (action : List Clause) (done : List Directive) (c : Clause) : Bool :=
  (!action.any fun a => a.isVariant c) &&
    !done.any fun d => d.effect? == some .retract && d.fact.isVariant c

/-- The store before, an action, the directives that were carried out, and the store after. -/
structure NetEffect (before : Store) (action : List Clause) (done : List Directive)
    (after : Store) : Prop where
  /-- A clause of the action that was not there is not there again. -/
  withdrawn : ∀ a ∈ action, before.hasVariant a = false → after.hasVariant a = false
  /-- The last directive about any other clause decides whether it is there. -/
  decided : ∀ c, (∀ a ∈ action, a.isVariant c = false) →
    (after.hasVariant c = true ↔
      match Directive.lastAbout done c with
      | some d => d.effect? = some .assert
      | none => before.hasVariant c = true)
  /-- The clauses that were never removed are in their order. -/
  order : (before.clauses.filter (isSpared action done)).Sublist after.clauses

/-- How it ends to carry out directives, and which of them are carried out: all, or those before the
first unknown command. -/
inductive CarriedOut (new : List Directive) : Except Failure (List Directive) → List Directive → Prop
  | all (h : ∀ d ∈ new, d.isKnown = true) : CarriedOut new (.ok new) new
  | stopped {done rest : List Directive} {d : Directive} (hnew : new = done ++ d :: rest)
      (hdone : ∀ e ∈ done, e.isKnown = true) (hd : d.isKnown = false) :
      CarriedOut new (.error (.unknownCommand d.command)) done

/-- How it ends to perform an action over a store, and the store after. -/
inductive Performance (before : Store) :
    Except Failure (List Clause) → Except Failure (List Directive) → Store → Prop
  /-- The text is no action. -/
  | unread (f : Failure) : Performance before (.error f) (.error f) before
  /-- It is not known what is derivable before the action. -/
  | unprobed {action : List Clause} {f : Failure} (h : before.directives = .error f) :
      Performance before (.ok action) (.error f) before
  /-- It is not known what is derivable with the action. -/
  | underived {action : List Clause} {standing : List Directive} {f : Failure} {after : Store}
      (h : before.directives = .ok standing)
      (h' : (before.assertAll action).directives = .error f)
      (hnet : NetEffect before action [] after) : Performance before (.ok action) (.error f) after
  /-- The directives that are derivable with the action and not before it are carried out. -/
  | derived {action : List Clause} {standing derivable done : List Directive}
      {result : Except Failure (List Directive)} {after : Store}
      (h : before.directives = .ok standing)
      (h' : (before.assertAll action).directives = .ok derivable)
      (hdone : CarriedOut (derivable.filter fun d => !standing.contains d) result done)
      (hnet : NetEffect before action done after) : Performance before (.ok action) result after

variable {s : Store} {action : List Clause} {done : List Directive} {c : Clause}

/-! ### What is left -/

theorem carriedOut_outcome (new : List Directive) :
    CarriedOut new ((Directive.outcome new).map fun _ => new) (new.takeWhile Directive.isKnown) := by
  unfold Directive.outcome
  cases hf : new.find? fun d => !d.isKnown with
  | none =>
    have hknown : ∀ d ∈ new, d.isKnown = true := by simpa using hf
    rw [List.takeWhile_eq_self_iff.2 hknown]
    exact .all hknown
  | some d =>
    obtain ⟨hd, done, rest, hnew, hdone⟩ := List.find?_eq_some_iff_append.1 hf
    have hdone : ∀ e ∈ done, e.isKnown = true := by simpa using hdone
    have hd : d.isKnown = false := by simpa using hd
    have htake : new.takeWhile Directive.isKnown = done := by
      rw [hnew, List.takeWhile_append_of_pos hdone, List.takeWhile_cons_of_neg (by simp [hd]),
        List.append_nil]
    rw [htake]
    exact .stopped hnew hdone hd

theorem sublist_spared (hs : s.Distinct) (action : List Clause) (done : List Directive) :
    (s.clauses.filter (isSpared action done)).Sublist
      ((Directive.changeAll done (s.assertAll action)).retractAll action).clauses := by
  have hspared : ∀ k ∈ s.clauses.filter (isSpared action done),
      (∀ a ∈ action, a.isVariant k = false) ∧
        ∀ d ∈ done, d.effect? = some .retract → d.fact.isVariant k = false := by
    intro k hk
    have hk := (List.mem_filter.1 hk).2
    unfold isSpared at hk
    simpa using hk
  have hs' := hs.assertAll action
  refine (Directive.distinct_changeAll hs' done).sublist_retractAll ?_ fun k hk => (hspared k hk).1
  refine Directive.sublist_changeAll hs' ?_ fun k hk => (hspared k hk).2
  exact List.filter_sublist.trans (Store.sublist_assertAll _ _)

/-- **What an action and its directives leave in a store.** -/
theorem netEffect (hs : s.Distinct) (haction : ∀ a ∈ action, a.head.negated = false)
    (hdone : ∀ d ∈ done, d.isKnown = true) : NetEffect s action done
      ((Directive.changeAll done (s.assertAll action)).retractAll action) := by
  have hs' := hs.assertAll action
  have hs'' := Directive.distinct_changeAll hs' done
  refine ⟨fun a ha _ => ?_, fun c hc => ?_, sublist_spared hs action done⟩
  · rw [hs''.hasVariant_retractAll]
    cases hv : (Directive.changeAll done (s.assertAll action)).hasVariant a with
    | false => rfl
    | true =>
      -- a clause with a variant is one of itself
      obtain ⟨d, -, hd⟩ := Store.hasVariant_iff.1 hv
      rw [Clause.any_isVariant_of_mem ha (Clause.isVariant_self hd)]
      rfl
  · have hany : action.any (fun a => a.isVariant c) = false := by simpa using hc
    rw [hs''.hasVariant_retractAll, hany, Bool.not_false, Bool.and_true,
      Directive.hasVariant_changeAll hs' hdone, Store.hasVariant_assertAll haction, hany,
      Bool.or_false]
    cases Directive.lastAbout done c with
    | none => rfl
    | some d => exact beq_iff_eq

/-! ### Performing -/

/-- **The net effect of performing an action.** Where the text is no action, or where it is not known
what is derivable before it, the store stays as it was. Otherwise, however performing ends, the action
is gone and exactly the directives that were carried out have had their effect: none if it is not known
what is derivable with the action, those before the first unknown command if there is one, and else
all that are derivable with the action and not without it, which are the result. -/
theorem perform_net_effect {S : Session Store} (hS : S.engine.Reachable) (text : String) :
    Performance S.engine ((Act.clausesOf text).runIn S).1
      ((Act.perform Store.engine text).runIn S).1
      ((Act.perform Store.engine text).runIn S).2.engine := by
  have hengine := Act.engine_clausesOf text S
  have hpos : ∀ cs, ((Act.clausesOf text).runIn S).1 = .ok cs → ∀ c ∈ cs, c.head.negated = false :=
    fun cs h => Act.negated_of_clausesOf h
  rw [Act.runIn_perform]
  generalize (Act.clausesOf text).runIn S = p at hengine hpos
  obtain ⟨r, T⟩ := p
  cases r with
  | error f =>
    simp only [] at hengine ⊢
    rw [hengine]
    exact .unread f
  | ok action =>
    have hpos := hpos action rfl
    cases hb : S.engine.directives with
    | error f =>
      simp only [] at hengine ⊢
      rw [hengine]
      exact .unprobed hb
    | ok standing =>
      simp only []
      rw [Act.runIn_dispatchNew]
      cases ha : (S.engine.assertAll action).directives with
      | error f => exact .underived hb ha (netEffect hS.distinct hpos (by simp))
      | ok derivable =>
        refine .derived hb ha (carriedOut_outcome _) (netEffect hS.distinct hpos fun d hd => ?_)
        exact List.mem_takeWhile_imp hd

/-- Who wins gets a score and is not hungry any more. -/
def contestStore : Store where
  limits := { depth := 4, answers := 10 }
  clauses :=
    [⟨.of "meta % % % %" [.const (.text "assert"), .const (.text "scoreOf % %"), .var "p",
        .const (.text "10")], [.of "win %" [.var "p"]]⟩,
      ⟨.of "meta % % %" [.const (.text "retract"), .const (.text "hungry %"), .var "p"],
        [.of "win %" [.var "p"]]⟩,
      .fact (.of "hungry %" [.const (.text "sam")])]

/-- What performing `win "sam"` leaves. -/
def contestStoreWon : Store where
  limits := { depth := 4, answers := 10 }
  clauses := contestStore.clauses.take 2 ++
    [.fact (.of "scoreOf % %" [.const (.text "sam"), .const (.text "10")])]

theorem perform_net_effect_contest : contestStore.Reachable ∧
    Performance contestStore (.ok [.fact (.of "win %" [.const (.text "sam")])])
      (.ok [⟨"retract", "hungry %", [.text "sam"]⟩,
        ⟨"assert", "scoreOf % %", [.text "sam", .text "10"]⟩]) contestStoreWon := by
  have hreach : contestStore.Reachable := by
    have hstore : (Store.empty ⟨4, 10⟩).assertAll contestStore.clauses = contestStore := by rfl
    exact hstore ▸ (Store.Reachable.empty _).assertAll _
  let S : Session Store := ⟨contestStore, 0, 0⟩
  have haction : ((Act.clausesOf "win \"sam\"").runIn S).1 =
      .ok [.fact (.of "win %" [.const (.text "sam")])] := by decide +kernel
  have hresult : ((Act.perform Store.engine "win \"sam\"").runIn S).1 =
      .ok [⟨"retract", "hungry %", [.text "sam"]⟩,
        ⟨"assert", "scoreOf % %", [.text "sam", .text "10"]⟩] := by decide +kernel
  have hafter : ((Act.perform Store.engine "win \"sam\"").runIn S).2.engine = contestStoreWon :=
    Store.ext (by decide +kernel) (by decide +kernel)
  have h := perform_net_effect (S := S) hreach "win \"sam\""
  rw [haction, hresult, hafter] at h
  exact ⟨hreach, h⟩

namespace Session

/-- The clauses that performing a text asserts: none if the text is no action, or if it is not known
what is derivable before it. -/
def asserted (S : Session Store) (text : String) : List Clause :=
  match ((Act.clausesOf text).runIn S).1, S.engine.directives with
  | .ok action, .ok _ => action
  | _, _ => []

/-- The directives that performing a text carries out. -/
def carriedOut (S : Session Store) (text : String) : List Directive :=
  match ((Act.clausesOf text).runIn S).1, S.engine.directives,
    (S.engine.assertAll (S.asserted text)).directives with
  | .ok _, .ok standing, .ok derivable =>
    (derivable.filter fun d => !standing.contains d).takeWhile Directive.isKnown
  | _, _, _ => []

end Session

/-- **What performing does to the store**: the action comes, the directives have their effect and the
action goes. -/
theorem engine_perform (S : Session Store) (text : String) :
    ((Act.perform Store.engine text).runIn S).2.engine =
      (Directive.changeAll (S.carriedOut text) (S.engine.assertAll (S.asserted text))).retractAll
        (S.asserted text) := by
  have hengine := Act.engine_clausesOf text S
  unfold Session.carriedOut Session.asserted
  rw [Act.runIn_perform]
  generalize (Act.clausesOf text).runIn S = p at hengine
  obtain ⟨r, T⟩ := p
  cases r with
  | error f => exact hengine
  | ok action =>
    cases hb : S.engine.directives with
    | error f => exact hengine
    | ok standing =>
      simp only []
      rw [Act.runIn_dispatchNew]
      cases (S.engine.assertAll action).directives <;> rfl

/-- **Which stored clauses an action spares.** A stored clause that no directive retracts is stored
afterwards unless it is a clause of the action. -/
theorem mem_perform_iff {S : Session Store} (hS : S.engine.Reachable) (text : String) {c : Clause}
    (hc : c ∈ S.engine.clauses)
    (hkept : ∀ d ∈ S.carriedOut text, d.effect? = some .retract → d.fact.isVariant c = false) :
    c ∈ ((Act.perform Store.engine text).runIn S).2.engine.clauses ↔
      ∀ a ∈ S.asserted text, a.isVariant c = false := by
  rw [engine_perform]
  constructor
  · intro hafter a ha
    have hs := Directive.distinct_changeAll (hS.distinct.assertAll (S.asserted text))
      (S.carriedOut text)
    refine Bool.eq_false_iff.2 fun hac => ?_
    have hv := Store.hasVariant_of_mem hafter (Clause.isVariant_self hac)
    rw [hs.hasVariant_retractAll, Bool.and_eq_true, Bool.not_eq_true', List.any_eq_false] at hv
    exact hv.2 a ha hac
  · intro hspared
    refine (sublist_spared hS.distinct _ _).subset (List.mem_filter.2 ⟨hc, ?_⟩)
    unfold isSpared
    simpa using ⟨hspared, hkept⟩

/-- A store that knows of one who is hungry. -/
def hungryStore : Store where
  limits := { depth := 4, answers := 10 }
  clauses := [.fact (.of "hungry %" [.const (.text "sam")])]

theorem reachable_hungryStore : hungryStore.Reachable := by
  have hstore : (Store.empty ⟨4, 10⟩).assertAll hungryStore.clauses = hungryStore := by rfl
  exact hstore ▸ (Store.Reachable.empty _).assertAll _

theorem mem_perform_iff_hungry : hungryStore.Reachable ∧
    Clause.fact (.of "hungry %" [.const (.text "sam")]) ∈
      ((Act.perform Store.engine "win \"sam\"").runIn ⟨hungryStore, 0, 0⟩).2.engine.clauses := by
  let S : Session Store := ⟨hungryStore, 0, 0⟩
  have hdone : S.carriedOut "win \"sam\"" = [] := by decide +kernel
  have haction : S.asserted "win \"sam\"" = [.fact (.of "win %" [.const (.text "sam")])] := by
    decide +kernel
  refine ⟨reachable_hungryStore, (mem_perform_iff (S := S) reachable_hungryStore "win \"sam\""
    (List.mem_singleton.2 rfl) ?_).2 ?_⟩
  · simp [hdone]
  · rw [haction]
    decide +kernel

/-- **An action that is stored already is lost**: it is retracted like any other. -/
theorem perform_drops_stored_clause : ¬ ∀ (S : Session Store) (text : String) (c : Clause),
    S.engine.Reachable → c ∈ S.engine.clauses →
      (∀ d ∈ S.carriedOut text, d.effect? = some .retract → d.fact.isVariant c = false) →
        c ∈ ((Act.perform Store.engine text).runIn S).2.engine.clauses := by
  intro h
  have hdone : (⟨hungryStore, 0, 0⟩ : Session Store).carriedOut "hungry \"sam\"" = [] := by
    decide +kernel
  have hafter : ((Act.perform Store.engine "hungry \"sam\"").runIn
      ⟨hungryStore, 0, 0⟩).2.engine.clauses = [] := by
    decide +kernel
  have hmem := h ⟨hungryStore, 0, 0⟩ "hungry \"sam\"" (.fact (.of "hungry %" [.const (.text "sam")]))
    reachable_hungryStore (List.mem_singleton.2 rfl) (by simp [hdone])
  rw [hafter] at hmem
  cases hmem

end PassageLogic
