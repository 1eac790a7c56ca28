import PassageLogic.Logic.Script
import PassageLogic.Proofs.Session.Events

/-! # The retraction of an action

However performing an action goes, over any engine, its last calls retract the clauses of the action one
after the other, up to the first retraction that fails (`Withdrawal`); only where it is not known what is
derivable before the action, nothing is asserted and nothing retracted. So a clause that was asserted is
retracted unless the retraction of an earlier one failed (`perform_retracts`). The exception is real:
`perform_leaves_clause`. -/

namespace PassageLogic

/-- The calls that retract clauses, in order and up to the first that fails. -/
inductive Withdrawal : List Clause → List Event → Prop
  | done : Withdrawal [] []
  | next {c cs removed log} (h : Withdrawal cs log) :
      Withdrawal (c :: cs) (.retract c (.ok removed) :: log)
  | stuck {c cs fault} : Withdrawal (c :: cs) [.retract c (.error fault)]

/-- A clause is retracted unless the last call is the failed retraction of an earlier one. -/
theorem Withdrawal.retracted {earlier later : List Clause} {c : Clause} {log : List Event}
    (h : Withdrawal (earlier ++ c :: later) log)
    (hlast : ∀ d ∈ earlier, d ≠ c → ∀ fault, log.getLast? ≠ some (.retract d (.error fault))) :
    ∃ removed, .retract c removed ∈ log := by
  induction earlier generalizing log with
  | nil =>
    cases h with
    | next _ => exact ⟨_, List.mem_cons_self⟩
    | stuck => exact ⟨_, List.mem_cons_self⟩
  | cons d earlier ih =>
    cases h with
    | stuck =>
      by_cases hd : d = c
      · subst hd
        exact ⟨_, List.mem_cons_self⟩
      · exact absurd rfl (hlast d List.mem_cons_self hd _)
    | @next _ _ _ log h =>
      have htail : ∀ d' ∈ earlier, d' ≠ c → ∀ fault,
          log.getLast? ≠ some (.retract d' (.error fault)) := by
        intro d' hd' hne fault hlog
        refine hlast d' (List.mem_cons_of_mem _ hd') hne fault ?_
        rw [List.getLast?_cons, hlog]
        rfl
      obtain ⟨removed, hmem⟩ := ih h htail
      exact ⟨removed, List.mem_cons_of_mem _ hmem⟩

/-- The clause that a call retracts. -/
def Event.retracted? : Event → Option Clause
  | .retract c _ => some c
  | _ => none

theorem Withdrawal.not_assert {cs : List Clause} {log : List Event} (h : Withdrawal cs log)
    (c : Clause) (r : Except Fault Unit) : .assert c r ∉ log := by
  induction h with
  | done => simp
  | next _ ih => simpa using ih
  | stuck => simp

/-- Of two ways to split a list, one at an entry that the second part of the other does not have. -/
theorem exists_eq_append_of_notMem {α : Type} {before after front back : List α} {a : α}
    (h : before ++ a :: after = front ++ back) (ha : a ∉ back) :
    ∃ rest, after = rest ++ back := by
  rcases List.append_eq_append_iff.1 h with ⟨middle, rfl, hmiddle⟩ | ⟨middle, rfl, rfl⟩
  · rcases List.cons_eq_append_iff.1 hmiddle with ⟨-, rfl⟩ | ⟨rest, rfl, rfl⟩
    · exact absurd List.mem_cons_self ha
    · exact ⟨rest, rfl⟩
  · simp at ha

/-- No call asserts a clause. -/
def Unasserting (log : List Event) : Prop := ∀ c r, .assert c r ∉ log

theorem composes_unasserting : Composes Unasserting where
  nil _ _ := List.not_mem_nil
  append h h' c r hmem := (List.mem_append.1 hmem).elim (h c r) (h' c r)

/-- No clause is asserted, or the last calls retract the action. -/
def Cleaned (action : List Clause) (log : List Event) : Prop :=
  Unasserting log ∨ ∃ front cleanup, log = front ++ cleanup ∧ Withdrawal action cleanup

theorem composes_trivial : Composes fun _ => True := ⟨trivial, fun _ _ => trivial⟩

namespace Act

variable {σ α : Type} (e : Engine σ)

/-- The retractions do not fail themselves: what went wrong is their result. -/
theorem writes_retractAll (cs : List Clause) :
    Writes (fun r log => (∃ a, r = .ok a) ∧ Withdrawal cs log) (retractAll e.traced cs) := by
  induction cs with
  | nil => exact writes_ofExcept ⟨⟨_, rfl⟩, .done⟩
  | cons c cs ih =>
    refine (calls_retract e c).bind fun a => ?_
    cases a with
    | ok removed => exact ih.mono fun _ _ ⟨hok, h⟩ => ⟨hok, h.next⟩
    | error fault => exact writes_ofExcept ⟨⟨_, rfl⟩, .stuck⟩

/-- The assertions do not fail themselves either. -/
theorem writes_assertAll (cs : List Clause) :
    Writes (fun r _ => ∃ a, r = .ok a) (assertAll e.traced cs) := by
  induction cs with
  | nil => exact writes_ofExcept ⟨_, rfl⟩
  | cons c cs ih =>
    refine (calls_assert e c).bind fun a => ?_
    cases a with
    | ok => exact ih
    | error fault => exact writes_ofExcept ⟨_, rfl⟩

/-- A step that does not fail itself, and then the retraction of the action. -/
theorem writes_cleanup (action : List Clause) (text : String)
    {x : Act (σ × List Event) (Except Failure α)} (hx : Writes (fun r _ => ∃ a, r = .ok a) x)
    (front : List Event) :
    Writes (fun _ log => Cleaned action (front ++ log))
      (do
        let result ← x
        orFail text (← retractAll e.traced action)
        ofExcept result) := by
  refine Writes.bind hx (fun _ _ ⟨_, h⟩ => by cases h) fun result middle _ => ?_
  have hcleanup : Writes (fun _ => Withdrawal action)
      (do orFail text (← retractAll e.traced action); ofExcept result) := by
    refine Writes.bind (writes_retractAll e action) (fun _ _ h => h.2) fun _ log h => ?_
    refine Writes.bind (Q := fun _ more => more = []) (writes_ofExcept rfl) ?_ ?_
    · rintro _ _ rfl
      simpa using h.2
    · rintro _ _ rfl
      exact writes_ofExcept (by simpa using h.2)
  exact hcleanup.mono fun _ log h => .inr ⟨front ++ middle, log, by rw [List.append_assoc], h⟩

/-- The clauses of a text depend on nothing but the number of nameless variables so far. -/
theorem clausesOf_fst {τ : Type} {S : Session σ} {T : Session τ} (h : T.anonymous = S.anonymous)
    (text : String) : ((clausesOf text).runIn T).1 = ((clausesOf text).runIn S).1 := by
  rw [runIn_clausesOf, runIn_clausesOf, h]
  cases Line.read text with
  | error m => rfl
  | ok l => simp only []; split_ifs <;> rfl

/-- **The last calls of performing retract the action**, if any clause is asserted at all. -/
theorem events_perform {S : Session σ} {text : String} {action : List Clause}
    (h : ((clausesOf text).runIn S).1 = .ok action) :
    Cleaned action (S.events (perform e.traced text)) := by
  -- what performing does with the clauses of the text
  obtain ⟨rest, hperform, hrest⟩ : ∃ rest, perform e.traced text = clausesOf text >>= rest ∧
      Writes (fun _ => Cleaned action) (rest action) := by
    refine ⟨_, rfl, ?_⟩
    have hbefore : Writes (fun _ log => Unasserting log) (directives e.traced) :=
      emits_directives composes_unasserting fun n r c r' hc => by simp at hc
    refine Writes.bind hbefore (fun _ _ h => .inl h) fun before front _ => ?_
    refine Writes.bind (writes_assertAll e action) (by rintro _ _ ⟨_, h⟩; cases h) fun r log _ => ?_
    simp only [← List.append_assoc]
    cases r with
    | error fault => exact writes_cleanup e action text (writes_ofExcept ⟨_, rfl⟩) (front ++ log)
    | ok =>
      have hnew : Emits (fun _ => True) (dispatchNew e.traced before) :=
        emits_dispatchNew composes_trivial (fun _ _ => trivial) (fun _ _ => trivial)
          (fun _ _ => trivial) before
      have hnever : Writes (fun r _ => ∃ a, r = .ok a) (outcome (dispatchNew e.traced before)) :=
        writes_outcome (hnew.mono fun _ _ _ => ⟨_, rfl⟩)
      exact writes_cleanup e action text hnever (front ++ log)
  -- the session with traced calls, before and after the text is read
  let U : Session (σ × List Event) := ⟨(S.engine, []), S.anonymous, S.transient⟩
  have hread : ((clausesOf text).runIn U).1 = .ok action :=
    (clausesOf_fst (S := S) (T := U) rfl text).trans h
  have hengine := engine_clausesOf text U
  unfold Session.events
  rw [hperform, runIn_bind]
  generalize (clausesOf text).runIn U = run at hread hengine
  obtain ⟨r, V⟩ := run
  cases hread
  obtain ⟨log, hlog, hcleaned⟩ := hrest V
  have hall := hlog.trans (by rw [hengine]; rfl : V.engine.2 ++ log = log)
  exact (congrArg (Cleaned action) hall).mpr hcleaned

/-- **A clause of an action that was asserted is retracted**, whichever calls fail, unless performing
ends with the failed retraction of an earlier clause of the action. -/
theorem perform_retracts {S : Session σ} {text : String} {earlier later : List Clause} {c : Clause}
    {before after : List Event}
    (haction : ((clausesOf text).runIn S).1 = .ok (earlier ++ c :: later))
    (hasserted : S.events (perform e.traced text) = before ++ .assert c (.ok ()) :: after)
    (hkept : ∀ d ∈ earlier, d ≠ c → ∀ fault, after.getLast? ≠ some (.retract d (.error fault))) :
    ∃ removed, .retract c removed ∈ after := by
  rcases events_perform e haction with hnone | ⟨front, cleanup, hlog, hcleanup⟩
  · exact absurd (hasserted ▸ List.mem_append_right _ List.mem_cons_self) (hnone c (.ok ()))
  · obtain ⟨rest, rfl⟩ :=
      exists_eq_append_of_notMem (hasserted.symm.trans hlog) (hcleanup.not_assert c (.ok ()))
    have hlast : ∀ d ∈ earlier, d ≠ c → ∀ fault,
        cleanup.getLast? ≠ some (.retract d (.error fault)) := by
      intro d hd hne fault h
      exact hkept d hd hne fault (by rw [List.getLast?_append, h]; rfl)
    obtain ⟨removed, hmem⟩ := hcleanup.retracted hlast
    exact ⟨removed, List.mem_append_right _ hmem⟩

end Act

/-- A directive with an unknown command becomes derivable with the action, and the last of its clauses
cannot be retracted. -/
def explodingScript : Script where
  rounds := [("meta % %", [[],
    [.ok ((Record.empty.insert "command" (.text "explode")).insert "predicate" (.text "boom"))]])]
  assertFaults := []
  retractFaults := [("c", .backend "stuck")]
  queryFaults := []

/-- The first of the clauses cannot be retracted. -/
def jammedScript : Script where
  rounds := []
  assertFaults := []
  retractFaults := [("a", .backend "stuck")]
  queryFaults := []

/-- A session over a scripted engine that answered no query yet. -/
def freshSession : Session (List String) := ⟨[], 0, 0⟩

/-- The fact of a predicate without values. -/
def bareFact (predicate : String) : Clause := .fact (.of predicate [])

theorem perform_retracts_exploding :
    let events := freshSession.events (Act.perform explodingScript.engine.traced "a, b, c")
    ((Act.clausesOf "a, b, c").runIn freshSession).1 =
        .ok ([bareFact "a"] ++ bareFact "b" :: [bareFact "c"]) ∧
      events = events.take 10 ++ .assert (bareFact "b") (.ok ()) :: events.drop 11 ∧
      (∀ d ∈ [bareFact "a"], d ≠ bareFact "b" → ∀ fault,
        (events.drop 11).getLast? ≠ some (.retract d (.error fault))) ∧
      ∃ removed, .retract (bareFact "b") removed ∈ events.drop 11 := by
  intro events
  have haction : ((Act.clausesOf "a, b, c").runIn freshSession).1 =
      .ok ([bareFact "a"] ++ bareFact "b" :: [bareFact "c"]) := by decide +kernel
  have hasserted : events = events.take 10 ++ .assert (bareFact "b") (.ok ()) :: events.drop 11 := by
    decide +kernel
  have hlast : (events.drop 11).getLast? =
      some (.retract (bareFact "c") (.error (.backend "stuck"))) := by decide +kernel
  have hkept : ∀ d ∈ [bareFact "a"], d ≠ bareFact "b" → ∀ fault,
      (events.drop 11).getLast? ≠ some (.retract d (.error fault)) := by
    intro d hd _ fault h
    rw [List.mem_singleton.1 hd, hlast] at h
    have hac : bareFact "c" ≠ bareFact "a" := by decide
    simp [hac] at h
  exact ⟨haction, hasserted, hkept,
    Act.perform_retracts explodingScript.engine haction hasserted hkept⟩

/-- An asserted clause may stay: the retraction of the action ends with the first that fails. -/
theorem perform_leaves_clause :
    let events := freshSession.events (Act.perform jammedScript.engine.traced "a, c")
    ((Act.clausesOf "a, c").runIn freshSession).1 = .ok [bareFact "a", bareFact "c"] ∧
      .assert (bareFact "c") (.ok ()) ∈ events ∧
      ∀ removed, .retract (bareFact "c") removed ∉ events := by
  intro events
  have hnone : ∀ event ∈ events, event.retracted? ≠ some (bareFact "c") := by decide +kernel
  exact ⟨by decide +kernel, by decide +kernel, fun removed hmem => hnone _ hmem rfl⟩

end PassageLogic
