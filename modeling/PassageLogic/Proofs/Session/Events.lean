import PassageLogic.Proofs.Session.Performing

/-! # The calls of a step

A traced engine writes down every call together with what came of it, and otherwise does what the engine
does. `Act.Writes Q x` says that, in every session, the calls that the step `x` makes satisfy `Q`
together with its outcome; nothing is said about the engine. Steps one after the other write one list
after the other (`Writes.bind`).

* `Act.Emits P x`: the calls satisfy `P` however the step ends. For a property that joined lists have if
  both have it (`Composes`), the parts of asking, asserting, retracting and performing emit such calls
  if the single calls in them do. -/

namespace PassageLogic

/-- A call of an engine and what came of it. -/
inductive Event where
  | assert (clause : Clause) (result : Except Fault Unit)
  | retract (clause : Clause) (result : Except Fault Bool)
  | query (literal : Literal) (result : Except Fault (List Item))
deriving DecidableEq

/-- The list without calls has the property, and so have lists with it when they are joined. -/
structure Composes (P : List Event → Prop) : Prop where
  nil : P []
  append : ∀ {log more}, P log → P more → P (log ++ more)

variable {σ α β : Type}

/-- The engine that writes down every call with what came of it, in order. -/
def Engine.traced (e : Engine σ) : Engine (σ × List Event) where
  assert c s :=
    let (r, t) := e.assert c s.1
    (r, t, s.2 ++ [.assert c r])
  retract c s :=
    let (r, t) := e.retract c s.1
    (r, t, s.2 ++ [.retract c r])
  query l s :=
    let (r, t) := e.query l s.1
    (r, t, s.2 ++ [.query l r])

/-- The calls that a step makes in a session, in order. -/
def Session.events (S : Session σ) (x : Act (σ × List Event) α) : List Event :=
  (x.runIn ⟨(S.engine, []), S.anonymous, S.transient⟩).2.engine.2

namespace Act

variable {Q : Except Failure α → List Event → Prop} {T : Except Failure β → List Event → Prop}
  {x : Act (σ × List Event) α} {f : α → Act (σ × List Event) β}

/-- In every session, the step adds calls to the list that have the property together with its
outcome. -/
def Writes (Q : Except Failure α → List Event → Prop) (x : Act (σ × List Event) α) : Prop :=
  ∀ S, ∃ log, (x.runIn S).2.engine.2 = S.engine.2 ++ log ∧ Q (x.runIn S).1 log

theorem Writes.events (h : Writes Q x) (S : Session σ) :
    Q (x.runIn ⟨(S.engine, []), S.anonymous, S.transient⟩).1 (S.events x) := by
  obtain ⟨log, hlog, hQ⟩ := h ⟨(S.engine, []), S.anonymous, S.transient⟩
  have hevents : S.events x = log := hlog
  exact hevents ▸ hQ

theorem Writes.mono {Q' : Except Failure α → List Event → Prop} (h : Writes Q x)
    (hQ : ∀ r log, Q r log → Q' r log) : Writes Q' x := by
  intro S
  obtain ⟨log, hlog, hlogQ⟩ := h S
  exact ⟨log, hlog, hQ _ _ hlogQ⟩

/-- **Steps one after the other write one list after the other.** If the first one fails, that is all. -/
theorem Writes.bind (hx : Writes Q x) (hfailed : ∀ e log, Q (.error e) log → T (.error e) log)
    (hf : ∀ a log, Q (.ok a) log → Writes (fun r more => T r (log ++ more)) (f a)) :
    Writes T (x >>= f) := by
  intro S
  obtain ⟨log, hlog, hQ⟩ := hx S
  rw [runIn_bind]
  generalize x.runIn S = run at hlog hQ
  obtain ⟨r, U⟩ := run
  cases r with
  | error e => exact ⟨log, hlog, hfailed e log hQ⟩
  | ok a =>
    obtain ⟨more, hmore, hT⟩ := hf a log hQ U
    refine ⟨log ++ more, ?_, hT⟩
    rw [hmore, hlog, List.append_assoc]

/-- A step before that makes no call and does not fail. -/
theorem Writes.after {p : α → Prop} (hx : Writes (fun r log => (∃ a, r = .ok a ∧ p a) ∧ log = []) x)
    (hf : ∀ a, p a → Writes T (f a)) : Writes T (x >>= f) := by
  refine Writes.bind hx (fun _ _ ⟨⟨_, h, _⟩, _⟩ => by cases h) fun a _ h => ?_
  obtain ⟨⟨_, ha, hp⟩, rfl⟩ := h
  cases ha
  exact hf a hp

/-- A step after that makes no call. -/
theorem Writes.before {P : List Event → Prop} (hx : Writes (fun _ log => P log) x)
    (hf : ∀ a S, ((f a).runIn S).2.engine = S.engine) : Writes (fun _ log => P log) (x >>= f) := by
  refine Writes.bind hx (fun _ _ h => h) fun a log h S => ⟨[], ?_, ?_⟩
  · rw [hf a S, List.append_nil]
  · show P (log ++ [])
    rwa [List.append_nil]

/-- A step that makes no call. -/
theorem writes_of_silent (h : ∀ S, (x.runIn S).2.engine = S.engine) (hQ : ∀ S, Q (x.runIn S).1 []) :
    Writes Q x :=
  fun S => ⟨[], by rw [h S, List.append_nil], hQ S⟩

theorem writes_ofExcept {r : Except Failure α} (h : Q r []) :
    Writes Q (ofExcept r : Act (σ × List Event) α) :=
  writes_of_silent (fun _ => rfl) fun _ => h

theorem writes_numbering {g : Nat → α × Nat} (h : ∀ n, Q (.ok (g n).1) []) :
    Writes Q (numbering g : Act (σ × List Event) α) :=
  writes_of_silent (fun _ => rfl) fun _ => h _

theorem writes_outcome {Q : Except Failure (Except Failure α) → List Event → Prop}
    (h : Writes (fun r log => Q (.ok r) log) x) : Writes Q (outcome x) := h

/-- The step is one call, whose outcome is its result. -/
def Calls (event : α → Event) (x : Act (σ × List Event) α) : Prop :=
  Writes (fun r log => ∃ a, r = .ok a ∧ log = [event a]) x

section Calls
variable (e : Engine σ)

theorem calls_assert (c : Clause) : Calls (.assert c) (call (e.traced.assert c)) :=
  fun _ => ⟨_, rfl, _, rfl, rfl⟩

theorem calls_retract (c : Clause) : Calls (.retract c) (call (e.traced.retract c)) :=
  fun _ => ⟨_, rfl, _, rfl, rfl⟩

theorem calls_query (l : Literal) : Calls (.query l) (call (e.traced.query l)) :=
  fun _ => ⟨_, rfl, _, rfl, rfl⟩

/-- A call before other steps comes first in the list. -/
theorem Calls.bind {event : α → Event} (hx : Calls event x)
    (hf : ∀ a, Writes (fun r log => T r (event a :: log)) (f a)) : Writes T (x >>= f) := by
  refine Writes.bind hx (fun _ _ ⟨_, h, _⟩ => by cases h) fun a log h => ?_
  obtain ⟨_, ha, rfl⟩ := h
  cases ha
  exact hf a

theorem writes_collect (l : Literal) (visible : List String) (limit : Option Nat) (query : String) :
    Writes (fun _ log => ∃ answers, log = [.query l answers])
      (collect e.traced l visible limit query) := by
  refine Calls.bind (calls_query e l) fun answers => ?_
  exact writes_of_silent (fun S => by cases answers <;> rfl) fun _ => ⟨answers, rfl⟩

end Calls

/-! ### Properties of all calls of a step -/

/-- In every session, the calls of the step have the property, however it ends. -/
def Emits (P : List Event → Prop) (x : Act (σ × List Event) α) : Prop := Writes (fun _ log => P log) x

/-- The text is read without a call, and what is read is a line that it holds. -/
theorem writes_readLine (text : String) :
    Writes (fun r log => log = [] ∧ ∀ l, r = .ok l → Line.read text = .ok l)
      (readLine text : Act (σ × List Event) Line) :=
  writes_ofExcept ⟨rfl, fun _ => mapError_eq_ok⟩

/-- The clauses of a text are made without a call. -/
theorem writes_clausesOf {Q : Except Failure (List Clause) → List Event → Prop} {text : String}
    (h : ∀ S : Session (σ × List Event), Q ((clausesOf text).runIn S).1 []) :
    Writes Q (clausesOf text : Act (σ × List Event) (List Clause)) :=
  writes_of_silent (engine_clausesOf text) h

section Emits
variable {P : List Event → Prop} (hP : Composes P)
include hP

theorem emits_ofExcept (r : Except Failure α) : Emits P (ofExcept r : Act (σ × List Event) α) :=
  writes_ofExcept hP.nil

theorem emits_pure (a : α) : Emits P (pure a : Act (σ × List Event) α) := emits_ofExcept hP (.ok a)

theorem emits_throw (e : Failure) : Emits P (throw e : Act (σ × List Event) α) :=
  emits_ofExcept hP (.error e)

/-- What is done with a result may rely on what is known of it. -/
theorem emits_bind_of {p : α → Prop} (hx : Writes (fun r log => P log ∧ ∀ a, r = .ok a → p a) x)
    (hf : ∀ a, p a → Emits P (f a)) : Emits P (x >>= f) :=
  Writes.bind hx (fun _ _ h => h.1) fun a _ h =>
    (hf a (h.2 a rfl)).mono fun _ _ hmore => hP.append h.1 hmore

theorem Emits.bind (hx : Emits P x) (hf : ∀ a, Emits P (f a)) : Emits P (x >>= f) :=
  emits_bind_of hP (p := fun _ => True) (hx.mono fun _ _ h => ⟨h, fun _ _ => trivial⟩) fun a _ => hf a

variable {e : Engine σ}

/-- A call with the property before other steps. -/
theorem Calls.emits_bind {event : α → Event} (hx : Calls event x) (hevent : ∀ a, P [event a])
    (hf : ∀ a, Emits P (f a)) : Emits P (x >>= f) :=
  hx.bind fun a => (hf a).mono fun _ _ h => hP.append (hevent a) h

omit hP in
theorem emits_collect {l : Literal} (hl : ∀ r, P [.query l r]) (visible : List String)
    (limit : Option Nat) (query : String) : Emits P (collect e.traced l visible limit query) :=
  (writes_collect e l visible limit query).mono fun _ _ ⟨answers, h⟩ => h ▸ hl answers

theorem emits_directivesFor (hquery : ∀ n r, P [.query (Directive.query n) r]) (ns : List Nat) :
    Emits P (directivesFor e.traced ns) := by
  induction ns with
  | nil => exact emits_pure hP _
  | cons n ns ih =>
    have hn : Emits P (directivesOf e.traced n) :=
      Emits.bind hP (emits_collect (hquery n) _ _ _) fun _ => emits_pure hP _
    exact Emits.bind hP hn fun _ => Emits.bind hP ih fun _ => emits_pure hP _

theorem emits_directives (hquery : ∀ n r, P [.query (Directive.query n) r]) :
    Emits P (directives e.traced) := emits_directivesFor hP hquery _

theorem emits_effectOf (command : String) :
    Emits P (effectOf command : Act (σ × List Event) Effect) := by
  unfold effectOf
  split
  · exact emits_pure hP _
  · exact emits_throw hP _

theorem emits_dispatch {d : Directive} (hassert : ∀ r, P [.assert d.fact r])
    (hretract : ∀ r, P [.retract d.fact r]) : Emits P (dispatch e.traced d) := by
  refine Emits.bind hP (emits_effectOf hP _) fun effect => ?_
  cases effect with
  | assert => exact (calls_assert e d.fact).emits_bind hP hassert fun _ => emits_ofExcept hP _
  | retract =>
    refine (calls_retract e d.fact).emits_bind hP hretract fun _ => ?_
    exact Emits.bind hP (emits_ofExcept hP _) fun _ => emits_pure hP _

theorem emits_dispatchAll (hassert : ∀ d r, P [.assert (Directive.fact d) r])
    (hretract : ∀ d r, P [.retract (Directive.fact d) r]) (ds : List Directive) :
    Emits P (dispatchAll e.traced ds) := by
  induction ds with
  | nil => exact emits_pure hP _
  | cons d ds ih => exact Emits.bind hP (emits_dispatch hP (hassert d) (hretract d)) fun _ => ih

theorem emits_dispatchNew (hquery : ∀ n r, P [.query (Directive.query n) r])
    (hassert : ∀ d r, P [.assert (Directive.fact d) r])
    (hretract : ∀ d r, P [.retract (Directive.fact d) r]) (before : List Directive) :
    Emits P (dispatchNew e.traced before) :=
  Emits.bind hP (emits_directives hP hquery) fun _ =>
    Emits.bind hP (emits_dispatchAll hP hassert hretract _) fun _ => emits_pure hP _

theorem emits_assertAll {cs : List Clause} (hcs : ∀ c ∈ cs, ∀ r, P [.assert c r]) :
    Emits P (assertAll e.traced cs) := by
  induction cs with
  | nil => exact emits_pure hP _
  | cons c cs ih =>
    obtain ⟨hc, hcs⟩ := List.forall_mem_cons.1 hcs
    refine (calls_assert e c).emits_bind hP hc fun r => ?_
    cases r with
    | ok => exact ih hcs
    | error fault => exact emits_pure hP _

theorem emits_retractAll {cs : List Clause} (hcs : ∀ c ∈ cs, ∀ r, P [.retract c r]) :
    Emits P (retractAll e.traced cs) := by
  induction cs with
  | nil => exact emits_pure hP _
  | cons c cs ih =>
    obtain ⟨hc, hcs⟩ := List.forall_mem_cons.1 hcs
    refine (calls_retract e c).emits_bind hP hc fun r => ?_
    cases r with
    | ok removed => exact ih hcs
    | error fault => exact emits_pure hP _

end Emits

end Act
end PassageLogic
