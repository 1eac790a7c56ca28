import PassageLogic.Proofs.Session.Tidy
import PassageLogic.Proofs.Render.Reading
import PassageLogic.Proofs.Logic.CanonicalForms

/-! # Whole sessions

A session is a series of calls, from the engine's own to renderings, each of which may fail and leave
what it did before it failed. Whatever the calls are and however they end, the store is tidy after them
(`Session.store_after`): every call keeps it so (`Request.tidy_run`), and it is empty at first. -/

namespace PassageLogic

/-! ### Rendering -/

namespace Stage

open Act (Tidies)

variable {p : Nat → Prop} {shelf : Shelf} {settings : Settings}
  {display : String → Record → Act Store String}

theorem tidies_joinAll {f : Record → Act Store String} (h : ∀ r, Tidies p (f r)) (rs : List Record) :
    Tidies p (joinAll f rs) := by
  induction rs with
  | nil => exact Act.tidies_pure _
  | cons r rs ih => exact (h r).bind fun _ => ih.bind fun _ => Act.tidies_pure _

theorem related_tidies (hd : ∀ target context, Tidies p (display target context)) :
    Related (ofStore shelf settings) (ofStore shelf settings) display display (fun _ => True)
      (fun _ => True) (fun x _ => Tidies p x) where
  pure text := Act.tidies_pure text
  throw f := Act.tidies_throw f
  append hx hy := hx.bind fun _ => hy.bind fun _ => Act.tidies_pure _
  command {context} _ verb _ text := by
    cases verb with
    | run =>
      exact (Act.tidies_ofExcept _).bind fun l =>
        (Act.tidies_drain _).bind fun _ => Act.tidies_pure _
    | display => exact hd text context
    | displayIfPossible =>
      refine (hd text context).outcome.bind fun r => ?_
      cases r <;> exact Act.tidies_pure _
    | assert => exact (Act.tidies_assertText text).bind fun _ => Act.tidies_pure _
    | retract => exact (Act.tidies_retractText text).bind fun _ => Act.tidies_pure _
    | perform => exact (Act.tidies_perform text).bind fun _ => Act.tidies_pure _
  branch kind query context _ body body' hbody alternative alternative' halt := by
    cases kind with
    | first =>
      refine (Act.tidies_ask query _).bind fun answers => ?_
      cases answers with
      | nil => exact halt
      | cons answer _ => exact hbody _ trivial
    | each =>
      refine (Act.tidies_ask query _).bind fun answers => ?_
      split
      · exact Act.tidies_throw _
      · split
        · exact halt
        · exact tidies_joinAll (fun r => hbody _ trivial) answers

/-- To find a passage is no call of the engine. -/
theorem tidies_find (stage : Stage Store) (target : String) (context : Record) :
    Tidies p (stage.find target context) := by
  unfold find
  split
  · exact Act.tidies_pure _
  · exact Act.tidies_throw _

theorem tidies_body (room : Nat) (text : String) (params : Record) :
    Tidies p ((ofStore shelf settings).body room text params) := by
  induction room generalizing text params with
  | zero =>
    exact (related_tidies fun _ _ => Act.tidies_throw _).template rfl rfl (fun _ _ => trivial) trivial
  | succ room ih =>
    refine (related_tidies fun target context => ?_).template rfl rfl (fun _ _ => trivial) trivial
    exact (tidies_find _ target context).bind fun found => ih found.body found.context

end Stage

/-! ### Requests -/

/-- What a host asks of a session. -/
inductive Request where
  | assertClause (c : Clause)
  | retractClause (c : Clause)
  | query (q : Literal)
  | assertText (text : String)
  | retractText (text : String)
  | ask (text : String) (limit : Option Nat)
  | directives
  | perform (text : String)
  | render (shelf : Shelf) (settings : Settings) (text : String) (params : Record)
  | renderPassage (shelf : Shelf) (settings : Settings) (target : String) (params : Record)
  /-- The requests that follow go through an adapter that has numbered so many nameless variables. -/
  | adapter (anonymous : Nat)

namespace Request

/-- The session after a request, whether it failed or not. -/
def run (S : Session Store) : Request → Session Store
  | .assertClause c => ((Act.call (Store.engine.assert c)).runIn S).2
  | .retractClause c => ((Act.call (Store.engine.retract c)).runIn S).2
  | .query q => ((Act.call (Store.engine.query q)).runIn S).2
  | .assertText text => ((Act.assertText Store.engine text).runIn S).2
  | .retractText text => ((Act.retractText Store.engine text).runIn S).2
  | .ask text limit => ((Act.ask Store.engine text limit).runIn S).2
  | .directives => ((Act.directives Store.engine).runIn S).2
  | .perform text => ((Act.perform Store.engine text).runIn S).2
  | .render shelf settings text params =>
    (((Stage.ofStore shelf settings).render text params).runIn S).2
  | .renderPassage shelf settings target params =>
    (((Stage.ofStore shelf settings).renderPassage target params).runIn S).2
  | .adapter anonymous => { S with anonymous }

/-- **A request keeps a tidy store tidy**, if a clause that it asserts is no transient rule. -/
theorem tidy_run {p : Nat → Prop} {S : Session Store} (h : S.engine.Tidy p) (r : Request)
    (hr : ∀ c, r = .assertClause c → ∀ n, p n → ¬ c.IsTransient n) : (r.run S).engine.Tidy p := by
  cases r with
  | assertClause c => exact h.assert (hr c rfl)
  | retractClause c => exact h.retract c
  | query q => exact h
  | assertText text => exact Act.tidies_assertText text S h
  | retractText text => exact Act.tidies_retractText text S h
  | ask text limit => exact Act.tidies_ask text limit S h
  | directives => exact Act.tidies_directives S h
  | perform text => exact Act.tidies_perform text S h
  | render shelf settings text params => exact Stage.tidies_body _ text params S h
  | renderPassage shelf settings target params =>
    exact (Stage.tidies_find _ target params).bind
      (fun found => Stage.tidies_body _ found.body found.context) S h
  | adapter anonymous => exact h

end Request

/-- The session after requests, one after the other. -/
def Session.after (S : Session Store) (rs : List Request) : Session Store :=
  rs.foldl (fun S r => r.run S) S

theorem Session.tidy_after {p : Nat → Prop} {S : Session Store} (h : S.engine.Tidy p)
    (rs : List Request) (hrs : ∀ c, .assertClause c ∈ rs → ∀ n, p n → ¬ c.IsTransient n) :
    (S.after rs).engine.Tidy p := by
  induction rs generalizing S with
  | nil => exact h
  | cons r rs ih =>
    refine ih (r.tidy_run h fun c hc => ?_) fun c hc => hrs c (List.mem_cons_of_mem _ hc)
    exact hrs c (hc ▸ List.mem_cons_self)

/-- **The store after any session.** After any requests to an empty store, whatever became of them, no
two clauses rename each other, no head is denied, and there is no rule of a conjunction; and when a
clause is retracted, no clause is left that renames it. A host must not assert rules for the predicates
that its conjunctions draw. -/
theorem Session.store_after (limits : Limits) (anonymous transient : Nat) (rs : List Request)
    {T : Session Store} (hT : Session.after ⟨.empty limits, anonymous, transient⟩ rs = T)
    (hhost : ∀ c, .assertClause c ∈ rs → ∀ n, transient ≤ n → n < T.transient → ¬ c.IsTransient n) :
    (T.engine.clauses.Pairwise fun c d => ¬ c.Renames d) ∧
      (∀ c ∈ T.engine.clauses, c.head.negated = false) ∧
      (∀ c ∈ T.engine.clauses, ∀ n, transient ≤ n → n < T.transient → ¬ c.IsTransient n) ∧
      ∀ c, ∀ d ∈ (T.engine.retract c).2.clauses, ¬ d.Renames c := by
  have htidy : T.engine.Tidy fun n => transient ≤ n ∧ n < T.transient := by
    rw [← hT] at hhost ⊢
    exact Session.tidy_after (Store.Tidy.empty limits) rs fun c hc n hn => hhost c hc n hn.1 hn.2
  refine ⟨htidy.distinct.imp fun hcd hrenames => ?_, htidy.positive,
    fun c hc n hle hlt => htidy.lasting c hc n ⟨hle, hlt⟩, fun c d hd hrenames => ?_⟩
  · rw [hrenames.isVariant] at hcd
    cases hcd
  · rw [htidy.distinct.clauses_retract, List.mem_filter, hrenames.isVariant] at hd
    cases hd.2

/-- A session in which a rule is asserted again under another name and a denied fact in vain, an action
hands on a directive, and a rendering fails after it has asked a conjunction. -/
def supperRequests : List Request :=
  [.assertText "likes (x) \"pizza\" if hungry (x)",
    .assertClause ⟨.of "likes % %" [.var "who", .const (.text "pizza")],
      [.of "hungry %" [.var "who"]]⟩,
    .assertClause ⟨⟨"hungry %", [.const (.text "alex")], true⟩, []⟩,
    .assertText "assert: hungry (x) if wakes (x)",
    .perform "wakes \"sam\"",
    .render .empty {} "\\do hungry (x), wakes (x)\n\\display supper" .empty]

/-- What is left: the two rules, and the fact of the directive. -/
def supperClauses : List Clause :=
  [⟨.of "likes % %" [.var "x", .const (.text "pizza")], [.of "hungry %" [.var "x"]]⟩,
    ⟨.of "meta % % %" [.const (.text "assert"), .const (.text "hungry %"), .var "x"],
      [.of "wakes %" [.var "x"]]⟩,
    .fact (.of "hungry %" [.const (.text "sam")])]

theorem Session.store_after_supper :
    (∀ c, .assertClause c ∈ supperRequests → ∀ n, ¬ c.IsTransient n) ∧
      (Session.after ⟨.empty ⟨4, 3⟩, 0, 0⟩ supperRequests).engine.clauses = supperClauses ∧
      (supperClauses.Pairwise fun c d => ¬ c.Renames d) ∧
      ∀ c ∈ supperClauses, ¬ c.IsTransient 0 := by
  have hhost : ∀ c, .assertClause c ∈ supperRequests → ∀ n, ¬ c.IsTransient n := by
    intro c hc n
    have hc : c = ⟨.of "likes % %" [.var "who", .const (.text "pizza")],
        [.of "hungry %" [.var "who"]]⟩ ∨ c = ⟨⟨"hungry %", [.const (.text "alex")], true⟩, []⟩ := by
      simpa [supperRequests] using hc
    rcases hc with rfl | rfl <;> exact Clause.not_isTransient_of_no_underscore (by decide) n
  have hafter : ((Session.after ⟨.empty ⟨4, 3⟩, 0, 0⟩ supperRequests).transient,
      (Session.after ⟨.empty ⟨4, 3⟩, 0, 0⟩ supperRequests).engine.clauses) = (1, supperClauses) := by
    decide +kernel
  obtain ⟨T, hT⟩ : ∃ T, Session.after ⟨.empty ⟨4, 3⟩, 0, 0⟩ supperRequests = T := ⟨_, rfl⟩
  obtain ⟨hpair, -, hlasting, -⟩ :=
    Session.store_after ⟨4, 3⟩ 0 0 supperRequests hT fun c hc n _ _ => hhost c hc n
  rw [hT, Prod.mk.injEq] at hafter
  rw [hT]
  rw [hafter.2] at hpair hlasting
  exact ⟨hhost, hafter.2, hpair,
    fun c hc => hlasting c hc 0 (Nat.le_refl 0) (hafter.1 ▸ Nat.one_pos)⟩

end PassageLogic
