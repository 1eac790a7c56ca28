import PassageLogic.Proofs.Statement.RoundTrip
import PassageLogic.Proofs.Session.Directives
import PassageLogic.Proofs.Session.Texts

/-! # Commands that are performed

To perform a command about a statement is to assert or to retract the statement itself
(`Act.perform_commanded`): the directive is stored as a fact, found again by the query for directives with as
many arguments, carried out, and the fact is removed. A directive about NaN that is derivable all along is
carried out as well (`Act.perform_repeats_nan`). -/

namespace PassageLogic

/-! ### The texts of a command and of its statement -/

theorem Directive.trimmed_factPredicate :
    ∀ n ≤ mostArgs, Text.trimmed (factPredicate n) = factPredicate n := by decide

theorem Token.terms_consts (values : List String) (k : Nat) :
    Token.terms (values.map Token.const) k = (values.map fun v => .const (.text v), k) := by
  induction values with
  | nil => rfl
  | cons v values ih =>
    rw [List.map_cons, Token.terms, ih]
    rfl

/-- To assert or to retract the clauses of a text. -/
def Effect.onText {σ : Type} (effect : Effect) (e : Engine σ) (text : String) : Act σ Unit :=
  match effect with
  | .assert => Act.assertText e text
  | .retract => Act.retractText e text

/-- The directive for an effect on a statement with these constants. -/
def Effect.directive (effect : Effect) (st : Statement) (values : List String) : Directive :=
  ⟨effect.command, st.predicate, values.map Value.text⟩

section Texts

variable (effect : Effect) {st : Statement} {values : List String}
  (hvalues : st.tokens = values.map Token.const)

theorem Effect.directive_ofTexts : (effect.directive st values).OfTexts := by
  intro v hv
  obtain ⟨text, -, rfl⟩ := List.mem_map.1 hv
  exact ⟨text, rfl⟩

theorem Effect.effect?_directive : (effect.directive st values).effect? = some effect := by
  cases effect <;> rfl

theorem Effect.isBareword_command : IsBareword effect.command := by
  cases effect <;> decide

include hvalues

/-- The fact of a statement of constants is the one that the directive is about. -/
theorem Effect.fact_literal (hpos : st.negated = false) (k : Nat) :
    Clause.fact (st.literal k).1 = (effect.directive st values).fact ∧ (st.literal k).2 = k := by
  unfold Statement.literal directive Directive.fact Literal.of
  rw [hvalues, Token.terms_consts, hpos, List.map_map]
  exact ⟨rfl, rfl⟩

/-- The fact of the command gives the directive. -/
theorem Effect.fact_commanded (hpos : st.negated = false) (hmost : values.length ≤ Directive.mostArgs)
    (k : Nat) : Clause.fact ((st.commanded effect.command).literal k).1 =
        (effect.directive st values).given ∧ ((st.commanded effect.command).literal k).2 = k := by
  have hlength : st.tokens.length = values.length := by rw [hvalues, List.length_map]
  have hargs : (effect.directive st values).args.length = values.length := List.length_map _
  have hpredicate : (st.commanded effect.command).predicate = Directive.factPredicate values.length := by
    rw [← Directive.trimmed_factPredicate _ hmost, ← hlength]
    rfl
  have htokens : (st.commanded effect.command).tokens =
      (effect.command :: st.predicate :: values).map Token.const := by
    unfold Statement.commanded
    rw [hvalues]
    rfl
  rw [Directive.given_eq, hargs]
  unfold Statement.literal
  rw [hpredicate, htokens, Token.terms_consts]
  refine ⟨?_, rfl⟩
  unfold directive Literal.of
  rw [List.map_cons, List.map_cons, List.map_cons, List.map_cons, List.map_map]
  exact congrArg (fun negated => Clause.fact ⟨_, _, negated⟩) hpos

end Texts

namespace Act

/-- A claim that is not denied is a fact. -/
theorem runIn_clausesOf_claim {text : String} {st : Statement} {c : Clause} {S : Session Store}
    (hread : Line.read text = .ok (.claim st)) (hpos : st.negated = false)
    (hfact : Clause.fact (st.literal S.anonymous).1 = c ∧ (st.literal S.anonymous).2 = S.anonymous) :
    (clausesOf text).runIn S = (.ok [c], S) := by
  obtain ⟨rfl, hcount⟩ := hfact
  have hheads : (Line.claim st).headsPositive = true := by
    show (!st.negated) = true
    rw [hpos]
    rfl
  rw [runIn_clausesOf, hread]
  simp only [hheads, if_true]
  show (Except.ok [Clause.fact (st.literal S.anonymous).1],
    { S with anonymous := (st.literal S.anonymous).2 }) = _
  rw [hcount]

/-- **What performing the fact of a directive does.** -/
theorem perform_given {text : String} {d : Directive} {S T : Session Store} {ds : List Directive}
    (htext : (clausesOf text).runIn S = (.ok [d.given], S)) (hknown : d.isKnown = true)
    (htexts : d.OfTexts) (hmost : d.args.length ≤ Directive.mostArgs)
    (hbodies : ∀ c ∈ S.engine.clauses, ∀ l ∈ c.body,
      l.predicate ≠ Directive.factPredicate d.args.length)
    (hlen : (S.engine.answers (Directive.query d.args.length)).length < Limits.largest)
    (hnan : ∀ standing, S.engine.directives = .ok standing →
      ∀ e ∈ standing, ∀ v ∈ e.args, v.isNaN = false)
    (hnew : ∀ standing, S.engine.directives = .ok standing → d ∉ standing)
    (hrun : (perform Store.engine text).runIn S = (.ok ds, T)) :
    ds = [d] ∧ T = { S with engine := d.change S.engine } := by
  rw [runIn_perform, htext] at hrun
  simp only [] at hrun
  cases hbefore : S.engine.directives with
  | error f =>
    rw [hbefore] at hrun
    cases hrun
  | ok standing =>
    obtain ⟨hok, hstanding⟩ := Store.directives_eq_ok hbefore
    have hno : S.engine.hasVariant d.given = false := by
      refine Bool.eq_false_iff.2 fun h => hnew standing hbefore ?_
      rw [hstanding]
      exact List.mem_flatMap.2 ⟨_, List.mem_range.2 (Nat.lt_succ_of_le hmost),
        Directive.mem_directives_of_given hmost htexts h (hok _ hmost) hlen⟩
    have hasserted : S.engine.assertAll [d.given] = S.engine.withClause d.given := by
      show (S.engine.assert d.given).2 = _
      unfold Store.assert
      rw [hno]
      rfl
    rw [hbefore, hasserted] at hrun
    simp only [runIn_dispatchNew] at hrun
    cases hafter : (S.engine.withClause d.given).directives with
    | error f =>
      rw [hafter] at hrun
      cases hrun
    | ok derivable =>
      have honly := Directive.new_of_given hmost htexts hbodies hlen hbefore hafter
        (hnan standing hbefore) (hnew standing hbefore)
      rw [hafter] at hrun
      simp only [honly, Directive.outcome_cons_known hknown, List.takeWhile_cons_of_pos hknown] at hrun
      cases hrun
      refine ⟨rfl, ?_⟩
      rw [← Directive.change_given htexts.proper_given hno (Directive.given_isVariant_fact htexts)]
      rfl

/-- What the direct operation on a fact does. -/
theorem runIn_onText {text : String} {effect : Effect} {d : Directive} {S : Session Store}
    (htext : (clausesOf text).runIn S = (.ok [d.fact], S)) (heffect : d.effect? = some effect) :
    (effect.onText Store.engine text).runIn S = (.ok (), { S with engine := d.change S.engine }) := by
  unfold Directive.change
  rw [heffect]
  cases effect with
  | assert =>
    show (assertText Store.engine text).runIn S = _
    rw [runIn_assertText, htext]
    rfl
  | retract =>
    show (retractText Store.engine text).runIn S = _
    rw [runIn_retractText, htext]
    rfl

/-- **To perform a command about a statement is to assert or to retract the statement.** If the directive is
not derivable yet, no directive that is has NaN among its arguments, and no body mentions the predicates of
directives, then a command that is performed without a failure gives just this directive, and leaves the
session that the direct operation leaves. A stream of `Limits.largest` records, more than any memory holds,
is cut off there without a fault; it is the only exception. -/
theorem perform_commanded (effect : Effect) {st : Statement} {values : List String}
    {S T : Session Store} {ds : List Directive} (hwf : st.WellFormed) (hpos : st.negated = false)
    (hvalues : st.tokens = values.map Token.const) (hmost : values.length ≤ Directive.mostArgs)
    (hbodies : ∀ c ∈ S.engine.clauses, ∀ l ∈ c.body, ∀ k ≤ Directive.mostArgs,
      l.predicate ≠ Directive.factPredicate k)
    (hlen : (S.engine.answers (Directive.query values.length)).length < Limits.largest)
    (hnan : ∀ standing, S.engine.directives = .ok standing →
      ∀ e ∈ standing, ∀ v ∈ e.args, v.isNaN = false)
    (hnew : ∀ standing, S.engine.directives = .ok standing →
      effect.directive st values ∉ standing)
    (hrun : (perform Store.engine (effect.command ++ ": " ++ st.display)).runIn S = (.ok ds, T)) :
    ds = [effect.directive st values] ∧
      (effect.onText Store.engine st.display).runIn S = (.ok (), T) := by
  have hlength : (effect.directive st values).args.length = values.length := List.length_map _
  have hmost' : (effect.directive st values).args.length ≤ Directive.mostArgs := hlength ▸ hmost
  have hcommand : (clausesOf (effect.command ++ ": " ++ st.display)).runIn S =
      (.ok [(effect.directive st values).given], S) :=
    runIn_clausesOf_claim (hwf.read_command hpos effect.isBareword_command) hpos
      (effect.fact_commanded hvalues hpos hmost S.anonymous)
  have hknown : (effect.directive st values).isKnown = true := by
    unfold Directive.isKnown
    rw [effect.effect?_directive]
    rfl
  obtain ⟨hds, rfl⟩ := perform_given hcommand hknown effect.directive_ofTexts hmost'
    (fun c hc l hl => hbodies c hc l hl _ hmost') (hlength ▸ hlen) hnan hnew hrun
  have hclosing : IsClosing "" := fun c hc => absurd hc List.not_mem_nil
  have hread := Line.WellFormed.read_eq (l := .claim st) hwf (.claim st) hclosing
  rw [String.append_empty] at hread
  exact ⟨hds, runIn_onText (runIn_clausesOf_claim hread hpos
    (effect.fact_literal hvalues hpos S.anonymous)) effect.effect?_directive⟩

/-- Sam is up and hungry, and who is up is tired. -/
def morningStore : Store where
  limits := { depth := 4, answers := 10 }
  clauses := [.fact (.of "up %" [.const (.text "sam")]), .fact (.of "hungry %" [.const (.text "sam")]),
    ⟨.of "meta % % %" [.const (.text "assert"), .const (.text "tired %"), .var "who"],
      [.of "up %" [.var "who"]]⟩]

/-- Sam is hungry. -/
def hungryStatement : Statement := ⟨["hungry", "%"], [.const "sam"], false⟩

theorem perform_commanded_morning :
    let S : Session Store := ⟨morningStore, 0, 0⟩
    hungryStatement.WellFormed ∧ hungryStatement.negated = false ∧
    hungryStatement.tokens = ["sam"].map Token.const ∧ ["sam"].length ≤ Directive.mostArgs ∧
    morningStore.directives = .ok [⟨"assert", "tired %", [.text "sam"]⟩] ∧
    ∃ T, (perform Store.engine "retract: hungry \"sam\"").runIn S =
        (.ok [⟨"retract", "hungry %", [.text "sam"]⟩], T) ∧
      (retractText Store.engine "hungry \"sam\"").runIn S = (.ok (), T) ∧
      T.engine.clauses = [.fact (.of "up %" [.const (.text "sam")]),
        ⟨.of "meta % % %" [.const (.text "assert"), .const (.text "tired %"), .var "who"],
          [.of "up %" [.var "who"]]⟩] := by
  intro S
  have hwf : hungryStatement.WellFormed := by decide +kernel
  have hmost : ["sam"].length ≤ Directive.mostArgs := by decide
  have hbodies : ∀ c ∈ S.engine.clauses, ∀ l ∈ c.body, ∀ k ≤ Directive.mostArgs,
      l.predicate ≠ Directive.factPredicate k := by decide
  have hlen : (S.engine.answers (Directive.query ["sam"].length)).length < Limits.largest := by
    decide +kernel
  have hstanding : morningStore.directives = .ok [⟨"assert", "tired %", [.text "sam"]⟩] := by
    decide +kernel
  have hnan : ∀ standing, S.engine.directives = .ok standing →
      ∀ e ∈ standing, ∀ v ∈ e.args, v.isNaN = false := by
    intro standing h
    cases hstanding.symm.trans h
    decide
  have hnew : ∀ standing, S.engine.directives = .ok standing →
      Effect.retract.directive hungryStatement ["sam"] ∉ standing := by
    intro standing h
    cases hstanding.symm.trans h
    rw [List.mem_singleton]
    decide
  have htext : Effect.retract.command ++ ": " ++ hungryStatement.display =
      "retract: hungry \"sam\"" := by decide +kernel
  have hok : ((perform Store.engine "retract: hungry \"sam\"").runIn S).1 =
      .ok [⟨"retract", "hungry %", [.text "sam"]⟩] := by decide +kernel
  obtain ⟨T, hrun⟩ : ∃ T, (perform Store.engine "retract: hungry \"sam\"").runIn S =
      (.ok [⟨"retract", "hungry %", [.text "sam"]⟩], T) := ⟨_, Prod.ext hok rfl⟩
  obtain ⟨-, hdirect⟩ := perform_commanded .retract hwf rfl rfl hmost hbodies hlen hnan hnew
    (htext ▸ hrun)
  have hdisplay : hungryStatement.display = "hungry \"sam\"" := by decide +kernel
  rw [hdisplay] at hdirect
  refine ⟨hwf, rfl, rfl, hmost, hstanding, T, hrun, hdirect, ?_⟩
  have hafter : T = ((retractText Store.engine "hungry \"sam\"").runIn S).2 :=
    (congrArg Prod.snd hdirect).symm
  rw [hafter]
  decide +kernel

/-- A directive about NaN is derivable. -/
def standingStore : Store where
  limits := { depth := 4, answers := 10 }
  clauses := [.fact (.of "meta % % %" [.const (.text "assert"), .const (.text "foo %"), .const .nan])]

/-- The statement `bar "x"`. -/
def barStatement : Statement := ⟨["bar", "%"], [.const "x"], false⟩

/-- **A derivable directive about NaN is carried out with every action**, since it is not found among those
that were derivable before. -/
theorem perform_repeats_nan : ¬ ∀ {effect : Effect} {st : Statement} {values : List String}
    {S T : Session Store} {ds : List Directive}, S.engine.Reachable → st.WellFormed →
      st.negated = false → st.tokens = values.map Token.const → values.length ≤ Directive.mostArgs →
      (∀ c ∈ S.engine.clauses, ∀ l ∈ c.body, ∀ k ≤ Directive.mostArgs,
        l.predicate ≠ Directive.factPredicate k) →
      (∀ standing, S.engine.directives = .ok standing → effect.directive st values ∉ standing) →
      (perform Store.engine (effect.command ++ ": " ++ st.display)).runIn S = (.ok ds, T) →
      ds = [effect.directive st values] := by
  intro h
  let S : Session Store := ⟨standingStore, 0, 0⟩
  have hreach : standingStore.Reachable := by
    have hstore : (Store.empty ⟨4, 10⟩).assertAll standingStore.clauses = standingStore := by rfl
    exact hstore ▸ (Store.Reachable.empty _).assertAll _
  have hstanding : standingStore.directives = .ok [⟨"assert", "foo %", [.nan]⟩] := by decide +kernel
  have hnew : ∀ standing, S.engine.directives = .ok standing →
      Effect.assert.directive barStatement ["x"] ∉ standing := by
    intro standing hs
    cases hstanding.symm.trans hs
    rw [List.mem_singleton]
    decide
  have htext : Effect.assert.command ++ ": " ++ barStatement.display = "assert: bar \"x\"" := by
    decide +kernel
  have hok : ((perform Store.engine "assert: bar \"x\"").runIn S).1 =
      .ok [⟨"assert", "foo %", [.nan]⟩, ⟨"assert", "bar %", [.text "x"]⟩] := by decide +kernel
  obtain ⟨T, hrun⟩ : ∃ T, (perform Store.engine "assert: bar \"x\"").runIn S =
      (.ok [⟨"assert", "foo %", [.nan]⟩, ⟨"assert", "bar %", [.text "x"]⟩], T) := ⟨_, Prod.ext hok rfl⟩
  have hds := h hreach (by decide +kernel) rfl rfl (by decide) (by decide) hnew (htext ▸ hrun)
  exact absurd (congrArg List.length hds) (by decide)

end Act
end PassageLogic
