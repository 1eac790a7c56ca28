import PassageLogic.Logic.Script
import PassageLogic.Proofs.Logic.Distinct
import PassageLogic.Proofs.Session.Asking
import PassageLogic.Proofs.Render.Blocks

/-! # What branches do

Over an engine whose calls succeed, whatever its streams are, a query has a stream (`Line.Streams`), and
nothing but its distinct records before the first fault and that fault decide what a branch does
(`Stage.block_branch`): an `if` fails with the fault if it comes before there are enough answers, and
otherwise renders its body for the first of them; an `each` fails if there are too many answers or a
fault, and otherwise renders its body for each of them in turn. Both render the alternative if there is
no answer. -/

namespace PassageLogic

variable {σ : Type}

/-- The calls of the engine do not fail; what its streams hold is open. -/
structure Engine.Succeeds (e : Engine σ) : Prop where
  assert : ∀ c s, (e.assert c s).1 = .ok ()
  retract : ∀ c s, ∃ removed, (e.retract c s).1 = .ok removed
  query : ∀ l s, ∃ items, (e.query l s).1 = .ok items

namespace Line

/-- The stream of a question in a session, and the session after it. A claim is a query itself; the
stream of a conjunction is that of its transient rule, while the rule is stored. -/
inductive Streams (e : Engine σ) (S : Session σ) : Line → List Item → Session σ → Prop
  | claim {st items t}
      (hquery : e.query (st.literal S.anonymous).1 S.engine = (.ok items, t)) :
      Streams e S (.claim st) items ⟨t, (st.literal S.anonymous).2, S.transient⟩
  | conjunction {sts items removed t u v}
      (hassert : e.assert (conjunctionRule sts S.transient S.anonymous) S.engine = (.ok (), t))
      (hquery : e.query (conjunctionRule sts S.transient S.anonymous).head t = (.ok items, u))
      (hretract : e.retract (conjunctionRule sts S.transient S.anonymous) u = (.ok removed, v)) :
      Streams e S (.conjunction sts) items
        ⟨v, (Statement.literals sts S.anonymous).2, S.transient + 1⟩

end Line

theorem Engine.Succeeds.exists_streams {e : Engine σ} (he : e.Succeeds) {l : Line}
    (hl : ∀ head body, l ≠ .rule head body) (S : Session σ) : ∃ items T, l.Streams e S items T := by
  cases l with
  | claim st =>
    obtain ⟨items, hitems⟩ := he.query (st.literal S.anonymous).1 S.engine
    exact ⟨items, _, .claim (Prod.ext hitems rfl)⟩
  | conjunction sts =>
    let rule := conjunctionRule sts S.transient S.anonymous
    let t := (e.assert rule S.engine).2
    obtain ⟨items, hitems⟩ := he.query rule.head t
    obtain ⟨removed, hremoved⟩ := he.retract rule (e.query rule.head t).2
    exact ⟨items, _, .conjunction (Prod.ext (he.assert rule S.engine) rfl) (Prod.ext hitems rfl)
      (Prod.ext hremoved rfl)⟩
  | rule head body => exact absurd rfl (hl head body)

theorem Act.visibleNames_singleton (st : Statement) : Act.visibleNames [st] = st.vars := by
  have hvars : st.vars.Nodup := nodup_eraseDups _
  show (st.vars ++ []).eraseDups = st.vars
  rw [List.append_nil, eraseDups_of_nodup hvars]

/-- **The answer to a question is what is gathered from its stream.** -/
theorem Line.Streams.runIn_askLine {e : Engine σ} {l : Line} {S T : Session σ} {items : List Item}
    (h : l.Streams e S items T) (limit : Option Nat) : (Act.askLine e l limit).runIn S =
      ((gather (Act.visibleNames l.statements) limit [] items).mapError
        fun fault => Failure.ofFault fault l.display, T) := by
  cases h with
  | @claim st items t hquery =>
    rw [Line.statements, Act.visibleNames_singleton]
    simp only [Act.askLine, Act.collect, Act.runIn_bind, Act.runIn_numbering, Act.runIn_call,
      Act.runIn_orFail, hquery, Except.mapError]
    rfl
  | @conjunction sts items removed t u v hassert hquery hretract =>
    unfold conjunctionRule at hassert hquery hretract
    simp only [Act.askLine, Act.askAll, Act.collect, Act.runIn_bind, Act.newTransient,
      Act.runIn_ofRun, Act.runIn_numbering, Act.runIn_call, Act.runIn_orFail, Act.runIn_outcome,
      Act.runIn_ofExcept, Act.runIn_pure, hassert, hquery, hretract, Except.mapError]
    simp only [Line.statements]
    cases gather (Act.visibleNames sts) limit [] items <;> rfl

theorem Line.Streams.runIn_ask {e : Engine σ} {text : String} {l : Line} {S T : Session σ}
    {items : List Item} (hread : Line.read text = .ok l) (h : l.Streams e S items T) (n : Nat) :
    (Act.ask e text (some n)).runIn S =
      ((answersWithin n (distinctAnswers (Act.visibleNames l.statements) items)
        (firstFault? items)).mapError fun fault => Failure.ofFault fault l.display, T) := by
  have hline : (Act.readLine text : Act σ Line) = pure l := by
    unfold Act.readLine
    rw [hread]
    rfl
  have hall : distinctAnswers (Act.visibleNames l.statements) items =
      (((recordsOf items).map fun r => r.keep (Act.visibleNames l.statements).contains).filter
        fun r => !([] : List Record).contains r).eraseDups := by
    rw [List.filter_eq_self.2 (by simp)]
    rfl
  unfold Act.ask
  rw [hline, Act.runIn_bind, Act.runIn_pure, hall, ← gather_limited]
  exact h.runIn_askLine _

namespace Stage

/-- The texts of steps that depend on an answer, joined. -/
theorem joinAll_eq_mapM (f : Record → Act σ String) (rs : List Record) :
    joinAll f rs = do return String.join (← rs.mapM f) := by
  induction rs with
  | nil => rfl
  | cons r rs ih =>
    rw [joinAll, ih, List.mapM_cons]
    simp [String.join_cons]

variable (stage : Stage σ) (display : String → Record → Act σ String) {params : Record}
  {query : String} {l : Line} {S T : Session σ} {items : List Item}

/-- An `if` fails with the fault of the stream if there are not enough answers before it, and looks at
nothing but the first answer otherwise. -/
theorem runIn_branch_first (hread : Line.read query = .ok l) (h : l.Streams stage.engine S items T)
    (hk : 1 ≤ stage.settings.ifLimit) (context : Record) (bodyFor : Record → Act σ String)
    (otherwise : Act σ String) :
    (stage.branch .first query context bodyFor otherwise).runIn S =
      let answers := distinctAnswers (Act.visibleNames l.statements) items
      match if answers.length < stage.settings.ifLimit then firstFault? items else none, answers with
      | some fault, _ => (.error (.ofFault fault l.display), T)
      | none, [] => otherwise.runIn T
      | none, r :: _ => (bodyFor (context.overlay r)).runIn T := by
  unfold branch
  simp only [Act.runIn_bind, h.runIn_ask hread]
  generalize distinctAnswers (Act.visibleNames l.statements) items = answers
  unfold answersWithin
  by_cases hlength : answers.length < stage.settings.ifLimit
  · rw [if_neg (Nat.not_le.2 hlength), if_pos hlength]
    cases firstFault? items with
    | some fault => rfl
    | none => cases answers <;> rfl
  · rw [if_pos (Nat.not_lt.1 hlength), if_neg hlength]
    cases answers with
    | nil => exact absurd hk (by simpa using hlength)
    | cons r rs =>
      obtain ⟨k, hk⟩ := Nat.exists_eq_succ_of_ne_zero (Nat.one_le_iff_ne_zero.1 hk)
      rw [hk]
      rfl

/-- An `each` fails if there are too many answers, and then with the fault of the stream; otherwise it
goes through all answers. -/
theorem runIn_branch_each (hread : Line.read query = .ok l) (h : l.Streams stage.engine S items T)
    (hn : stage.settings.eachLimit < Limits.largest) (context : Record)
    (bodyFor : Record → Act σ String) (otherwise : Act σ String) :
    (stage.branch .each query context bodyFor otherwise).runIn S =
      let answers := distinctAnswers (Act.visibleNames l.statements) items
      if stage.settings.eachLimit < answers.length then
        (.error (.answerLimit query stage.settings.eachLimit), T)
      else
        match firstFault? items, answers with
        | some fault, _ => (.error (.ofFault fault l.display), T)
        | none, [] => otherwise.runIn T
        | none, answers =>
          (do return String.join (← answers.mapM fun r => bodyFor (context.overlay r))).runIn T := by
  have habove : Limits.above stage.settings.eachLimit = stage.settings.eachLimit + 1 :=
    Nat.min_eq_left hn
  unfold branch
  dsimp only
  rw [Act.runIn_bind, h.runIn_ask hread, habove]
  generalize distinctAnswers (Act.visibleNames l.statements) items = answers
  unfold answersWithin
  by_cases hlength : stage.settings.eachLimit < answers.length
  · have htaken : (answers.take (stage.settings.eachLimit + 1)).length =
        stage.settings.eachLimit + 1 := List.length_take_of_le hlength
    rw [if_pos (Nat.succ_le_of_lt hlength), if_pos hlength]
    simp only [Except.mapError, htaken]
    rw [if_pos (Nat.lt_succ_self _)]
    rfl
  · rw [if_neg fun h' => hlength (Nat.lt_of_succ_le h'), if_neg hlength]
    cases firstFault? items with
    | some fault => rfl
    | none =>
      simp only [Except.mapError]
      rw [if_neg hlength]
      cases answers with
      | nil => rfl
      | cons r rs => rw [if_neg (by simp), joinAll_eq_mapM]

/-- **What a branch does**, over an engine whose calls succeed: the query has a stream, and whatever it
is, its distinct records before the first fault, that fault and the limit decide. -/
theorem block_branch (he : stage.engine.Succeeds)
    (hread : Line.read (Placeholder.fillParams params query) = .ok l)
    (hl : ∀ head body, l ≠ .rule head body) (body : List Block) (alternative : Option (List Block))
    (context : Record) (S : Session σ) :
    (∃ items T, l.Streams stage.engine S items T) ∧
      ∀ items T, l.Streams stage.engine S items T →
        let answers := distinctAnswers (Act.visibleNames l.statements) items
        let bodyFor := fun r => stage.blocks display params body (context.overlay r)
        let otherwise := stage.blocks display params (alternative.getD []) context
        (1 ≤ stage.settings.ifLimit →
          (stage.block display params (.branch .first query body alternative) context).runIn S =
            match if answers.length < stage.settings.ifLimit then firstFault? items else none,
              answers with
            | some fault, _ => (.error (.ofFault fault l.display), T)
            | none, [] => otherwise.runIn T
            | none, r :: _ => (bodyFor r).runIn T) ∧
        (stage.settings.eachLimit < Limits.largest →
          (stage.block display params (.branch .each query body alternative) context).runIn S =
            if stage.settings.eachLimit < answers.length then
              (.error (.answerLimit (Placeholder.fillParams params query) stage.settings.eachLimit),
                T)
            else
              match firstFault? items, answers with
              | some fault, _ => (.error (.ofFault fault l.display), T)
              | none, [] => otherwise.runIn T
              | none, answers => (do return String.join (← answers.mapM bodyFor)).runIn T) := by
  refine ⟨he.exists_streams hl S, fun items T h => ?_⟩
  refine ⟨fun hk => ?_, fun hn => ?_⟩
  · rw [block_branch_eq]
    exact runIn_branch_first stage hread h hk context _ _
  · rw [block_branch_eq]
    exact runIn_branch_each stage hread h hn context _ _

end Stage

/-- A script without faults of calls. -/
theorem Script.succeeds (rounds : List (String × List (List Item))) :
    (Script.engine ⟨rounds, [], [], []⟩).Succeeds :=
  ⟨fun _ _ => rfl, fun _ _ => ⟨_, rfl⟩, fun _ _ => ⟨_, rfl⟩⟩

/-- Doors with their keys; the same door comes twice, and the stream breaks off after two doors. -/
def doorItems : List Item :=
  [.ok (.ofList [("x", .text "hall"), ("key", .int 1)]),
    .ok (.ofList [("x", .text "hall"), ("key", .int 2)]),
    .ok (.ofList [("x", .text "cellar"), ("key", .int 3)]), .error (.depth 7)]

/-- A stage over an engine that answers with these doors. -/
def doorStage : Stage (List String) :=
  ⟨Script.engine ⟨[("door %", [doorItems])], [], [], []⟩, .empty, { ifLimit := 2, eachLimit := 5 }⟩

/-- The question for doors. -/
def doorLine : Line := .claim ⟨["door", "%"], [.var "x"], false⟩

namespace Stage

theorem block_branch_doors :
    let block := fun kind => (doorStage.block (fun _ _ => pure "") .empty
      (.branch kind "door (x)" [.print "To the {x}."] none) .empty).runIn ⟨[], 0, 0⟩
    doorStage.engine.Succeeds ∧ Line.read (Placeholder.fillParams .empty "door (x)") = .ok doorLine ∧
      (∀ head body, doorLine ≠ .rule head body) ∧
      1 ≤ doorStage.settings.ifLimit ∧ doorStage.settings.eachLimit < Limits.largest ∧
      (block .first).1 = .ok "To the hall.\n" ∧ (block .each).1 = .error (.engine (.depth 7)) := by
  intro block
  have he : doorStage.engine.Succeeds := Script.succeeds _
  have hread : Line.read (Placeholder.fillParams .empty "door (x)") = .ok doorLine := by
    decide +kernel
  have hl : ∀ head body, doorLine ≠ .rule head body := fun _ _ h => by cases h
  have hk : 1 ≤ doorStage.settings.ifLimit := by decide
  have hn : doorStage.settings.eachLimit < Limits.largest := by decide
  have hstream : doorLine.Streams doorStage.engine ⟨[], 0, 0⟩ doorItems ⟨["door %"], 0, 0⟩ := by
    refine .claim (Prod.ext ?_ ?_) <;> decide +kernel
  obtain ⟨hfirst, heach⟩ := (block_branch doorStage (fun _ _ => pure "") he hread hl
    [.print "To the {x}."] none .empty ⟨[], 0, 0⟩).2 doorItems _ hstream
  exact ⟨he, hread, hl, hk, hn, (congrArg Prod.fst (hfirst hk)).trans (by decide +kernel),
    (congrArg Prod.fst (heach hn)).trans (by decide +kernel)⟩

end Stage
end PassageLogic
