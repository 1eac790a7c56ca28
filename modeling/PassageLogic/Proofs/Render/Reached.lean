import PassageLogic.Proofs.Render.Recursion
import Mathlib.Logic.Relation
import PassageLogic.Proofs.Session.Reads
import PassageLogic.Proofs.Template.Unfilled

/-! # Parameters and contexts

Command lines are filled from the parameters of a passage and printed lines from the context, to which every
branch adds its answers. A parameter has the same value in both at every block that a rendering reaches,
unless the query of a branch leaves it open (`Stage.reached_agrees`): a query that fits its parameters leaves
none open. The blocks that are reached are those to which a task leads by steps (`Stage.Leads`), through
branches as through displayed passages; the parameters of these are other ones, and agree with the context
at first, for it is the same record. -/

namespace PassageLogic

/-- The parameter has no value, or the context gives the same one to its name. -/
def Frame.Agrees (frame : Frame) (context : Record) (x : String) : Prop :=
  ∀ v, frame.params.get? x = some v → context.get? x = some v

namespace Frame.Agrees

variable {frame : Frame} {context answer : Record} {x : String}

/-- An answer that gives no value to the parameters changes none of them. -/
theorem overlay (h : frame.Agrees context x)
    (hanswer : frame.params.contains x = true → answer.get? x = none) :
    frame.Agrees (context.overlay answer) x := by
  intro v hv
  rw [Record.get?_overlay, hanswer (Option.isSome_of_eq_some hv), Option.none_or]
  exact h v hv

end Frame.Agrees

namespace Task

/-- The parameter agrees with the context of the task, and stays so with any of its answers. -/
def Agrees (x : String) : Task → Prop
  | .body _ _ _ => True
  | .blocks frame _ context => frame.Agrees context x
  | .block frame _ context => frame.Agrees context x
  | .each frame _ context answers =>
    frame.Agrees context x ∧ ∀ answer ∈ answers, frame.params.contains x = true → answer.get? x = none
  | .display _ _ _ => True

/-- If the task is a branch, its query and the parameters are related by `P`. -/
def Asks (P : Record → String → Prop) : Task → Prop
  | .block frame (.branch _ query _ _) _ => P frame.params query
  | _ => True

end Task

namespace Stage

variable {σ : Type} (stage : Stage σ)

/-- A task leads to another one, which is rendered as a part of it from the session in which that begins. -/
inductive Leads : Task × Session σ → Task × Session σ → Prop
  | body {d text params bs S}
      (hread : Template.read stage.settings.escape stage.settings.strict text = .ok bs) :
      Leads (.body d text params, S) (.blocks ⟨params, d⟩ bs params, S)
  | head {frame b bs context S} :
      Leads (.blocks frame (b :: bs) context, S) (.block frame b context, S)
  | tail {frame b bs context S text T}
      (hhead : (stage.act (.block frame b context)).runIn S = (.ok text, T)) :
      Leads (.blocks frame (b :: bs) context, S) (.blocks frame bs context, T)
  | display {frame text context S} :
      Leads (.block frame (.command .display text) context, S)
        (.display frame.depth (Placeholder.fillParams frame.params text) context, S)
  | displayIfPossible {frame text context S} :
      Leads (.block frame (.command .displayIfPossible text) context, S)
        (.display frame.depth (Placeholder.fillParams frame.params text) context, S)
  | alternative {frame kind query bs alternative context S T}
      (hask : (Act.ask stage.engine (Placeholder.fillParams frame.params query)
        (some (stage.branchLimit kind))).runIn S = (.ok [], T)) :
      Leads (.block frame (.branch kind query bs alternative) context, S)
        (.blocks frame (alternative.getD []) context, T)
  | first {frame query bs alternative context S answer answers T}
      (hask : (Act.ask stage.engine (Placeholder.fillParams frame.params query)
        (some (stage.branchLimit .first))).runIn S = (.ok (answer :: answers), T)) :
      Leads (.block frame (.branch .first query bs alternative) context, S)
        (.blocks frame bs (context.overlay answer), T)
  | each {frame query bs alternative context S answers T}
      (hask : (Act.ask stage.engine (Placeholder.fillParams frame.params query)
        (some (stage.branchLimit .each))).runIn S = (.ok answers, T))
      (hlimit : answers.length ≤ stage.settings.eachLimit) :
      Leads (.block frame (.branch .each query bs alternative) context, S)
        (.each frame bs context answers, T)
  | eachHead {frame bs context answer answers S} :
      Leads (.each frame bs context (answer :: answers), S)
        (.blocks frame bs (context.overlay answer), S)
  | eachTail {frame bs context answer answers S text T}
      (hhead : (stage.act (.blocks frame bs (context.overlay answer))).runIn S = (.ok text, T)) :
      Leads (.each frame bs context (answer :: answers), S) (.each frame bs context answers, T)
  | shown {d target context found S} (hdepth : d < stage.settings.displayDepth)
      (hfind : stage.shelf.find? target context = some found) :
      Leads (.display d target context, S) (.body (d + 1) found.body found.context, S)

/-- The task is reached when a template with these parameters is rendered in this session. -/
def Reached (text : String) (params : Record) (S : Session σ) (task : Task) : Prop :=
  ∃ T, Relation.ReflTransGen stage.Leads (.body 0 text params, S) (task, T)

variable {stage} {x : String} {a b : Task × Session σ}

/-! ### Agreement -/

/-- The answers to a query that does not leave a parameter open give no value to it. -/
theorem get?_answer_eq_none {params : Record} {query : String} {limit : Option Nat} {S T : Session σ}
    {answers : List Record}
    (hask : (Act.ask stage.engine (Placeholder.fillParams params query) limit).runIn S = (.ok answers, T))
    (hopen : params.contains x = true → ¬ params.LeavesOpen query x) :
    ∀ answer ∈ answers, params.contains x = true → answer.get? x = none := by
  intro answer hanswer hx
  obtain ⟨l, hread, hnames⟩ := Act.names_of_ask hask
  refine lookup_eq_none_of_ne fun entry hentry he => hopen hx ⟨l, hread, ?_⟩
  rw [he]
  exact hnames answer hanswer entry hentry

/-- **One step keeps the agreement**, unless it is a branch that leaves the parameter open. -/
theorem Leads.agrees (h : stage.Leads a b) (hagrees : a.1.Agrees x)
    (hasks : a.1.Asks fun params query => params.contains x = true → ¬ params.LeavesOpen query x) :
    b.1.Agrees x := by
  cases h with
  | body => exact fun v hv => hv
  | head => exact hagrees
  | tail => exact hagrees
  | display => trivial
  | displayIfPossible => trivial
  | alternative => exact hagrees
  | first hask =>
    have hnone := get?_answer_eq_none hask hasks
    exact Frame.Agrees.overlay hagrees (hnone _ List.mem_cons_self)
  | each hask => exact ⟨hagrees, get?_answer_eq_none hask hasks⟩
  | eachHead => exact hagrees.1.overlay (hagrees.2 _ List.mem_cons_self)
  | eachTail => exact ⟨hagrees.1, fun answer hm => hagrees.2 answer (List.mem_cons_of_mem _ hm)⟩
  | shown => trivial

/-- **Every task that is reached keeps it**, if no branch on the way leaves the parameter open. -/
theorem Reached.agrees {text : String} {params : Record} {S : Session σ} {task : Task}
    (hasks : ∀ task, stage.Reached text params S task → task.Asks fun params query =>
      params.contains x = true → ¬ params.LeavesOpen query x)
    (h : stage.Reached text params S task) : task.Agrees x := by
  obtain ⟨T, h⟩ := h
  generalize hb : (task, T) = b at h
  have hagrees : b.1.Agrees x := by
    clear hb
    induction h with
    | refl => trivial
    | tail h hstep ih => exact hstep.agrees ih (hasks _ ⟨_, h⟩)
  rwa [← hb] at hagrees

end Stage

/-! ### The queries of a template -/

namespace Block

mutual

/-- The queries of the branches in a block. -/
def queries : Block → List String
  | .print _ => []
  | .command _ _ => []
  | .branch _ query body none => query :: listQueries body
  | .branch _ query body (some alternative) =>
    query :: (listQueries body ++ listQueries alternative)

/-- The queries of the branches in blocks. -/
def listQueries : List Block → List String
  | [] => []
  | b :: bs => queries b ++ listQueries bs

end

variable {kind : BranchKind} {query : String} {body : List Block} {alternative : Option (List Block)}

theorem mem_queries_branch {q : String} : q ∈ (branch kind query body alternative).queries ↔
    q = query ∨ q ∈ listQueries body ∨ q ∈ listQueries (alternative.getD []) := by
  cases alternative <;> simp [queries, listQueries]

end Block

namespace Stage

variable {σ : Type} (stage : Stage σ)

/-- The queries that are written in the task are related to its parameters by `P`. -/
def Writes (P : Record → String → Prop) : Task → Prop
  | .body _ text params => ∀ bs,
    Template.read stage.settings.escape stage.settings.strict text = .ok bs →
      ∀ q ∈ Block.listQueries bs, P params q
  | .blocks frame bs _ => ∀ q ∈ Block.listQueries bs, P frame.params q
  | .block frame b _ => ∀ q ∈ b.queries, P frame.params q
  | .each frame bs _ _ => ∀ q ∈ Block.listQueries bs, P frame.params q
  | .display _ _ _ => True

variable {stage} {P : Record → String → Prop} {a b : Task × Session σ}

theorem Leads.writes (h : stage.Leads a b) (ha : stage.Writes P a.1)
    (hshelf : ∀ target context found, stage.shelf.find? target context = some found → ∀ d,
      stage.Writes P (.body d found.body found.context)) : stage.Writes P b.1 := by
  cases h with
  | body hread => exact ha _ hread
  | head => exact fun q hq => ha q (List.mem_append_left _ hq)
  | tail => exact fun q hq => ha q (List.mem_append_right _ hq)
  | display => trivial
  | displayIfPossible => trivial
  | alternative => exact fun q hq => ha q (Block.mem_queries_branch.2 (.inr (.inr hq)))
  | first => exact fun q hq => ha q (Block.mem_queries_branch.2 (.inr (.inl hq)))
  | each => exact fun q hq => ha q (Block.mem_queries_branch.2 (.inr (.inl hq)))
  | eachHead => exact ha
  | eachTail => exact ha
  | shown hdepth hfind => exact hshelf _ _ _ hfind _

/-- **What the queries of a template and of all passages fulfil, the branches that are reached do.** -/
theorem Reached.asks {text : String} {params : Record} {S : Session σ} {task : Task}
    (h : stage.Reached text params S task) (htext : stage.Writes P (.body 0 text params))
    (hshelf : ∀ target context found, stage.shelf.find? target context = some found → ∀ d,
      stage.Writes P (.body d found.body found.context)) : task.Asks P := by
  obtain ⟨T, h⟩ := h
  generalize hb : (task, T) = b at h
  have hwrites : stage.Writes P b.1 := by
    clear hb
    induction h with
    | refl => exact htext
    | tail _ hstep ih => exact hstep.writes ih hshelf
  rw [← hb] at hwrites
  cases task with
  | block frame b context =>
    cases b with
    | branch => exact hwrites _ (Block.mem_queries_branch.2 (.inl rfl))
    | print | command => trivial
  | body | blocks | each | display => trivial

/-- **A parameter has one value on printed lines and on command lines.** At each block that is reached, in
the template or in a displayed passage, the context gives to a parameter the value that it has, if no branch
that is reached leaves that parameter open. A query that fits its parameters leaves none of them open. -/
theorem reached_agrees (stage : Stage σ) :
    (∀ text params S x,
      (∀ frame kind query body alternative context,
        stage.Reached text params S (.block frame (.branch kind query body alternative) context) →
          frame.params.contains x = true → ¬ frame.params.LeavesOpen query x) →
      ∀ frame b context, stage.Reached text params S (.block frame b context) →
        ∀ v, frame.params.get? x = some v → context.get? x = some v) ∧
    ∀ (params : Record) query, params.Fits query →
      ∀ x, params.contains x = true → ¬ params.LeavesOpen query x := by
  refine ⟨fun text params S x hbranches frame b context h => ?_, fun _ _ h _ => h.not_leavesOpen⟩
  refine Reached.agrees (fun task htask => ?_) h
  cases task with
  | block frame b context =>
    cases b with
    | branch kind query body alternative => exact hbranches _ _ _ _ _ _ htask
    | print | command => trivial
  | body | blocks | each | display => trivial

/-- Nothing is on the shelf. -/
def emptyStage : Stage Store := ofStore .empty {}

/-- A store that knows of two rooms. -/
def twoRooms : Session Store :=
  ⟨⟨⟨4, 9⟩, [.fact (.of "in % %" [.const (.text "sam"), .const (.text "hall")]),
    .fact (.of "in % %" [.const (.text "sam"), .const (.text "yard")])]⟩, 0, 0⟩

/-- The parameter is the second room. -/
def yardValues : Record := .ofList [("room", .text "yard")]

/-- With blanks in its parentheses the name of the parameter is a variable, and no placeholder. -/
theorem reached_blanks : ∃ frame context,
    emptyStage.Reached "\\if in \"sam\" ( room )\n\x7broom\x7d\n\\end" yardValues twoRooms
      (.block frame (.print "\x7broom\x7d") context) ∧
    frame.params.get? "room" = some (.text "yard") ∧ context.get? "room" = some (.text "hall") := by
  have hread : Template.readStrict '\\' "\\if in \"sam\" ( room )\n\x7broom\x7d\n\\end" =
      .ok [.branch .first "in \"sam\" ( room )" [.print "\x7broom\x7d"] none] :=
    Template.readStrict_eq_ok_iff.2 (by decide +kernel)
  have hask : ((Act.ask emptyStage.engine (Placeholder.fillParams yardValues "in \"sam\" ( room )")
      (some (emptyStage.branchLimit .first))).runIn twoRooms).1 =
        .ok [.ofList [("room", .text "hall")]] := by decide +kernel
  exact ⟨⟨yardValues, 0⟩, _, ⟨_, (((Relation.ReflTransGen.single
    (.body (Template.read_of_readStrict false hread))).tail .head).tail
    (.first (Prod.ext hask rfl))).tail .head⟩, by decide +kernel, by decide +kernel⟩

/-- Both variables of the query are written as placeholders. -/
theorem fits_yardValues : yardValues.Fits "in (who) (room)" where
  quotable := by decide +kernel
  standFree := by decide +kernel
  tight := by
    intro inside h _ _
    have hafter (cs s : List Char) (hcs : ')' ∉ cs) :
        Reading.Spells inside ('(' :: (cs ++ ')' :: s)) → inside = cs ∨ Reading.Spells inside s :=
      fun h => (Reading.spells_delimited rfl hcs h).imp_left And.right
    have hin := Reading.spells_char rfl (Reading.spells_char rfl (Reading.spells_char rfl h))
    rcases hafter ['w', 'h', 'o'] [' ', '(', 'r', 'o', 'o', 'm', ')'] (by decide) hin with rfl | hin
    · exact ⟨by decide, List.all_eq_true.1 (by decide)⟩
    · rcases hafter ['r', 'o', 'o', 'm'] [] (by decide) (Reading.spells_char rfl hin) with rfl | hin
      · exact ⟨by decide, List.all_eq_true.1 (by decide)⟩
      · cases hin

theorem reached_agrees_yard :
    let reached := emptyStage.Reached "\\each in (who) (room)\n\x7bwho\x7d\n\\end" yardValues twoRooms
    (∀ frame kind query body alternative context,
      reached (.block frame (.branch kind query body alternative) context) →
        frame.params.contains "room" = true → ¬ frame.params.LeavesOpen query "room") ∧
    yardValues.Fits "in (who) (room)" ∧ ¬ yardValues.LeavesOpen "in (who) (room)" "room" ∧
    ∃ frame context, reached (.block frame (.print "\x7bwho\x7d") context) ∧
      context.get? "who" = some (.text "sam") ∧ frame.params.get? "room" = some (.text "yard") ∧
      context.get? "room" = some (.text "yard") := by
  intro reached
  have hread : Template.readStrict '\\' "\\each in (who) (room)\n\x7bwho\x7d\n\\end" =
      .ok [.branch .each "in (who) (room)" [.print "\x7bwho\x7d"] none] :=
    Template.readStrict_eq_ok_iff.2 (by decide +kernel)
  have hask : ((Act.ask emptyStage.engine (Placeholder.fillParams yardValues "in (who) (room)")
      (some (emptyStage.branchLimit .each))).runIn twoRooms).1 =
        .ok [.ofList [("who", .text "sam")]] := by decide +kernel
  obtain ⟨hagrees, hfits⟩ := reached_agrees emptyStage
  have hbranches : ∀ frame kind query body alternative context,
      reached (.block frame (.branch kind query body alternative) context) →
        frame.params.contains "room" = true → ¬ frame.params.LeavesOpen query "room" := by
    intro frame kind query body alternative context h
    refine hfits _ _ (h.asks (P := Record.Fits) ?_ fun _ _ _ hfind => by cases hfind) "room"
    intro bs hbs q hq
    cases (Template.read_of_readStrict false hread).symm.trans hbs
    obtain rfl : q = "in (who) (room)" := by simpa [Block.listQueries, Block.queries] using hq
    exact fits_yardValues
  have hprint : ∃ frame context, reached (.block frame (.print "\x7bwho\x7d") context) ∧
      context.get? "who" = some (.text "sam") ∧ frame.params.get? "room" = some (.text "yard") :=
    ⟨⟨yardValues, 0⟩, _, ⟨_, ((((Relation.ReflTransGen.single
      (.body (Template.read_of_readStrict false hread))).tail .head).tail
      (.each (Prod.ext hask rfl) (by decide))).tail .eachHead).tail .head⟩, by decide +kernel,
      by decide +kernel⟩
  obtain ⟨frame, context, h, hwho, hroom⟩ := hprint
  exact ⟨hbranches, fits_yardValues, hfits _ _ fits_yardValues "room" (by decide +kernel), frame,
    context, h, hwho, hroom, hagrees _ _ _ "room" hbranches frame _ context h _ hroom⟩

end Stage
end PassageLogic
