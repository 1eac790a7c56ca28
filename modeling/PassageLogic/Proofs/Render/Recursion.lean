import PassageLogic.Proofs.Render.Sequence
import PassageLogic.Proofs.Template.Parameters

/-! # Displays within displays

A displayed passage may display others, and itself. `Stage.Renders` are the rules by which a rendering
runs, with the number of displays around each passage counted up; nothing in the rules says that this
comes to an end. It does: every rendering has a derivation, with no more displays inside each other than
there may be, and its outcome is that of the rendering (`Stage.renders_body_iff`).

So passages that display each other cannot be rendered: if the body of each passage of a set displays one
of the set outside all branches, then all of them fail (`Stage.Cycle.fails_body`). Optional displays do
not help, for the failure of the other display remains. -/

namespace PassageLogic

/-- The parameters of a passage that is rendered, and the number of displays around it. -/
structure Frame where
  params : Record
  depth : Nat

/-- What there is to render. -/
inductive Task where
  | body (depth : Nat) (text : String) (params : Record)
  | blocks (frame : Frame) (bs : List Block) (context : Record)
  | block (frame : Frame) (b : Block) (context : Record)
  /-- Blocks for each answer in turn. -/
  | each (frame : Frame) (bs : List Block) (context : Record) (answers : List Record)
  | display (depth : Nat) (target : String) (context : Record)

namespace Act

variable {σ α β : Type}

/-- The step fails in every session. -/
def Fails (x : Act σ α) : Prop := ∀ S, ∃ failure, (x.runIn S).1 = .error failure

theorem Fails.bind_left {x : Act σ α} (h : Fails x) {f : α → Act σ β} : Fails (x >>= f) := by
  intro S
  obtain ⟨failure, hx⟩ := h S
  rw [runIn_bind]
  rcases hrun : x.runIn S with ⟨_ | a, T⟩
  · exact ⟨_, rfl⟩
  · rw [hrun] at hx
    cases hx

theorem Fails.bind_right {x : Act σ α} {f : α → Act σ β} (h : ∀ a, Fails (f a)) : Fails (x >>= f) := by
  intro S
  rw [runIn_bind]
  rcases x.runIn S with ⟨_ | a, T⟩
  · exact ⟨_, rfl⟩
  · exact h a T

theorem fails_throw (failure : Failure) : Fails (throw failure : Act σ α) := fun _ => ⟨failure, rfl⟩

end Act

namespace Stage

variable {σ : Type} (stage : Stage σ)

/-- The most answers that a branch asks for. -/
def branchLimit : BranchKind → Nat
  | .first => stage.settings.ifLimit
  | .each => Limits.above stage.settings.eachLimit

/-- The rules of rendering: from a session a task has an outcome and leaves another session. The number
bounds how many passages are displayed inside each other on the way. -/
inductive Renders : Nat → Task → Session σ → Except Failure String → Session σ → Prop
  | misformed {k d text params p S}
      (hread : Template.read stage.settings.escape stage.settings.strict text = .error p) :
      Renders k (.body d text params) S (.error (.template p)) S
  | body {k d text params bs S r T}
      (hread : Template.read stage.settings.escape stage.settings.strict text = .ok bs)
      (h : Renders k (.blocks ⟨params, d⟩ bs params) S r T) : Renders k (.body d text params) S r T
  | nil {k frame context S} : Renders k (.blocks frame [] context) S (.ok "") S
  | failed {k frame b bs context S failure T}
      (h : Renders k (.block frame b context) S (.error failure) T) :
      Renders k (.blocks frame (b :: bs) context) S (.error failure) T
  | cons {k frame b bs context S text T r U} (h : Renders k (.block frame b context) S (.ok text) T)
      (hrest : Renders k (.blocks frame bs context) T r U) :
      Renders k (.blocks frame (b :: bs) context) S (r.map (text ++ ·)) U
  | print {k frame text context S} :
      Renders k (.block frame (.print text) context) S
        (.ok (Placeholder.fillLine context text ++ "\n")) S
  /-- A command that does the same however passages are displayed. -/
  | command {k frame verb text context S r T}
      (h : ∀ display, (stage.command display context verb
        (Placeholder.fillParams frame.params text)).runIn S = (r, T)) :
      Renders k (.block frame (.command verb text) context) S r T
  | display {k frame text context S r T}
      (h : Renders k (.display frame.depth (Placeholder.fillParams frame.params text) context) S r T) :
      Renders k (.block frame (.command .display text) context) S r T
  | displayIfPossible {k frame text context S r T}
      (h : Renders k (.display frame.depth (Placeholder.fillParams frame.params text) context) S r T) :
      Renders k (.block frame (.command .displayIfPossible text) context) S
        (.ok (r.toOption.getD "")) T
  | unanswered {k frame kind query bs alternative context S failure T}
      (hask : (Act.ask stage.engine (Placeholder.fillParams frame.params query)
        (some (stage.branchLimit kind))).runIn S = (.error failure, T)) :
      Renders k (.block frame (.branch kind query bs alternative) context) S (.error failure) T
  | alternative {k frame kind query bs alternative context S T r U}
      (hask : (Act.ask stage.engine (Placeholder.fillParams frame.params query)
        (some (stage.branchLimit kind))).runIn S = (.ok [], T))
      (h : Renders k (.blocks frame (alternative.getD []) context) T r U) :
      Renders k (.block frame (.branch kind query bs alternative) context) S r U
  | first {k frame query bs alternative context S answer answers T r U}
      (hask : (Act.ask stage.engine (Placeholder.fillParams frame.params query)
        (some (stage.branchLimit .first))).runIn S = (.ok (answer :: answers), T))
      (h : Renders k (.blocks frame bs (context.overlay answer)) T r U) :
      Renders k (.block frame (.branch .first query bs alternative) context) S r U
  | tooMany {k frame query bs alternative context S answers T}
      (hask : (Act.ask stage.engine (Placeholder.fillParams frame.params query)
        (some (stage.branchLimit .each))).runIn S = (.ok answers, T))
      (hlimit : stage.settings.eachLimit < answers.length) :
      Renders k (.block frame (.branch .each query bs alternative) context) S
        (.error (.answerLimit (Placeholder.fillParams frame.params query) stage.settings.eachLimit)) T
  | each {k frame query bs alternative context S answers T r U}
      (hask : (Act.ask stage.engine (Placeholder.fillParams frame.params query)
        (some (stage.branchLimit .each))).runIn S = (.ok answers, T))
      (hsome : answers ≠ []) (hlimit : answers.length ≤ stage.settings.eachLimit)
      (h : Renders k (.each frame bs context answers) T r U) :
      Renders k (.block frame (.branch .each query bs alternative) context) S r U
  | eachNil {k frame bs context S} : Renders k (.each frame bs context []) S (.ok "") S
  | eachFailed {k frame bs context answer answers S failure T}
      (h : Renders k (.blocks frame bs (context.overlay answer)) S (.error failure) T) :
      Renders k (.each frame bs context (answer :: answers)) S (.error failure) T
  | eachCons {k frame bs context answer answers S text T r U}
      (h : Renders k (.blocks frame bs (context.overlay answer)) S (.ok text) T)
      (hrest : Renders k (.each frame bs context answers) T r U) :
      Renders k (.each frame bs context (answer :: answers)) S (r.map (text ++ ·)) U
  | tooDeep {k d target context S} (hdepth : stage.settings.displayDepth ≤ d) :
      Renders k (.display d target context) S (.error (.displayDepth stage.settings.displayDepth)) S
  | missing {k d target context S} (hdepth : d < stage.settings.displayDepth)
      (hfind : stage.shelf.find? target context = none) :
      Renders k (.display d target context) S
        (.error (.passageNotFound (Shelf.nameOf target context))) S
  | shown {k d target context found S r T} (hdepth : d < stage.settings.displayDepth)
      (hfind : stage.shelf.find? target context = some found)
      (h : Renders k (.body (d + 1) found.body found.context) S r T) :
      Renders (k + 1) (.display d target context) S r T

/-! ### The outcome of a derivation -/

/-- A display with this many displays around it. -/
def displayAt (depth : Nat) (target : String) (context : Record) : Act σ String :=
  if stage.settings.displayDepth ≤ depth then throw (.displayDepth stage.settings.displayDepth)
  else do
    let found ← stage.find target context
    stage.body (stage.settings.displayDepth - (depth + 1)) found.body found.context

theorem displayAt_of_le {depth : Nat} (h : stage.settings.displayDepth ≤ depth) (target : String)
    (context : Record) : stage.displayAt depth target context =
      throw (.displayDepth stage.settings.displayDepth) :=
  if_pos h

theorem displayAt_of_lt {depth : Nat} (h : depth < stage.settings.displayDepth) (target : String)
    (context : Record) : stage.displayAt depth target context = (do
      let found ← stage.find target context
      stage.body (stage.settings.displayDepth - (depth + 1)) found.body found.context) :=
  if_neg (Nat.not_le.2 h)

/-- The room that is left is counted down while the displays are counted up. -/
theorem body_eq_template (depth : Nat) : stage.body (stage.settings.displayDepth - depth) =
    stage.template (stage.displayAt depth) := by
  by_cases h : stage.settings.displayDepth ≤ depth
  · rw [Nat.sub_eq_zero_of_le h, body, funext₂ (stage.displayAt_of_le h)]
  · have hroom : stage.settings.displayDepth - depth =
        stage.settings.displayDepth - (depth + 1) + 1 := by omega
    rw [hroom, body, funext₂ (stage.displayAt_of_lt (Nat.not_le.1 h))]

/-- What a task does. -/
def act : Task → Act σ String
  | .body depth text params => stage.body (stage.settings.displayDepth - depth) text params
  | .blocks frame bs context =>
    stage.blocks (stage.displayAt frame.depth) frame.params bs context
  | .block frame b context => stage.block (stage.displayAt frame.depth) frame.params b context
  | .each frame bs context answers => joinAll (fun answer =>
    stage.blocks (stage.displayAt frame.depth) frame.params bs (context.overlay answer)) answers
  | .display depth target context => stage.displayAt depth target context

variable {stage}

/-- Texts of steps one after the other, up to the first failure. -/
theorem runIn_append (x y : Act σ String) (S : Session σ) :
    (do return (← x) ++ (← y) : Act σ String).runIn S =
      match x.runIn S with
      | (.error failure, T) => (.error failure, T)
      | (.ok text, T) => ((y.runIn T).1.map (text ++ ·), (y.runIn T).2) := by
  rw [Act.runIn_bind]
  rcases x.runIn S with ⟨_ | text, T⟩
  · rfl
  · simp only []
    rw [Act.runIn_bind]
    rcases y.runIn T with ⟨_ | more, U⟩ <;> rfl

theorem blocks_cons (display : String → Record → Act σ String) (params : Record) (b : Block)
    (bs : List Block) (context : Record) : stage.blocks display params (b :: bs) context =
      do return (← stage.block display params b context) ++
        (← stage.blocks display params bs context) := by
  rw [blocks]

theorem runIn_branch (kind : BranchKind) (query : String) (context : Record)
    (bodyFor : Record → Act σ String) (otherwise : Act σ String) (S : Session σ) :
    (stage.branch kind query context bodyFor otherwise).runIn S =
      match (Act.ask stage.engine query (some (stage.branchLimit kind))).runIn S with
      | (.error failure, T) => (.error failure, T)
      | (.ok [], T) => otherwise.runIn T
      | (.ok (answer :: answers), T) =>
        match kind with
        | .first => (bodyFor (context.overlay answer)).runIn T
        | .each =>
          if stage.settings.eachLimit < (answer :: answers).length then
            (.error (.answerLimit query stage.settings.eachLimit), T)
          else (joinAll (fun a => bodyFor (context.overlay a)) (answer :: answers)).runIn T := by
  cases kind with
  | first =>
    rw [branch, Act.runIn_bind, branchLimit]
    rcases Act.runIn _ S with ⟨_ | _ | ⟨answer, answers⟩, T⟩ <;> rfl
  | each =>
    dsimp only [branch, branchLimit]
    rw [Act.runIn_bind]
    rcases Act.runIn _ S with ⟨_ | _ | ⟨answer, answers⟩, T⟩
    · rfl
    · rfl
    · simp only []
      split <;> rfl

/-- **A derivation gives what the task does.** -/
theorem Renders.runIn {k : Nat} {task : Task} {S T : Session σ} {r : Except Failure String}
    (h : stage.Renders k task S r T) : (stage.act task).runIn S = (r, T) := by
  induction h with
  | misformed hread =>
    rw [act, body_eq_template, template, hread]
    rfl
  | body hread h ih =>
    rw [act, body_eq_template, template, hread]
    exact ih
  | nil => rfl
  | failed h ih =>
    simp only [act] at ih ⊢
    rw [blocks_cons, runIn_append, ih]
  | cons h hrest ih ih' =>
    simp only [act] at ih ih' ⊢
    rw [blocks_cons, runIn_append, ih]
    simp only [ih']
  | print => rfl
  | command h => exact h _
  | display h ih => exact ih
  | @displayIfPossible k frame text context S r T h ih =>
    simp only [act] at ih ⊢
    show (stage.command _ context .displayIfPossible _).runIn S = _
    rw [Stage.command, Act.runIn_bind, Act.runIn_outcome, ih]
    cases r <;> rfl
  | unanswered hask =>
    rw [act, block_branch_eq, runIn_branch, hask]
  | alternative hask h ih =>
    rw [act, block_branch_eq, runIn_branch, hask]
    exact ih
  | first hask h ih =>
    rw [act, block_branch_eq, runIn_branch, hask]
    exact ih
  | @tooMany k frame query bs alternative context S answers T hask hlimit =>
    rw [act, block_branch_eq, runIn_branch, hask]
    cases answers with
    | nil => cases hlimit
    | cons answer answers => exact if_pos hlimit
  | @each k frame query bs alternative context S answers T r U hask hsome hlimit h ih =>
    rw [act, block_branch_eq, runIn_branch, hask]
    cases answers with
    | nil => exact absurd rfl hsome
    | cons answer answers =>
      simp only []
      rw [if_neg (Nat.not_lt.2 hlimit)]
      exact ih
  | eachNil => rfl
  | eachFailed h ih =>
    simp only [act] at ih ⊢
    rw [joinAll, runIn_append, ih]
  | eachCons h hrest ih ih' =>
    simp only [act] at ih ih' ⊢
    rw [joinAll, runIn_append, ih]
    simp only [ih']
  | tooDeep hdepth =>
    rw [act, stage.displayAt_of_le hdepth]
    rfl
  | missing hdepth hfind =>
    rw [act, stage.displayAt_of_lt hdepth, find_bind_of_none hfind]
    rfl
  | shown hdepth hfind h ih =>
    rw [act, stage.displayAt_of_lt hdepth, find_bind_of_some hfind]
    exact ih

/-! ### Every rendering ends -/

variable (stage) in
/-- In every session the task has a derivation with no more displays inside each other. -/
def Ends (k : Nat) (task : Task) : Prop := ∀ S, ∃ r T, stage.Renders k task S r T

variable {k : Nat} {frame : Frame}

theorem ends_each {bs : List Block} {context : Record}
    (h : ∀ answer, stage.Ends k (.blocks frame bs (context.overlay answer))) (answers : List Record) :
    stage.Ends k (.each frame bs context answers) := by
  induction answers with
  | nil => exact fun S => ⟨_, _, .eachNil⟩
  | cons answer answers ih =>
    intro S
    obtain ⟨r, T, hfirst⟩ := h answer S
    cases r with
    | error failure => exact ⟨_, _, .eachFailed hfirst⟩
    | ok text =>
      obtain ⟨r, U, hrest⟩ := ih T
      exact ⟨_, _, .eachCons hfirst hrest⟩

/-- What the branch asks for decides which of its rules applies. -/
theorem ends_branch {kind : BranchKind} {query : String} {bs : List Block}
    {alternative : Option (List Block)} {context : Record}
    (hbody : ∀ context, stage.Ends k (.blocks frame bs context))
    (halternative : stage.Ends k (.blocks frame (alternative.getD []) context)) :
    stage.Ends k (.block frame (.branch kind query bs alternative) context) := by
  intro S
  rcases hask : (Act.ask stage.engine (Placeholder.fillParams frame.params query)
    (some (stage.branchLimit kind))).runIn S with ⟨_ | _ | ⟨answer, answers⟩, T⟩
  · exact ⟨_, _, .unanswered hask⟩
  · obtain ⟨r, U, h⟩ := halternative T
    exact ⟨r, U, .alternative hask h⟩
  · cases kind with
    | first =>
      obtain ⟨r, U, h⟩ := hbody (context.overlay answer) T
      exact ⟨r, U, .first hask h⟩
    | each =>
      by_cases hlimit : stage.settings.eachLimit < (answer :: answers).length
      · exact ⟨_, _, .tooMany hask hlimit⟩
      · obtain ⟨r, U, h⟩ := ends_each (fun a => hbody (context.overlay a)) (answer :: answers) T
        exact ⟨r, U, .each hask (List.cons_ne_nil _ _) (Nat.not_lt.1 hlimit) h⟩

/-- Only the two displays depend on how passages are displayed. -/
theorem display_or_command_eq (verb : Verb) : verb = .display ∨ verb = .displayIfPossible ∨
    ∀ display display' context text,
      stage.command display context verb text = stage.command display' context verb text := by
  cases verb with
  | display => exact .inl rfl
  | displayIfPossible => exact .inr (.inl rfl)
  | run | assert | retract | perform => exact .inr (.inr fun _ _ _ _ => rfl)

theorem ends_command (hdisplay : ∀ target context, stage.Ends k (.display frame.depth target context))
    (verb : Verb) (text : String) (context : Record) :
    stage.Ends k (.block frame (.command verb text) context) := by
  intro S
  obtain ⟨r, T, h⟩ := hdisplay (Placeholder.fillParams frame.params text) context S
  rcases stage.display_or_command_eq verb with rfl | rfl | hsame
  · exact ⟨r, T, .display h⟩
  · exact ⟨_, T, .displayIfPossible h⟩
  · have hrun (display : String → Record → Act σ String) := congrArg (·.runIn S)
      (hsame display (fun _ _ => pure "") context (Placeholder.fillParams frame.params text))
    exact ⟨_, _, .command hrun⟩

mutual

theorem ends_block (hdisplay : ∀ target context, stage.Ends k (.display frame.depth target context)) :
    ∀ (b : Block) (context : Record), stage.Ends k (.block frame b context)
  | .print _, _ => fun _ => ⟨_, _, .print⟩
  | .command verb text, context => ends_command hdisplay verb text context
  | .branch _ _ bs none, _ => ends_branch (ends_blocks hdisplay bs) fun _ => ⟨_, _, .nil⟩
  | .branch _ _ bs (some alternative), context =>
    ends_branch (ends_blocks hdisplay bs) (ends_blocks hdisplay alternative context)

/-- Blocks end if displays end. -/
theorem ends_blocks (hdisplay : ∀ target context, stage.Ends k (.display frame.depth target context)) :
    ∀ (bs : List Block) (context : Record), stage.Ends k (.blocks frame bs context)
  | [], _ => fun _ => ⟨_, _, .nil⟩
  | b :: bs, context => fun S => by
    obtain ⟨r, T, h⟩ := ends_block hdisplay b context S
    cases r with
    | error failure => exact ⟨_, _, .failed h⟩
    | ok text =>
      obtain ⟨r, U, hrest⟩ := ends_blocks hdisplay bs context T
      exact ⟨_, _, .cons h hrest⟩

end

/-- A template ends if the displays in it end. -/
theorem ends_body_of_display {depth : Nat}
    (hdisplay : ∀ target context, stage.Ends k (.display depth target context)) (text : String)
    (params : Record) : stage.Ends k (.body depth text params) := by
  intro S
  cases hread : Template.read stage.settings.escape stage.settings.strict text with
  | error p => exact ⟨_, _, .misformed hread⟩
  | ok bs =>
    have hblocks : stage.Ends k (.blocks ⟨params, depth⟩ bs params) := ends_blocks hdisplay bs params
    obtain ⟨r, T, h⟩ := hblocks S
    exact ⟨r, T, .body hread h⟩

/-- **Displays end.** The induction is on how many more may be nested. -/
theorem ends_display {depth : Nat} (hk : stage.settings.displayDepth ≤ depth + k) (target : String)
    (context : Record) : stage.Ends k (.display depth target context) := by
  induction k generalizing depth target context with
  | zero => exact fun S => ⟨_, _, .tooDeep hk⟩
  | succ k ih =>
    intro S
    by_cases hdepth : stage.settings.displayDepth ≤ depth
    · exact ⟨_, _, .tooDeep hdepth⟩
    · have hlt := Nat.not_le.1 hdepth
      cases hfind : stage.shelf.find? target context with
      | none => exact ⟨_, _, .missing hlt hfind⟩
      | some found =>
        have hbody : stage.Ends k (.body (depth + 1) found.body found.context) :=
          ends_body_of_display (ih (by omega)) found.body found.context
        obtain ⟨r, T, h⟩ := hbody S
        exact ⟨r, T, .shown hlt hfind h⟩

/-- **Every rendering has a derivation, and what it gives is the outcome of the rendering.** There are
never more displays inside each other than there may be. -/
theorem renders_body_iff {text : String} {params : Record} {S T : Session σ}
    {r : Except Failure String} :
    stage.Renders stage.settings.displayDepth (.body 0 text params) S r T ↔
      (stage.render text params).runIn S = (r, T) := by
  constructor
  · exact fun h => h.runIn
  · intro hrun
    obtain ⟨r', T', h⟩ := ends_body_of_display
      (ends_display (Nat.le_add_left _ 0)) text params S
    have heq : (r', T') = (r, T) := h.runIn.symm.trans hrun
    cases heq
    exact h

/-! ### Passages that display each other -/

/-- Names of stored passages, trimmed and without a placeholder, such that each body has a display of one
of them outside all branches, and not an optional one. -/
structure Cycle (stage : Stage σ) (K : String → Prop) : Prop where
  trimmed : ∀ name, K name → Text.trimmed name = name
  plain : ∀ name, K name → '(' ∉ name.toList
  displays : ∀ name, K name → ∃ p, stage.shelf.get? name = some p ∧ ∃ next, K next ∧
    ∀ bs, Template.read stage.settings.escape stage.settings.strict p.body = .ok bs →
      .command .display next ∈ bs

theorem fails_blocks {display : String → Record → Act σ String} {params context : Record} {b : Block}
    {bs : List Block} (hb : b ∈ bs) (h : (stage.block display params b context).Fails) :
    (stage.blocks display params bs context).Fails := by
  induction bs with
  | nil => cases hb
  | cons b' bs ih =>
    rw [blocks_cons]
    rcases List.mem_cons.1 hb with rfl | hb
    · exact h.bind_left
    · exact Act.Fails.bind_right fun _ => (ih hb).bind_left

namespace Cycle

variable {K : String → Prop} (h : stage.Cycle K)
include h

/-- A name of the cycle names its passage in every context. -/
theorem find?_eq {name : String} (hname : K name) {p : Passage}
    (hp : stage.shelf.get? name = some p) (context : Record) :
    ∃ found, stage.shelf.find? name context = some found ∧ found.body = p.body := by
  have hnameOf : Shelf.nameOf name context = name := by
    rw [Shelf.nameOf, h.trimmed name hname, Placeholder.fillParams_of_no_opening (h.plain name hname)]
  refine ⟨⟨name, p.body, (stage.shelf.contexts.lookup name).getD context⟩, ?_, rfl⟩
  unfold Shelf.find?
  simp only [hnameOf, hp, Option.map_some]

/-- The body of a passage of a cycle fails if the displays of all its names do. -/
theorem fails_template {name : String} (hname : K name) {p : Passage}
    (hp : stage.shelf.get? name = some p) {display : String → Record → Act σ String}
    (hdisplay : ∀ next, K next → ∀ context, (display next context).Fails) (params : Record) :
    (stage.template display p.body params).Fails := by
  obtain ⟨p', hp', next, hnext, hdisplays⟩ := h.displays name hname
  obtain rfl : p = p' := Option.some.inj (hp.symm.trans hp')
  unfold template
  cases hread : Template.read stage.settings.escape stage.settings.strict p.body with
  | error problem => exact Act.fails_throw _
  | ok bs =>
    refine fails_blocks (hdisplays bs hread) ?_
    show (display (Placeholder.fillParams params next) params).Fails
    rw [Placeholder.fillParams_of_no_opening (h.plain next hnext)]
    exact hdisplay next hnext params

/-- **The body of a passage of a cycle fails**, with any room for displays: the induction is on the
room, and without room the display itself fails. -/
theorem fails_body (room : Nat) {name : String} (hname : K name) {p : Passage}
    (hp : stage.shelf.get? name = some p) (params : Record) : (stage.body room p.body params).Fails := by
  induction room generalizing name p params with
  | zero => exact h.fails_template hname hp (fun _ _ _ => Act.fails_throw _) params
  | succ room ih =>
    refine h.fails_template hname hp (fun next hnext context => ?_) params
    obtain ⟨q, hq, -⟩ := h.displays next hnext
    obtain ⟨found, hfound, hbody⟩ := h.find?_eq hnext hq context
    rw [find_bind_of_some hfound, hbody]
    exact ih hnext hq found.context

end Cycle

/-- **Displays come to an end, and passages that display each other fail.** Every rendering has a
derivation, its outcome is what the derivation gives, and there are never more displays inside each
other than there may be. To render a passage of a cycle fails with any parameters in any session. -/
theorem displays_end (stage : Stage σ) :
    (∀ text params S r T, stage.Renders stage.settings.displayDepth (.body 0 text params) S r T ↔
      (stage.render text params).runIn S = (r, T)) ∧
    (∀ target params found, stage.shelf.find? target params = some found → ∀ S r T,
      stage.Renders stage.settings.displayDepth (.body 0 found.body found.context) S r T ↔
        (stage.renderPassage target params).runIn S = (r, T)) ∧
    ∀ K : String → Prop, stage.Cycle K → ∀ name, K name → ∀ params S,
      ∃ failure, ((stage.renderPassage name params).runIn S).1 = .error failure := by
  refine ⟨fun _ _ _ _ _ => renders_body_iff, fun target params found hfound S r T => ?_,
    fun K h name hname params => ?_⟩
  · rw [renderPassage, find_bind_of_some hfound]
    exact renders_body_iff
  · obtain ⟨p, hp, -⟩ := h.displays name hname
    obtain ⟨found, hfound, hbody⟩ := h.find?_eq hname hp params
    rw [renderPassage, find_bind_of_some hfound, hbody]
    exact h.fails_body _ hname hp found.context

/-- A passage that displays another one, if it can and then in any case. -/
def mirror (name other : String) : Passage :=
  ⟨name, "\\display? " ++ other ++ "\nA mirror.\n\\display " ++ other⟩

/-- Two passages that display each other. -/
def mirrorStage : Stage Store := ofStore (.ofList [mirror "left" "right", mirror "right" "left"]) {}

theorem displays_end_mirror :
    mirrorStage.Cycle (fun name => name = "left" ∨ name = "right") ∧
      ∃ failure, ((mirrorStage.renderPassage "left" .empty).runIn ⟨.empty {}, 0, 0⟩).1 =
        .error failure := by
  have hleft : Template.readStrict '\\' (mirror "left" "right").body =
      .ok [.command .displayIfPossible "right", .print "A mirror.", .command .display "right"] :=
    Template.readStrict_eq_ok_iff.2 (by decide +kernel)
  have hright : Template.readStrict '\\' (mirror "right" "left").body =
      .ok [.command .displayIfPossible "left", .print "A mirror.", .command .display "left"] :=
    Template.readStrict_eq_ok_iff.2 (by decide +kernel)
  have hcycle : mirrorStage.Cycle (fun name => name = "left" ∨ name = "right") := by
    refine ⟨?_, ?_, ?_⟩
    · rintro name (rfl | rfl) <;> decide +kernel
    · rintro name (rfl | rfl) <;> decide
    · rintro name (rfl | rfl)
      · refine ⟨mirror "left" "right", by decide +kernel, "right", .inr rfl, fun bs hbs => ?_⟩
        cases (Template.read_of_readStrict false hleft).symm.trans hbs
        simp
      · refine ⟨mirror "right" "left", by decide +kernel, "left", .inl rfl, fun bs hbs => ?_⟩
        cases (Template.read_of_readStrict false hright).symm.trans hbs
        simp
  exact ⟨hcycle, (displays_end mirrorStage).2.2 _ hcycle "left" (.inl rfl) .empty _⟩

end Stage
end PassageLogic
