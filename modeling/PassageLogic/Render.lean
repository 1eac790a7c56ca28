import PassageLogic.Session.Perform
import PassageLogic.Passage
import PassageLogic.Settings

/-! # Rendering

Blocks are rendered one after the other, each with the effects of those before it. Printed lines are
filled from the context, which starts as the parameters of the passage and grows by the answers of the
branches around a line; command lines are filled from the parameters alone. A displayed passage is
rendered with its context as parameters. The number of displays around a passage is bounded. The
first failure ends the rendering; only an optional display turns a failure into nothing. -/

namespace PassageLogic

/-- What a rendering works with: the engine, the passages and the settings. -/
structure Stage (σ : Type) where
  engine : Engine σ
  shelf : Shelf
  settings : Settings

/-- The line that also demands the values of a context: an equation for every entry comes first. Rules
are left as they are. -/
def Line.constrained (context : Record) (l : Line) : Line :=
  let equations := context.entries.map fun e => Statement.equation e.1 e.2.display
  if context.isEmpty then l
  else
    match l with
    | .claim st => .conjunction (equations ++ [st])
    | .conjunction sts => .conjunction (equations ++ sts)
    | .rule head body => .rule head body

namespace Stage

variable {σ : Type}

/-- The passage that a target names. -/
def find (stage : Stage σ) (target : String) (context : Record) : Act σ Found :=
  match stage.shelf.find? target context with
  | some found => pure found
  | none => throw (.passageNotFound (Shelf.nameOf target context))

/-- Texts of steps that depend on an answer, one after the other. -/
def joinAll (f : Record → Act σ String) : List Record → Act σ String
  | [] => pure ""
  | r :: rs => do
    let text ← f r
    return text ++ (← joinAll f rs)

/-- Carry out a command with its text filled in; `display` renders a passage. -/
def command (stage : Stage σ) (display : String → Record → Act σ String) (context : Record) :
    Verb → String → Act σ String
  | .run, text => do
    let l ← Act.readLine text
    let _ ← Act.drain stage.engine (l.constrained context)
    return ""
  | .display, text => display text context
  | .displayIfPossible, text => do
    match ← Act.outcome (display text context) with
    | .ok shown => return shown
    | .error _ => return ""
  | .assert, text => do
    Act.assertText stage.engine text
    return ""
  | .retract, text => do
    Act.retractText stage.engine text
    return ""
  | .perform, text => do
    let _ ← Act.perform stage.engine text
    return ""

/-- Render the body of a branch for its answers, or the alternative if there are none. -/
def branch (stage : Stage σ) (kind : BranchKind) (query : String) (context : Record)
    (body : Record → Act σ String) (alternative : Act σ String) : Act σ String :=
  match kind with
  | .first => do
    match ← Act.ask stage.engine query (some stage.settings.ifLimit) with
    | answer :: _ => body (context.overlay answer)
    | [] => alternative
  | .each => do
    let limit := stage.settings.eachLimit
    let answers ← Act.ask stage.engine query (some (Limits.above limit))
    if limit < answers.length then throw (.answerLimit query limit)
    else if answers.isEmpty then alternative
    else joinAll (fun answer => body (context.overlay answer)) answers

mutual

/-- Render a block of a passage with these parameters in a context. -/
def block (stage : Stage σ) (display : String → Record → Act σ String) (params : Record) :
    Block → Record → Act σ String
  | .print text, context => pure (Placeholder.fillLine context text ++ "\n")
  | .command verb text, context =>
    command stage display context verb (Placeholder.fillParams params text)
  | .branch kind query body none, context =>
    branch stage kind (Placeholder.fillParams params query) context
      (blocks stage display params body) (pure "")
  | .branch kind query body (some alternative), context =>
    branch stage kind (Placeholder.fillParams params query) context
      (blocks stage display params body) (blocks stage display params alternative context)

/-- Render blocks in order. -/
def blocks (stage : Stage σ) (display : String → Record → Act σ String) (params : Record) :
    List Block → Record → Act σ String
  | [], _ => pure ""
  | b :: bs, context => do
    let text ← block stage display params b context
    return text ++ (← blocks stage display params bs context)

end

/-- Render a template with these parameters. -/
def template (stage : Stage σ) (display : String → Record → Act σ String) (body : String)
    (params : Record) : Act σ String := do
  let bs ← Act.ofExcept <|
    (Template.read stage.settings.escape stage.settings.strict body).mapError Failure.template
  blocks stage display params bs params

/-- Render a template around which `room` more displays may be nested. -/
def body (stage : Stage σ) : Nat → String → Record → Act σ String
  | 0 => template stage fun _ _ => throw (.displayDepth stage.settings.displayDepth)
  | room + 1 => template stage fun target context => do
    let found ← stage.find target context
    body stage room found.body found.context

/-- Render a template; the parameters are its first context. -/
def render (stage : Stage σ) (text : String) (params : Record) : Act σ String :=
  stage.body stage.settings.displayDepth text params

/-- Render the passage that a target names. -/
def renderPassage (stage : Stage σ) (target : String) (params : Record) : Act σ String := do
  let found ← stage.find target params
  stage.body stage.settings.displayDepth found.body found.context

end Stage
end PassageLogic
