import PassageLogic.Logic.Store
import PassageLogic.Render
import PassageLogic.Proofs.Template.Commands

/-! # Two renderings of the same blocks

`Related` says what two stages have to do alike so that they render the same template alike: each
command and each branch on its own. What the blocks of a template hold is then rendered alike, in their
order and at any depth (`Related.blocks`, `Related.template`). The contexts that occur can be narrowed
down, and the commands. -/

namespace PassageLogic

namespace Stage

/-- The stage over a store. -/
def ofStore (shelf : Shelf) (settings : Settings) : Stage Store := ⟨Store.engine, shelf, settings⟩

variable {σ τ : Type}

/-- Two stages with their displays, the contexts and commands that occur, and a relation of the steps of
the one to the steps of the other that holds of commands and branches and is kept in sequence. -/
structure Related (stage : Stage σ) (stage' : Stage τ) (display : String → Record → Act σ String)
    (display' : String → Record → Act τ String) (C : Record → Prop) (p : Verb → Prop)
    (R : Act σ String → Act τ String → Prop) : Prop where
  /-- Text without a step. -/
  pure : ∀ text, R (pure text) (pure text)
  /-- A failure. -/
  throw : ∀ f, R (throw f) (throw f)
  /-- Texts one after the other. -/
  append : ∀ {x x' y y'}, R x x' → R y y' →
    R (do return (← x) ++ (← y)) (do return (← x') ++ (← y'))
  /-- A command. -/
  command : ∀ {context}, C context → ∀ {verb}, p verb → ∀ text,
    R (stage.command display context verb text) (stage'.command display' context verb text)
  /-- A branch. -/
  branch : ∀ kind query {context}, C context → ∀ {body body'}, (∀ c, C c → R (body c) (body' c)) →
    ∀ {alternative alternative'}, R alternative alternative' →
      R (stage.branch kind query context body alternative)
        (stage'.branch kind query context body' alternative')

namespace Related

variable {stage : Stage σ} {stage' : Stage τ} {display : String → Record → Act σ String}
  {display' : String → Record → Act τ String} {C : Record → Prop} {p : Verb → Prop}
  {R : Act σ String → Act τ String → Prop} (h : Related stage stage' display display' C p R)
include h

mutual

theorem block (params : Record) : ∀ (b : Block), b.Only p → ∀ context, C context →
    R (stage.block display params b context) (stage'.block display' params b context)
  | .print _, _, _, _ => h.pure _
  | .command _ _, hb, _, hc => h.command hc (Block.only_command.1 hb) _
  | .branch kind _ body none, hb, _, hc =>
    h.branch kind _ hc (blocks params body (Block.only_branch.1 hb).1) (h.pure _)
  | .branch kind _ body (some alternative), hb, context, hc =>
    h.branch kind _ hc (blocks params body (Block.only_branch.1 hb).1)
      (blocks params alternative ((Block.only_branch.1 hb).2 _ rfl) context hc)

/-- **Blocks are rendered alike.** -/
theorem blocks (params : Record) : ∀ (bs : List Block), (∀ b ∈ bs, b.Only p) →
    ∀ context, C context →
      R (stage.blocks display params bs context) (stage'.blocks display' params bs context)
  | [], _, _, _ => h.pure _
  | b :: bs, hbs, context, hc =>
    h.append (block params b (hbs b List.mem_cons_self) context hc)
      (blocks params bs (fun c hcs => hbs c (List.mem_cons_of_mem _ hcs)) context hc)

end

/-- **A template is rendered alike.** -/
theorem template (he : stage'.settings.escape = stage.settings.escape)
    (hs : stage'.settings.strict = stage.settings.strict) {body : String}
    (hbody : ∀ v ∈ Template.verbs stage.settings.escape body, p v) {params : Record}
    (hparams : C params) :
    R (stage.template display body params) (stage'.template display' body params) := by
  unfold Stage.template
  rw [he, hs]
  cases hread : Template.read stage.settings.escape stage.settings.strict body with
  | error f => exact h.throw (.template f)
  | ok bs => exact h.blocks params bs (Template.only_of_read hread hbody) params hparams

end Related

/-- A branch without an alternative renders no blocks in its place. -/
theorem block_branch_eq (stage : Stage σ) (display : String → Record → Act σ String)
    (params : Record) (kind : BranchKind) (query : String) (body : List Block)
    (alternative : Option (List Block)) (context : Record) :
    stage.block display params (.branch kind query body alternative) context =
      stage.branch kind (Placeholder.fillParams params query) context
        (stage.blocks display params body)
        (stage.blocks display params (alternative.getD []) context) := by
  cases alternative <;> rfl

/-! ### Displays -/

section Find
variable {α : Type} {stage : Stage σ} {target : String} {context : Record}

theorem find_bind_of_some {found : Found} (h : stage.shelf.find? target context = some found)
    (f : Found → Act σ α) : (stage.find target context >>= f) = f found := by
  unfold find
  rw [h]
  rfl

theorem find_bind_of_none (h : stage.shelf.find? target context = none) (f : Found → Act σ α) :
    (stage.find target context >>= f) =
      throw (.passageNotFound (Shelf.nameOf target context)) := by
  unfold find
  rw [h]
  rfl

end Find

end Stage

/-- A passage that was found is on the shelf; its context is its own or the one it was asked for in. -/
theorem Shelf.mem_of_find? {shelf : Shelf} {target : String} {context : Record} {found : Found}
    (h : shelf.find? target context = some found) :
    (∃ p ∈ shelf.passages, p.body = found.body) ∧
      (found.context = context ∨ ∃ name, (name, found.context) ∈ shelf.contexts) := by
  unfold find? get? at h
  obtain ⟨p, hp, rfl⟩ := Option.map_eq_some_iff.1 h
  refine ⟨⟨p, List.mem_of_find?_eq_some hp, rfl⟩, ?_⟩
  simp only []
  cases hl : shelf.contexts.lookup (nameOf target context) with
  | none => exact .inl rfl
  | some c =>
    obtain ⟨before, after, hs, -⟩ := List.lookup_eq_some_iff.1 hl
    exact .inr ⟨_, hs ▸ List.mem_append_right _ List.mem_cons_self⟩

end PassageLogic
