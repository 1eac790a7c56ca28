import PassageLogic.Proofs.Session.Survival
import PassageLogic.Proofs.Render.Blocks

/-! # Rendering under raised limits

Four limits bound a rendering: the depth and the answers of the store, the answers that an `each` goes
through and the nesting of displays. Each of them only ever ends a rendering in a failure
(`render_raised`). An optional display is the exception, since it turns a failure into nothing. -/

namespace PassageLogic

/-- No limit is lower, and all else is the same. -/
structure Settings.RaisedTo (a b : Settings) : Prop where
  ifLimit : b.ifLimit = a.ifLimit
  strict : b.strict = a.strict
  escape : b.escape = a.escape
  eachLimit : a.eachLimit ≤ b.eachLimit
  displayDepth : a.displayDepth ≤ b.displayDepth

namespace Stage

open Act (Survives)

variable {shelf : Shelf} {a b : Settings} {display display' : String → Record → Act Store String}

/-! ### Commands and branches -/

theorem survives_joinAll {f g : Record → Act Store String} (h : ∀ r, Survives (f r) (g r))
    (rs : List Record) : Survives (joinAll f rs) (joinAll g rs) := by
  induction rs with
  | nil => exact .pure _
  | cons r rs ih => exact (h r).bind fun _ => ih.bind fun _ => .pure _

theorem survives_command
    (hd : ∀ target context, Survives (display target context) (display' target context))
    {context : Record} {verb : Verb} (hv : verb ≠ .displayIfPossible) (text : String) :
    Survives ((ofStore shelf a).command display context verb text)
      ((ofStore shelf b).command display' context verb text) := by
  cases verb with
  | run => exact (Survives.ofExcept _).bind fun l => (Survives.drain _).bind fun _ => .pure _
  | display => exact hd text context
  | displayIfPossible => exact absurd rfl hv
  | assert => exact (Survives.assertText text).bind fun _ => .pure _
  | retract => exact (Survives.retractText text).bind fun _ => .pure _
  | perform => exact (Survives.perform text).bind fun _ => .pure _

/-- **A branch survives**: an `each` fails if there are more answers than it goes through, and has the
same answers under a raised limit if there are not. -/
theorem survives_branch (hab : a.RaisedTo b) (kind : BranchKind) (query : String) {context : Record}
    {body body' : Record → Act Store String} (hbody : ∀ c, Survives (body c) (body' c))
    {alternative alternative' : Act Store String} (halt : Survives alternative alternative') :
    Survives ((ofStore shelf a).branch kind query context body alternative)
      ((ofStore shelf b).branch kind query context body' alternative') := by
  cases kind with
  | first =>
    unfold branch ofStore
    rw [hab.ifLimit]
    refine (Survives.ask query _).bind fun answers => ?_
    cases answers with
    | nil => exact halt
    | cons answer _ => exact hbody _
  | each =>
    intro S T h out S' hrun
    obtain ⟨answers, U, hask, hrest⟩ := Act.runIn_bind_eq_ok.1 hrun
    have hle : answers.length ≤ (ofStore shelf a).settings.eachLimit := by
      by_contra hlt
      rw [if_pos (Nat.not_le.1 hlt)] at hrest
      cases hrest
    have hle' : answers.length ≤ (ofStore shelf b).settings.eachLimit :=
      Nat.le_trans hle hab.eachLimit
    obtain ⟨V, hask', hUV⟩ := Act.ask_raised h (Act.sameUnder_above hle hab.eachLimit) hask
    have hend : Survives
        (if answers.isEmpty then alternative else joinAll (fun r => body (context.overlay r)) answers)
        (if answers.isEmpty then alternative' else
          joinAll (fun r => body' (context.overlay r)) answers) := by
      split
      · exact halt
      · exact survives_joinAll (fun r => hbody _) answers
    rw [if_neg (Nat.not_lt.2 hle)] at hrest
    obtain ⟨T', hrest', h'⟩ := hend U V hUV out S' hrest
    refine ⟨T', Act.runIn_bind_eq_ok.2 ⟨answers, V, hask', ?_⟩, h'⟩
    rw [if_neg (Nat.not_lt.2 hle')]
    exact hrest'

theorem related_survives (hab : a.RaisedTo b)
    (hd : ∀ target context, Survives (display target context) (display' target context)) :
    Related (ofStore shelf a) (ofStore shelf b) display display' (fun _ => True)
      (· ≠ .displayIfPossible) Survives where
  pure text := .pure text
  throw f := .throw f _
  append hx hy := hx.bind fun _ => hy.bind fun _ => .pure _
  command _ _ hv text := survives_command hd hv text
  branch kind query _ _ _ _ hbody _ _ halt :=
    survives_branch hab kind query (fun c => hbody c trivial) halt

/-! ### Templates -/

theorem survives_body (hab : a.RaisedTo b)
    (hshelf : ∀ p ∈ shelf.passages, .displayIfPossible ∉ Template.verbs a.escape p.body)
    {room room' : Nat} (hroom : room ≤ room') {text : String}
    (htext : .displayIfPossible ∉ Template.verbs a.escape text) (params : Record) :
    Survives ((ofStore shelf a).body room text params) ((ofStore shelf b).body room' text params) := by
  have hverbs : ∀ {t : String}, .displayIfPossible ∉ Template.verbs a.escape t →
      ∀ v ∈ Template.verbs a.escape t, v ≠ .displayIfPossible := fun ht v hv he => ht (he ▸ hv)
  induction room generalizing room' text params with
  | zero =>
    -- the first display fails here, whatever it is there
    have hd : ∀ display' : String → Record → Act Store String, Survives
        ((ofStore shelf a).template (fun _ _ => throw (.displayDepth a.displayDepth)) text params)
        ((ofStore shelf b).template display' text params) := fun display' =>
      (related_survives hab fun _ _ => .throw _ _).template hab.escape hab.strict
        (hverbs htext) trivial
    cases room' with
    | zero => exact hd _
    | succ k => exact hd _
  | succ room ih =>
    obtain ⟨k, rfl⟩ := Nat.exists_eq_add_of_le' hroom
    refine (related_survives hab fun target context => ?_).template hab.escape hab.strict
      (hverbs htext) trivial
    cases hf : (ofStore shelf a).shelf.find? target context with
    | none =>
      rw [find_bind_of_none hf]
      exact .throw _ _
    | some found =>
      have hf' : (ofStore shelf b).shelf.find? target context = some found := hf
      rw [find_bind_of_some hf, find_bind_of_some hf']
      obtain ⟨⟨p, hp, hbody⟩, -⟩ := Shelf.mem_of_find? hf
      exact ih (Nat.le_add_left _ _) (hbody ▸ hshelf p hp) _

end Stage

/-- **Limits turn results into failures and never change them.** If no template has an optional
display, then what is rendered without a failure is rendered under raised limits, and the clauses are
the same after it. -/
theorem render_raised {S T S' : Session Store} {shelf : Shelf} {a b : Settings} {text out : String}
    {params : Record} (hST : S.RaisedTo T) (hab : a.RaisedTo b)
    (htext : .displayIfPossible ∉ Template.verbs a.escape text)
    (hshelf : ∀ p ∈ shelf.passages, .displayIfPossible ∉ Template.verbs a.escape p.body)
    (h : ((Stage.ofStore shelf a).render text params).runIn S = (.ok out, S')) :
    ∃ T', ((Stage.ofStore shelf b).render text params).runIn T = (.ok out, T') ∧
      T'.engine.clauses = S'.engine.clauses := by
  obtain ⟨T', hrun, h'⟩ :=
    Stage.survives_body hab hshelf hab.displayDepth htext params S T hST out S' h
  exact ⟨T', hrun, h'.engine.clauses⟩

/-- A store that knows of two lights. -/
def lightStore (limits : Limits) : Store where
  limits := limits
  clauses :=
    [.fact (.of "lit %" [.const (.text "lamp")]), .fact (.of "lit %" [.const (.text "torch")])]

/-- A passage that lists the lights. -/
def lightShelf : Shelf := ⟨[⟨"lights", "\\each lit (x)\n{x}\n\\end"⟩], []⟩

theorem render_raised_lights :
    (⟨lightStore ⟨1, 2⟩, 0, 0⟩ : Session Store).RaisedTo ⟨lightStore ⟨8, 30⟩, 0, 0⟩ ∧
      ∃ T', ((Stage.ofStore lightShelf { eachLimit := 9, displayDepth := 4 }).render
        "\\display lights" .empty).runIn ⟨lightStore ⟨8, 30⟩, 0, 0⟩ =
          (.ok "lamp\ntorch\n", T') ∧ T'.engine.clauses = (lightStore ⟨1, 2⟩).clauses := by
  have hST : (⟨lightStore ⟨1, 2⟩, 0, 0⟩ : Session Store).RaisedTo ⟨lightStore ⟨8, 30⟩, 0, 0⟩ :=
    ⟨⟨rfl, by decide, by decide⟩, rfl, rfl⟩
  have hab : Settings.RaisedTo { eachLimit := 2, displayDepth := 1 }
      { eachLimit := 9, displayDepth := 4 } := ⟨rfl, rfl, rfl, by decide, by decide⟩
  have htext : .displayIfPossible ∉ Template.verbs '\\' "\\display lights" := by decide +kernel
  have hshelf : ∀ p ∈ lightShelf.passages, .displayIfPossible ∉ Template.verbs '\\' p.body := by
    decide +kernel
  have hout : (((Stage.ofStore lightShelf { eachLimit := 2, displayDepth := 1 }).render
      "\\display lights" .empty).runIn ⟨lightStore ⟨1, 2⟩, 0, 0⟩).1 = .ok "lamp\ntorch\n" := by
    decide +kernel
  have hclauses : (((Stage.ofStore lightShelf { eachLimit := 2, displayDepth := 1 }).render
      "\\display lights" .empty).runIn ⟨lightStore ⟨1, 2⟩, 0, 0⟩).2.engine.clauses =
        (lightStore ⟨1, 2⟩).clauses := by
    decide +kernel
  generalize hrun : ((Stage.ofStore lightShelf { eachLimit := 2, displayDepth := 1 }).render
      "\\display lights" .empty).runIn ⟨lightStore ⟨1, 2⟩, 0, 0⟩ = run at hout hclauses
  obtain ⟨result, S'⟩ := run
  cases hout
  obtain ⟨T', hrun', hc⟩ := render_raised hST hab htext hshelf hrun
  exact ⟨hST, T', hrun', hc.trans hclauses⟩

end PassageLogic
