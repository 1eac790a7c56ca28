import PassageLogic.Proofs.Render.Sequence
import PassageLogic.Proofs.Template.Refilling

/-! # A passage that is displayed

A body of one line that displays a passage is rendered like the passage itself, with one display less
around it (`Stage.render_display`). What is left over is the number in the failure of displays that are
nested too deeply: `Act.AlikeButDepth` compares steps without it.

The name of the passage is filled twice on the way, as the text of a command and as a target, and only
once when the passage is rendered by its name. So a value that holds a parameter of its own names
another passage (`Stage.render_display_twice`). -/

namespace PassageLogic

/-- The failure without the number of displays that may be nested. -/
def Failure.withoutDepth : Failure → Failure
  | .displayDepth _ => .displayDepth 0
  | failure => failure

/-! ### Steps that end alike -/

namespace Act

variable {σ α β : Type} {x y : Act σ α} {f g : α → Act σ β}

/-- The steps leave the same session, and they have the same result or fail alike, but for the number of
displays that may be nested. -/
def AlikeButDepth (x y : Act σ α) : Prop := ∀ S, (x.runIn S).2 = (y.runIn S).2 ∧
  (x.runIn S).1.mapError Failure.withoutDepth = (y.runIn S).1.mapError Failure.withoutDepth

namespace AlikeButDepth

theorem refl (x : Act σ α) : AlikeButDepth x x := fun _ => ⟨rfl, rfl⟩

theorem bind (h : AlikeButDepth x y) (hf : ∀ a, AlikeButDepth (f a) (g a)) :
    AlikeButDepth (x >>= f) (y >>= g) := by
  intro S
  obtain ⟨hsession, hresult⟩ := h S
  rw [runIn_bind, runIn_bind]
  generalize x.runIn S = r at hsession hresult
  generalize y.runIn S = r' at hsession hresult
  obtain ⟨result, T⟩ := r
  obtain ⟨result', T'⟩ := r'
  obtain rfl : T = T' := hsession
  cases result with
  | error failure =>
    cases result' with
    | error failure' =>
      refine ⟨rfl, ?_⟩
      have hfailure : Failure.withoutDepth failure = Failure.withoutDepth failure' :=
        Except.error.inj hresult
      exact congrArg Except.error hfailure
    | ok a => cases hresult
  | ok a =>
    cases result' with
    | error failure => cases hresult
    | ok a' =>
      obtain rfl : a = a' := Except.ok.inj hresult
      exact hf a T

/-- What depends on the outcome of a step, but not on that number. -/
theorem outcome_bind {f g : Except Failure α → Act σ β} (h : AlikeButDepth x y)
    (hf : ∀ r r', r.mapError Failure.withoutDepth = r'.mapError Failure.withoutDepth →
      AlikeButDepth (f r) (g r')) :
    AlikeButDepth (outcome x >>= f) (outcome y >>= g) := by
  intro S
  obtain ⟨hsession, hresult⟩ := h S
  rw [runIn_bind, runIn_bind, runIn_outcome, runIn_outcome, hsession]
  exact hf _ _ hresult _

theorem ite {p : Prop} [Decidable p] {x' y' : Act σ α} (hx : AlikeButDepth x x')
    (hy : AlikeButDepth y y') : AlikeButDepth (if p then x else y) (if p then x' else y') := by
  split
  · exact hx
  · exact hy

end AlikeButDepth
end Act

/-! ### Rendering under another number of displays -/

namespace Stage

open Act (AlikeButDepth)

variable {σ : Type} {stage : Stage σ} {display display' : String → Record → Act σ String}

/-- The stage on which this many displays may be nested. -/
def withDepth (stage : Stage σ) (depth : Nat) : Stage σ :=
  { stage with settings := { stage.settings with displayDepth := depth } }

theorem alikeButDepth_joinAll {f g : Record → Act σ String} (h : ∀ r, AlikeButDepth (f r) (g r))
    (rs : List Record) : AlikeButDepth (joinAll f rs) (joinAll g rs) := by
  induction rs with
  | nil => exact .refl _
  | cons r rs ih => exact (h r).bind fun _ => ih.bind fun _ => .refl _

theorem related_withDepth (depth depth' : Nat)
    (hd : ∀ target context, AlikeButDepth (display target context) (display' target context)) :
    Related (stage.withDepth depth) (stage.withDepth depth') display display' (fun _ => True)
      (fun _ => True) AlikeButDepth where
  pure _ := .refl _
  throw _ := .refl _
  append hx hy := hx.bind fun _ => hy.bind fun _ => .refl _
  command {context} _ verb _ text := by
    cases verb with
    | display => exact hd text context
    | displayIfPossible =>
      refine (hd text context).outcome_bind fun r r' hr => ?_
      cases r with
      | ok shown =>
        cases r' with
        | ok shown' =>
          cases hr
          exact .refl _
        | error failure => cases hr
      | error failure =>
        cases r' with
        | ok shown => cases hr
        | error failure' => exact .refl _
    | run => exact .refl _
    | assert => exact .refl _
    | retract => exact .refl _
    | perform => exact .refl _
  branch kind query context _ body body' hbody alternative alternative' halt := by
    cases kind with
    | first =>
      refine (AlikeButDepth.refl _).bind fun answers => ?_
      cases answers with
      | nil => exact halt
      | cons answer _ => exact hbody _ trivial
    | each =>
      refine (AlikeButDepth.refl _).bind fun answers => ?_
      exact .ite (.refl _) (.ite halt (alikeButDepth_joinAll (fun r => hbody _ trivial) answers))

/-- **With as much room a body is rendered alike**, however many displays there may be in all. -/
theorem alikeButDepth_body (depth depth' room : Nat) (text : String) (params : Record) :
    AlikeButDepth ((stage.withDepth depth).body room text params)
      ((stage.withDepth depth').body room text params) := by
  induction room generalizing text params with
  | zero =>
    have hthrow : AlikeButDepth (throw (.displayDepth depth) : Act σ String)
        (throw (.displayDepth depth')) := fun _ => ⟨rfl, rfl⟩
    exact (related_withDepth depth depth' fun _ _ => hthrow).template rfl rfl
      (fun _ _ => trivial) trivial
  | succ room ih =>
    refine (related_withDepth depth depth' fun target context => ?_).template rfl rfl
      (fun _ _ => trivial) trivial
    exact (AlikeButDepth.refl _).bind fun found => ih found.body found.context

/-! ### A body that displays one passage -/

/-- The body of one line that displays a passage. -/
def displaying (escape : Char) (target : String) : String :=
  String.singleton escape ++ "display " ++ target

theorem readStrict_displaying {escape : Char} {target : String}
    (hline : '\n' ∉ (displaying escape target).toList) :
    Template.readStrict escape (displaying escape target) =
      .ok [.command .display (Text.trimmed target)] := by
  have htext : (displaying escape target).toList =
      escape :: (Verb.display.word.toList ++ ' ' :: target.toList) := by
    simp [displaying, Verb.word]
  have hgives : SourceLine.Gives escape (displaying escape target).toList Verb.display.word
      (Text.trimmed target) := by
    refine ⟨' ' :: target.toList, htext, fun c hc => ?_, Text.toList_trimmed target⟩
    cases hc
    rfl
  have hne : (displaying escape target).toList ≠ [] := by
    rw [htext]
    exact List.cons_ne_nil _ _
  rw [Template.readStrict_eq_ok_iff, SourceLine.readAll, Text.lines_of_not_mem hline hne,
    List.map_singleton, (SourceLine.Says.command hgives).read_eq]
  rfl

/-- A single block is rendered as it is. -/
theorem blocks_singleton (params : Record) (b : Block) (context : Record) :
    stage.blocks display params [b] context = stage.block display params b context := by
  simp [blocks]

/-- A target that was filled names the same passage if no value in it holds a parameter. -/
theorem nameOf_fillParams {params : Record} {target : String}
    (h : ∀ e ∈ params.entries, Placeholder.Holds (fun n => n == e.1) (Text.trimmed target).toList →
      ¬ Placeholder.Holds params.contains e.2.display.toList) :
    Shelf.nameOf (Placeholder.fillParams params (Text.trimmed target)) params =
      Shelf.nameOf target params := by
  have htrimmed : Text.IsTrimmed (Placeholder.fillParams params (Text.trimmed target)).toList := by
    refine Placeholder.isTrimmed_fillParams ?_
    rw [Text.toList_trimmed]
    exact Text.isTrimmed_trim _
  have hsame : Text.trimmed (Placeholder.fillParams params (Text.trimmed target)) =
      Placeholder.fillParams params (Text.trimmed target) := by
    rw [← String.toList_inj, Text.toList_trimmed, htrimmed.trim_eq]
  unfold Shelf.nameOf
  rw [hsame, Placeholder.fillParams_twice h]

/-- **To display a passage and to render it are the same**, but for the one display: a body of one line
that displays a passage gives what the passage gives by its name, or fails alike, and leaves the same
session. No value that the name has a placeholder of may hold a parameter, for the name is filled twice
when the passage is displayed. -/
theorem render_display (stage : Stage σ) (depth : Nat) {target : String} {params : Record}
    (hline : '\n' ∉ (displaying stage.settings.escape target).toList)
    (hvalues : ∀ e ∈ params.entries,
      Placeholder.Holds (fun n => n == e.1) (Text.trimmed target).toList →
        ¬ Placeholder.Holds params.contains e.2.display.toList) (S : Session σ) :
    let displayed := ((stage.withDepth (depth + 1)).render
      (displaying stage.settings.escape target) params).runIn S
    let rendered := ((stage.withDepth depth).renderPassage target params).runIn S
    displayed.2 = rendered.2 ∧
      displayed.1.mapError Failure.withoutDepth = rendered.1.mapError Failure.withoutDepth := by
  have hfind : (stage.withDepth (depth + 1)).find
      (Placeholder.fillParams params (Text.trimmed target)) params =
        (stage.withDepth depth).find target params := by
    unfold find Shelf.find?
    rw [nameOf_fillParams hvalues]
    rfl
  have hrender : (stage.withDepth (depth + 1)).render (displaying stage.settings.escape target)
      params = (do
        let found ← (stage.withDepth depth).find target params
        (stage.withDepth (depth + 1)).body depth found.body found.context) := by
    have hread : Template.readStrict (stage.withDepth (depth + 1)).settings.escape
        (displaying stage.settings.escape target) =
          .ok [.command .display (Text.trimmed target)] := readStrict_displaying hline
    show (stage.withDepth (depth + 1)).body (depth + 1) _ params = _
    rw [← hfind, body, template_of_readStrict hread, blocks_singleton]
    rfl
  have halike : AlikeButDepth
      ((stage.withDepth (depth + 1)).render (displaying stage.settings.escape target) params)
      ((stage.withDepth depth).renderPassage target params) := by
    rw [hrender]
    exact (AlikeButDepth.refl _).bind fun found => alikeButDepth_body _ _ _ _ _
  exact halike S

/-- A stage with a hall, a vault in it and another room. -/
def roomStage : Stage Store :=
  ofStore (.ofList [⟨"\"hall\"", "A hall.\n\\display the (vault)"⟩,
    ⟨"the \"(sealed) vault\"", "Locked."⟩, ⟨"\"(room)\"", "Anywhere."⟩]) {}

/-- Nothing is stored. -/
def roomSession : Session Store := ⟨⟨⟨1, 1⟩, []⟩, 0, 0⟩

/-- The second value has a placeholder, but of no parameter. -/
def roomValues : Record := .ofList [("room", .text "hall"), ("vault", .text "(sealed) vault")]

theorem render_display_rooms :
    '\n' ∉ (displaying '\\' " (room)").toList ∧
      (∀ e ∈ roomValues.entries,
        Placeholder.Holds (fun n => n == e.1) (Text.trimmed " (room)").toList →
          ¬ Placeholder.Holds roomValues.contains e.2.display.toList) ∧
      (((roomStage.withDepth 2).render (displaying '\\' " (room)") roomValues).runIn
        roomSession).1.mapError Failure.withoutDepth = .ok "A hall.\nLocked.\n" := by
  have hline : '\n' ∉ (displaying '\\' " (room)").toList := by decide +kernel
  have hvalues : ∀ e ∈ roomValues.entries,
      Placeholder.Holds (fun n => n == e.1) (Text.trimmed " (room)").toList →
        ¬ Placeholder.Holds roomValues.contains e.2.display.toList := by decide +kernel
  have hrendered : (((roomStage.withDepth 1).renderPassage " (room)" roomValues).runIn
      roomSession).1.mapError Failure.withoutDepth = .ok "A hall.\nLocked.\n" := by decide +kernel
  exact ⟨hline, hvalues, (render_display roomStage 1 hline hvalues roomSession).2.trans hrendered⟩

/-- The value of one parameter is the placeholder of the other. -/
def nestedValues : Record := .ofList [("place", .text "(room)"), ("room", .text "hall")]

/-- The value of a name that is filled once more names another passage: the two results differ. -/
theorem render_display_twice :
    '\n' ∉ (displaying '\\' "(place)").toList ∧
      (((roomStage.withDepth 2).render (displaying '\\' "(place)") nestedValues).runIn
        roomSession).1 = .error (.passageNotFound "\"\"hall\"\"") ∧
      (((roomStage.withDepth 1).renderPassage "(place)" nestedValues).runIn roomSession).1 =
        .ok "Anywhere.\n" := by
  decide +kernel

end Stage
end PassageLogic
