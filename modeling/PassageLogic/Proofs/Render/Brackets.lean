import PassageLogic.Logic.Script
import PassageLogic.Proofs.Session.Brackets
import PassageLogic.Proofs.Render.Blocks

/-! # Transient rules in renderings

What a rendering asks, runs, asserts, retracts and performs writes groups of calls over any engine, and
so does the rendering, at any depth of displays and whether they fail or not. So in every inquiry each
transient rule that is asserted is queried and retracted at once (`Inquiry.events_bracketed`). -/

namespace PassageLogic

theorem Line.constrained_claim {l : Line} {context : Record} {st : Statement}
    (h : l.constrained context = .claim st) : l = .claim st := by
  unfold constrained at h
  simp only [] at h
  split at h
  · exact h
  · cases l <;> cases h

namespace Stage

open Act (Emits)

variable {σ : Type} (stage : Stage σ)

/-- The stage whose engine writes down its calls. -/
def traced : Stage (σ × List Event) := { stage with engine := stage.engine.traced }

theorem emits_joinAll {f : Record → Act (σ × List Event) String} (h : ∀ r, Emits Segmented (f r))
    (rs : List Record) : Emits Segmented (joinAll f rs) := by
  have hP := composes_segmented
  induction rs with
  | nil => exact Act.emits_pure hP _
  | cons r rs ih =>
    exact Act.Emits.bind hP (h r) fun _ => Act.Emits.bind hP ih fun _ => Act.emits_pure hP _

theorem related_emits {display : String → Record → Act (σ × List Event) String}
    (hd : ∀ target context, Emits Segmented (display target context)) :
    Related stage.traced stage.traced display display (fun _ => True) (fun _ => True)
      (fun x _ => Emits Segmented x) where
  pure text := Act.emits_pure composes_segmented text
  throw f := Act.emits_throw composes_segmented f
  append hx hy := Act.Emits.bind composes_segmented hx fun _ =>
    Act.Emits.bind composes_segmented hy fun _ => Act.emits_pure composes_segmented _
  command {context} _ verb _ text := by
    have hP := composes_segmented
    have hend {α : Type} {x : Act (σ × List Event) α} (hx : Emits Segmented x) :
        Emits Segmented (do let _ ← x; return "") :=
      Act.Emits.bind hP hx fun _ => Act.emits_pure hP _
    cases verb with
    | run =>
      refine Act.emits_readLine_bind fun l hl => hend (Act.emits_drain stage.engine fun st hst => ?_)
      exact hl st (Line.constrained_claim hst)
    | display => exact hd text context
    | displayIfPossible =>
      refine Act.Emits.bind hP (Act.writes_outcome (hd text context)) fun r => ?_
      cases r <;> exact Act.emits_pure hP _
    | assert => exact hend (Act.emits_assertText stage.engine text)
    | retract => exact hend (Act.emits_retractText stage.engine text)
    | perform => exact hend (Act.emits_perform stage.engine text)
  branch kind query context _ body body' hbody alternative alternative' halt := by
    have hP := composes_segmented
    cases kind with
    | first =>
      refine Act.Emits.bind hP (Act.emits_ask stage.engine query _) fun answers => ?_
      cases answers with
      | nil => exact halt
      | cons answer _ => exact hbody _ trivial
    | each =>
      refine Act.Emits.bind hP (Act.emits_ask stage.engine query _) fun answers => ?_
      split
      · exact Act.emits_throw hP _
      · split
        · exact halt
        · exact emits_joinAll (fun r => hbody _ trivial) answers

theorem emits_find_bind {target : String} {context : Record}
    {f : Found → Act (σ × List Event) String} (hf : ∀ found, Emits Segmented (f found)) :
    Emits Segmented (stage.traced.find target context >>= f) := by
  cases hfound : stage.traced.shelf.find? target context with
  | none =>
    rw [find_bind_of_none hfound]
    exact Act.emits_throw composes_segmented _
  | some found =>
    rw [find_bind_of_some hfound]
    exact hf found

/-- **A rendering writes groups of calls**, at any depth of displays. -/
theorem emits_body (room : Nat) (text : String) (params : Record) :
    Emits Segmented (stage.traced.body room text params) := by
  induction room generalizing text params with
  | zero =>
    exact (stage.related_emits fun _ _ => Act.emits_throw composes_segmented _).template rfl rfl
      (fun _ _ => trivial) trivial
  | succ room ih =>
    refine (stage.related_emits fun target context => ?_).template rfl rfl (fun _ _ => trivial)
      trivial
    exact stage.emits_find_bind fun found => ih found.body found.context

end Stage

/-! ### Inquiries -/

/-- What asks questions: a query, read or not, a line that is asked for its side effects, and the
renderings. -/
inductive Inquiry where
  | ask (text : String) (limit : Option Nat)
  | askLine (l : Line) (limit : Option Nat)
  | drain (l : Line)
  | render (shelf : Shelf) (settings : Settings) (text : String) (params : Record)
  | renderPassage (shelf : Shelf) (settings : Settings) (target : String) (params : Record)

namespace Inquiry

variable {σ : Type}

/-- The calls of an inquiry in a session. -/
def events (e : Engine σ) (S : Session σ) : Inquiry → List Event
  | .ask text limit => S.events (Act.ask e.traced text limit)
  | .askLine l limit => S.events (Act.askLine e.traced l limit)
  | .drain l => S.events (Act.drain e.traced l)
  | .render shelf settings text params =>
    S.events ((Stage.traced ⟨e, shelf, settings⟩).render text params)
  | .renderPassage shelf settings target params =>
    S.events ((Stage.traced ⟨e, shelf, settings⟩).renderPassage target params)

/-- The clauses that an inquiry asserts for a question. To ask is to assert nothing else; a rendering
also asserts the clauses of texts, which have no such predicate, and facts. -/
def Asserts : Inquiry → Clause → Prop
  | .ask _ _, _ | .askLine _ _, _ | .drain _, _ => True
  | .render _ _ _ _, c | .renderPassage _ _ _ _, c => c.IsTransientRule

/-- **Every transient rule that is asserted is queried and retracted at once**, whatever fails, over any
engine; after a failed assertion it is neither queried nor retracted. -/
theorem events_bracketed (e : Engine σ) (S : Session σ) (i : Inquiry) :
    Bracketed i.Asserts (i.events e S) := by
  have hline (l : Line) (limit : Option Nat) :
      Act.Emits (Bracketed fun _ => True) (Act.askLine e.traced l limit) :=
    (Act.writes_askLine e l limit).mono fun _ _ h => h.bracketed
  cases i with
  | ask text limit =>
    have hask : Act.Emits (Bracketed fun _ => True) (Act.ask e.traced text limit) := by
      refine Act.Writes.bind (Act.writes_readLine text) ?_ fun l log h => ?_
      · rintro _ _ ⟨rfl, -⟩
        exact bracketed_nil _
      · rw [h.1]
        exact hline l limit
    exact hask.events S
  | askLine l limit => exact (hline l limit).events S
  | drain l => exact ((hline l none).before fun _ _ => rfl).events S
  | render shelf settings text params =>
    exact ((Stage.emits_body ⟨e, shelf, settings⟩ _ text params).events S).bracketed
  | renderPassage shelf settings target params =>
    exact ((Stage.emits_find_bind ⟨e, shelf, settings⟩ fun found =>
      Stage.emits_body ⟨e, shelf, settings⟩ _ found.body found.context).events S).bracketed

/-- The rule is also retracted if the stream breaks off. -/
example :
    let stream : List Item := [.ok (.ofList [("x", .text "hall")]), .error (.depth 3)]
    let script : Script := ⟨[("__ask* %", [stream])], [], [], []⟩
    let rule : Clause :=
      ⟨Act.transientHead 0 ["x"], [.of "lit %" [.var "x"], .of "warm %" [.var "x"]]⟩
    Inquiry.events script.engine ⟨[], 0, 0⟩ (.ask "lit (x), warm (x)" none) =
      [.assert rule (.ok ()), .query rule.head (.ok stream), .retract rule (.ok true)] := by
  decide +kernel

end Inquiry
end PassageLogic
