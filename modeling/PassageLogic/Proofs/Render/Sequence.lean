import PassageLogic.Proofs.Render.Blocks
import PassageLogic.Proofs.Session.Asking
import PassageLogic.Proofs.Template.Nesting
import PassageLogic.Proofs.Template.RoundTrip

/-! # Bodies one after the other

A body that is balanced and ends with its last line leaves nothing open for what follows it: neither a
line, nor a branch, nor a context. So two bodies in a row are rendered as the first and then, in the
session that it leaves, the second with the same parameters.

* `Template.readStrict_eq_ok_iff`: strict reading gives the blocks whose lines the text has.
* `Template.read_append`: the blocks of two bodies in a row are those of the first and of the second.
* `Stage.blocks_append`: blocks in a row are rendered one after the other.
* `Stage.render_append`: the three together. -/

namespace PassageLogic

/-! ### Blocks of two bodies -/

namespace Template

open Block (listLines)

theorem listLines_append (bs cs : List Block) :
    listLines (bs ++ cs) = listLines bs ++ listLines cs := by
  induction bs with
  | nil => rfl
  | cons b bs ih => rw [List.cons_append, listLines, listLines, ih, List.append_assoc]

/-- Balanced lines are the lines of some blocks. -/
theorem Balanced.exists_listLines {ls : List SourceLine} (h : Balanced ls) :
    ∃ bs, ls = listLines bs := by
  induction h with
  | nil => exact ⟨[], rfl⟩
  | print text => exact ⟨[.print text], rfl⟩
  | command verb text => exact ⟨[.command verb text], rfl⟩
  | append _ _ ih ih' =>
    obtain ⟨bs, rfl⟩ := ih
    obtain ⟨cs, rfl⟩ := ih'
    exact ⟨bs ++ cs, (listLines_append bs cs).symm⟩
  | branch kind query _ ih =>
    obtain ⟨body, rfl⟩ := ih
    exact ⟨[.branch kind query body none], by simp [listLines, Block.lines]⟩
  | branchElse kind query _ _ ih ih' =>
    obtain ⟨body, rfl⟩ := ih
    obtain ⟨alternative, rfl⟩ := ih'
    exact ⟨[.branch kind query body (some alternative)], by simp [listLines, Block.lines]⟩

variable {escape : Char} {first second body : String} {bs cs : List Block}

theorem balanced_of_readStrict (h : readStrict escape body = .ok bs) :
    Balanced (SourceLine.readAll escape body) := by
  rcases balanced_or_flaw (SourceLine.readAll escape body) with hb | ⟨p, hp⟩
  · exact hb
  · rw [readStrict_flaw hp] at h
    cases h

/-- **Strict reading gives the blocks whose lines the text has**, and only those. -/
theorem readStrict_eq_ok_iff :
    readStrict escape body = .ok bs ↔ SourceLine.readAll escape body = listLines bs := by
  have hread : ∀ {cs}, SourceLine.readAll escape body = listLines cs →
      readStrict escape body = .ok cs := by
    intro cs hcs
    unfold readStrict
    rw [hcs, assemble_listLines]
  refine ⟨fun h => ?_, hread⟩
  obtain ⟨cs, hcs⟩ := (balanced_of_readStrict h).exists_listLines
  have hsame : cs = bs := Except.ok.inj ((hread hcs).symm.trans h)
  rw [hcs, hsame]

/-- What is read strictly is read in the same way leniently. -/
theorem read_of_readStrict (strict : Bool) (h : readStrict escape body = .ok bs) :
    read escape strict body = .ok bs := by
  have hlenient : readLenient escape body = bs := by
    rw [readLenient, readStrict_eq_ok_iff.1 h, assemble_listLines]
  cases strict with
  | false => exact congrArg Except.ok hlenient
  | true => exact h

/-- **Two bodies in a row have the blocks of both** if each is balanced and a line of the second does
not begin on a line of the first. -/
theorem readStrict_append (hended : first = "" ∨ first.toList.getLast? = some '\n')
    (h₁ : readStrict escape first = .ok bs) (h₂ : readStrict escape second = .ok cs) :
    readStrict escape (first ++ second) = .ok (bs ++ cs) := by
  rw [readStrict_eq_ok_iff] at h₁ h₂ ⊢
  have hended' : first.toList = [] ∨ first.toList.getLast? = some '\n' :=
    hended.imp_left String.toList_eq_nil_iff.2
  unfold SourceLine.readAll at h₁ h₂ ⊢
  rw [String.toList_append, Text.lines_append_of_ended hended', List.map_append, h₁, h₂,
    listLines_append]

end Template

/-! ### Rendering -/

namespace Stage

variable {σ : Type} {stage : Stage σ} {display : String → Record → Act σ String} {params : Record}
  {first second : String}

/-- Blocks in a row are rendered one after the other, in the same context. -/
theorem blocks_append (bs cs : List Block) (context : Record) :
    stage.blocks display params (bs ++ cs) context = (do
      let text ← stage.blocks display params bs context
      return text ++ (← stage.blocks display params cs context)) := by
  induction bs with
  | nil =>
    have hempty : (HAppend.hAppend "" : String → String) = id := funext fun _ => String.empty_append
    simp [blocks, hempty]
  | cons b bs ih =>
    simp only [List.cons_append, blocks, ih, bind_assoc, pure_bind, String.append_assoc]

/-- A body that is balanced is rendered as its blocks. -/
theorem template_of_readStrict {body : String} {bs : List Block}
    (h : Template.readStrict stage.settings.escape body = .ok bs) :
    stage.template display body params = stage.blocks display params bs params := by
  unfold template
  rw [Template.read_of_readStrict stage.settings.strict h]
  rfl

theorem template_append (hended : first = "" ∨ first.toList.getLast? = some '\n')
    (h₁ : ∃ bs, Template.readStrict stage.settings.escape first = .ok bs)
    (h₂ : ∃ cs, Template.readStrict stage.settings.escape second = .ok cs) :
    stage.template display (first ++ second) params = (do
      let text ← stage.template display first params
      return text ++ (← stage.template display second params)) := by
  obtain ⟨bs, hbs⟩ := h₁
  obtain ⟨cs, hcs⟩ := h₂
  rw [template_of_readStrict hbs, template_of_readStrict hcs,
    template_of_readStrict (Template.readStrict_append hended hbs hcs), blocks_append]

theorem body_append (hended : first = "" ∨ first.toList.getLast? = some '\n')
    (h₁ : ∃ bs, Template.readStrict stage.settings.escape first = .ok bs)
    (h₂ : ∃ cs, Template.readStrict stage.settings.escape second = .ok cs) (room : Nat) :
    stage.body room (first ++ second) params = (do
      let text ← stage.body room first params
      return text ++ (← stage.body room second params)) := by
  cases room <;> exact template_append hended h₁ h₂

/-- **Rendering is sequential.** Two balanced bodies in a row, a line of the second not beginning on a
line of the first, are rendered as the first and then the second with the same parameters, in the
session that the first leaves. If the first fails, then so do the two, and nothing of the second is
done. -/
theorem render_append (stage : Stage σ) (params : Record) {first second : String}
    (hended : first = "" ∨ first.toList.getLast? = some '\n')
    (h₁ : ∃ bs, Template.readStrict stage.settings.escape first = .ok bs)
    (h₂ : ∃ cs, Template.readStrict stage.settings.escape second = .ok cs) (S : Session σ) :
    (stage.render (first ++ second) params).runIn S =
      match (stage.render first params).runIn S with
      | (.error failure, T) => (.error failure, T)
      | (.ok text, T) =>
        match (stage.render second params).runIn T with
        | (.error failure, U) => (.error failure, U)
        | (.ok text', U) => (.ok (text ++ text'), U) := by
  unfold render
  rw [body_append hended h₁ h₂, Act.runIn_bind]
  rcases (stage.body stage.settings.displayDepth first params).runIn S with ⟨failure | text, T⟩
  · rfl
  · simp only [Act.runIn_bind, Act.runIn_pure]
    rcases (stage.body stage.settings.displayDepth second params).runIn T with ⟨failure | text', U⟩
      <;> rfl

/-- A stage without passages, over a store. -/
def bareStage : Stage Store := ofStore ⟨[], []⟩ {}

/-- A store that knows of two bells. -/
def bellStore : Store where
  limits := ⟨4, 9⟩
  clauses :=
    [.fact (.of "bell %" [.const (.text "iron")]), .fact (.of "bell %" [.const (.text "glass")])]

/-- A branch that binds a name and stores a fact. -/
def ringing : String := "\\each bell (x)\n\\assert rung \"all\"\nThe {x} bell rings.\n\\end\n"

/-- A body that prints the same name and asks for the fact. -/
def hearing : String := "After {x}:\n\\each rung (y)\n{y}\n\\end"

/-- The fact is found by the second body, and the name has no value there. -/
theorem render_append_bells :
    (ringing = "" ∨ ringing.toList.getLast? = some '\n') ∧
      (∃ bs, Template.readStrict '\\' ringing = .ok bs) ∧
      (∃ cs, Template.readStrict '\\' hearing = .ok cs) ∧
      (bareStage.render (ringing ++ hearing) .empty).runIn ⟨bellStore, 0, 0⟩ =
        (.ok ("The iron bell rings.\nThe glass bell rings.\n" ++ "After :\nall\n"),
          ((bareStage.render hearing .empty).runIn
            ((bareStage.render ringing .empty).runIn ⟨bellStore, 0, 0⟩).2).2) := by
  have hended : ringing = "" ∨ ringing.toList.getLast? = some '\n' := by decide +kernel
  have h₁ : ∃ bs, Template.readStrict '\\' ringing = .ok bs :=
    ⟨[.branch .each "bell (x)" [.command .assert "rung \"all\"", .print "The {x} bell rings."] none],
      Template.readStrict_eq_ok_iff.2 (by decide +kernel)⟩
  have h₂ : ∃ cs, Template.readStrict '\\' hearing = .ok cs :=
    ⟨[.print "After {x}:", .branch .each "rung (y)" [.print "{y}"] none],
      Template.readStrict_eq_ok_iff.2 (by decide +kernel)⟩
  have hfirst : ((bareStage.render ringing .empty).runIn ⟨bellStore, 0, 0⟩).1 =
      .ok "The iron bell rings.\nThe glass bell rings.\n" := by decide +kernel
  have hsecond : ((bareStage.render hearing .empty).runIn
      ((bareStage.render ringing .empty).runIn ⟨bellStore, 0, 0⟩).2).1 = .ok "After :\nall\n" := by
    decide +kernel
  refine ⟨hended, h₁, h₂, ?_⟩
  rw [render_append bareStage .empty hended h₁ h₂]
  generalize (bareStage.render ringing .empty).runIn ⟨bellStore, 0, 0⟩ = run at hfirst hsecond ⊢
  obtain ⟨result, T⟩ := run
  obtain rfl : result = _ := hfirst
  dsimp only at hsecond ⊢
  generalize (bareStage.render hearing .empty).runIn T = run at hsecond ⊢
  obtain ⟨result, U⟩ := run
  obtain rfl : result = _ := hsecond
  rfl

end Stage
end PassageLogic
