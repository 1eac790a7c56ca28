import PassageLogic.Template.Assembly
import Mathlib.Data.List.Basic

/-! # The commands of a template

A block holds no commands but those of the lines that it was read from: assembling a template moves
blocks between the open branches and the finished blocks, and makes none but from a line
(`only_of_read`). So what is known of the command lines of a text is known of its blocks. -/

namespace PassageLogic

/-- The command that a line gives, if it gives one. -/
def SourceLine.verb? : SourceLine → Option Verb
  | .command verb _ => some verb
  | _ => none

/-- The commands on the lines of a template. -/
def Template.verbs (escape : Char) (body : String) : List Verb :=
  (SourceLine.readAll escape body).filterMap SourceLine.verb?

namespace Block

mutual

/-- The commands in a block. -/
def verbs : Block → List Verb
  | .print _ => []
  | .command verb _ => [verb]
  | .branch _ _ body none => listVerbs body
  | .branch _ _ body (some alternative) => listVerbs body ++ listVerbs alternative

/-- The commands in blocks. -/
def listVerbs : List Block → List Verb
  | [] => []
  | b :: bs => verbs b ++ listVerbs bs

end

/-- All commands in the block have the property. -/
def Only (p : Verb → Prop) (b : Block) : Prop := ∀ v ∈ b.verbs, p v

variable {p : Verb → Prop} {kind : BranchKind} {query : String} {body bs : List Block}

theorem mem_listVerbs {v : Verb} : v ∈ listVerbs bs ↔ ∃ b ∈ bs, v ∈ b.verbs := by
  induction bs with
  | nil => simp [listVerbs]
  | cons b bs ih => simp [listVerbs, ih]

theorem only_print (text : String) : (print text).Only p := by
  intro v hv
  cases hv

theorem only_command {verb : Verb} {text : String} : (command verb text).Only p ↔ p verb := by
  simp [Only, verbs]

theorem forall_mem_listVerbs : (∀ v ∈ listVerbs bs, p v) ↔ ∀ b ∈ bs, b.Only p := by
  simp only [mem_listVerbs]
  exact ⟨fun h b hb v hv => h v ⟨b, hb, hv⟩, fun h v ⟨b, hb, hv⟩ => h b hb v hv⟩

theorem only_branch {alternative : Option (List Block)} :
    (branch kind query body alternative).Only p ↔
      (∀ b ∈ body, b.Only p) ∧ ∀ bs ∈ alternative, ∀ b ∈ bs, b.Only p := by
  cases alternative with
  | none =>
    rw [Only, verbs, forall_mem_listVerbs]
    simp
  | some bs =>
    rw [Only, verbs, List.forall_mem_append, forall_mem_listVerbs, forall_mem_listVerbs]
    simp

end Block

namespace Template

variable {p : Verb → Prop} {b : Block}

/-- All commands in the open branch have the property. -/
structure Open.Only (p : Verb → Prop) (o : Open) : Prop where
  body : ∀ b ∈ o.body, b.Only p
  alternative : ∀ bs ∈ o.alternative, ∀ b ∈ bs, b.Only p

namespace Open

variable {o : Open}

theorem Only.push (h : o.Only p) (hb : b.Only p) : (o.push b).Only p := by
  unfold Open.push
  split
  · rename_i bs hbs
    refine ⟨h.body, fun cs hcs => ?_⟩
    cases hcs
    exact List.forall_mem_cons.2 ⟨hb, h.alternative bs hbs⟩
  · rename_i hnone
    exact ⟨List.forall_mem_cons.2 ⟨hb, h.body⟩, h.alternative⟩

theorem Only.close (h : o.Only p) : o.close.Only p := by
  unfold Open.close
  refine Block.only_branch.2 ⟨fun b hb => h.body b (List.mem_reverse.1 hb), fun cs hcs b hb => ?_⟩
  obtain ⟨bs, hbs, rfl⟩ := Option.map_eq_some_iff.1 hcs
  exact h.alternative bs hbs b (List.mem_reverse.1 hb)

end Open

/-- All commands in the assembly have the property. -/
structure Assembly.Only (p : Verb → Prop) (a : Assembly) : Prop where
  opened : ∀ o ∈ a.opened, o.Only p
  finished : ∀ b ∈ a.finished, b.Only p

namespace Assembly

variable {a : Assembly} {l : SourceLine}

theorem only_empty : empty.Only p := ⟨by simp [empty], by simp [empty]⟩

theorem Only.push (h : a.Only p) (hb : b.Only p) : (a.push b).Only p := by
  unfold Assembly.push
  split
  · exact ⟨h.opened, List.forall_mem_cons.2 ⟨hb, h.finished⟩⟩
  · rename_i o os ho
    obtain ⟨h₁, h₂⟩ := List.forall_mem_cons.1 (ho ▸ h.opened)
    exact ⟨List.forall_mem_cons.2 ⟨h₁.push hb, h₂⟩, h.finished⟩

/-- **A line brings in no command but its own.** -/
theorem Only.take (h : a.Only p) (number : Nat) (hl : ∀ v ∈ l.verb?, p v) :
    (a.take number l).Only p := by
  cases l with
  | print text => exact h.push (Block.only_print text)
  | command verb text => exact h.push (Block.only_command.2 (hl verb rfl))
  | opening kind query =>
    exact ⟨List.forall_mem_cons.2 ⟨⟨by simp, by simp⟩, h.opened⟩, h.finished⟩
  | alternative =>
    simp only [Assembly.take]
    split
    · exact ⟨h.opened, h.finished⟩
    · rename_i o os ho
      obtain ⟨h₁, h₂⟩ := List.forall_mem_cons.1 (ho ▸ h.opened)
      split
      · exact ⟨h.opened, h.finished⟩
      · exact ⟨List.forall_mem_cons.2 ⟨⟨h₁.body, by simp⟩, h₂⟩, h.finished⟩
  | closing =>
    simp only [Assembly.take]
    split
    · exact ⟨h.opened, h.finished⟩
    · rename_i o os ho
      obtain ⟨h₁, h₂⟩ := List.forall_mem_cons.1 (ho ▸ h.opened)
      exact Only.push ⟨h₂, h.finished⟩ h₁.close

theorem Only.takeAll (h : a.Only p) (number : Nat) {ls : List SourceLine}
    (hls : ∀ l ∈ ls, ∀ v ∈ l.verb?, p v) : (a.takeAll number ls).Only p := by
  induction ls generalizing a number with
  | nil => exact h
  | cons l ls ih =>
    obtain ⟨hl, hls⟩ := List.forall_mem_cons.1 hls
    exact ih (h.take number hl) (number + 1) hls

theorem only_closeAround (hb : b.Only p) {os : List Open} (hos : ∀ o ∈ os, o.Only p)
    {finished : List Block} (hf : ∀ b ∈ finished, b.Only p) :
    ∀ c ∈ closeAround b os finished, c.Only p := by
  induction os generalizing b with
  | nil => exact List.forall_mem_cons.2 ⟨hb, hf⟩
  | cons o os ih =>
    obtain ⟨ho, hos⟩ := List.forall_mem_cons.1 hos
    exact ih (ho.push hb).close hos

theorem Only.finish (h : a.Only p) : ∀ b ∈ a.finish.1, b.Only p := by
  intro b hb
  have hb : b ∈ a.closed := List.mem_reverse.1 hb
  unfold closed at hb
  split at hb
  · exact h.finished b hb
  · rename_i o os ho
    obtain ⟨h₁, h₂⟩ := List.forall_mem_cons.1 (ho ▸ h.opened)
    exact only_closeAround h₁.close h₂ h.finished b hb

end Assembly

/-- **The blocks of a template hold no command that its lines do not give.** -/
theorem only_of_read {escape : Char} {strict : Bool} {body : String} {bs : List Block}
    (h : read escape strict body = .ok bs) (hp : ∀ v ∈ verbs escape body, p v) :
    ∀ b ∈ bs, b.Only p := by
  have hall : ∀ b ∈ (assemble (SourceLine.readAll escape body)).1, b.Only p := by
    refine (Assembly.only_empty.takeAll 1 fun l hl v hv => hp v ?_).finish
    exact List.mem_filterMap.2 ⟨l, hl, hv⟩
  unfold read readStrict readLenient at h
  split at h
  · split at h
    · rename_i heq
      cases h
      rw [heq] at hall
      exact hall
    · cases h
  · cases h
    exact hall

end Template

end PassageLogic
