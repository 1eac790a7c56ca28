import PassageLogic.Template.Assembly
import PassageLogic.Proofs.Template.SourceLines
import Mathlib.Data.List.Induction

/-! # Balanced templates

The lines of a template are balanced if every `else` and `end` belongs to an open branch, no branch has
two `else` lines and every branch is closed (`Balanced`). Lines that may leave branches open are balanced
but for these (`Nesting`); a line may then have no place after them (`Misplaced`).

* `Nesting.exists_or_misplaced`: lines nest, or there is a first one that is misplaced.
* `Assembly.outline_nesting`: while lines nest, assembling them meets no problem and holds open exactly
  the branches that they leave open.
* `readStrict_exact`: strict reading accepts the balanced templates only, with the blocks of lenient
  reading, and fails with the first misplaced line, or with the innermost branch that is left open if no
  line is misplaced. -/

namespace PassageLogic

namespace Template

/-- The lines open and close branches in pairs, with at most one `else` line for each. -/
inductive Balanced : List SourceLine → Prop where
  | nil : Balanced []
  | print (text : String) : Balanced [.print text]
  | command (verb : Verb) (text : String) : Balanced [.command verb text]
  | append {ls ms : List SourceLine} : Balanced ls → Balanced ms → Balanced (ls ++ ms)
  | branch (kind : BranchKind) (query : String) {body : List SourceLine} :
    Balanced body → Balanced (.opening kind query :: body ++ [.closing])
  | branchElse (kind : BranchKind) (query : String) {body alternative : List SourceLine} :
    Balanced body → Balanced alternative →
      Balanced (.opening kind query :: body ++ .alternative :: alternative ++ [.closing])

/-- An open branch, by the line that opened it. -/
structure Pending where
  kind : BranchKind
  /-- The number of the line. -/
  line : Nat
  /-- There was an `else` line of the branch. -/
  hasElse : Bool

/-- After these lines these branches are open, the innermost first, and all else is balanced. -/
inductive Nesting : List SourceLine → List Pending → Prop where
  | balanced {ls : List SourceLine} : Balanced ls → Nesting ls []
  | body {ls body : List SourceLine} {os : List Pending} (kind : BranchKind) (query : String) :
    Nesting ls os → Balanced body →
      Nesting (ls ++ .opening kind query :: body) (⟨kind, ls.length + 1, false⟩ :: os)
  | alternative {ls body alternative : List SourceLine} {os : List Pending} (kind : BranchKind)
      (query : String) : Nesting ls os → Balanced body → Balanced alternative →
      Nesting (ls ++ .opening kind query :: body ++ .alternative :: alternative)
        (⟨kind, ls.length + 1, true⟩ :: os)

/-- The problem of a line that has no place after these lines. -/
inductive Misplaced (before : List SourceLine) : SourceLine → Problem → Prop where
  | strayElse (h : Nesting before []) :
    Misplaced before .alternative (.stray (before.length + 1) SourceLine.alternativeWord)
  | strayEnd (h : Nesting before []) :
    Misplaced before .closing (.stray (before.length + 1) SourceLine.closingWord)
  | secondElse {o : Pending} {os : List Pending} (h : Nesting before (o :: os))
    (ho : o.hasElse = true) : Misplaced before .alternative (.secondElse (before.length + 1))

/-- The problem of lines that are not balanced: the first misplaced line, after which the others do not
count, or else the innermost branch that is left open. -/
inductive Flaw (ls : List SourceLine) : Problem → Prop where
  | misplaced {before after : List SourceLine} {l : SourceLine} {p : Problem}
    (hls : ls = before ++ l :: after) (h : Misplaced before l p) : Flaw ls p
  | unclosed {o : Pending} {os : List Pending} (h : Nesting ls (o :: os)) :
    Flaw ls (.unclosed o.line o.kind.word)

namespace Nesting

variable {ls ms : List SourceLine} {o : Pending} {os : List Pending}

theorem append_balanced (h : Nesting ls os) (hms : Balanced ms) : Nesting (ls ++ ms) os := by
  cases h with
  | balanced hls => exact .balanced (hls.append hms)
  | body kind query h hbody =>
    rw [List.append_assoc, List.cons_append]
    exact .body kind query h (hbody.append hms)
  | alternative kind query h hbody halt =>
    rw [List.append_assoc, List.cons_append]
    exact .alternative kind query h hbody (halt.append hms)

/-- An `end` line closes the innermost open branch. -/
theorem close (h : Nesting ls (o :: os)) : Nesting (ls ++ [.closing]) os := by
  cases h with
  | body kind query h hbody =>
    rw [List.append_assoc]
    exact h.append_balanced (.branch kind query hbody)
  | alternative kind query h hbody halt =>
    rw [List.append_assoc, List.append_assoc, ← List.append_assoc (_ :: _)]
    exact h.append_balanced (.branchElse kind query hbody halt)

/-- The first `else` line of the innermost open branch. -/
theorem split (h : Nesting ls (o :: os)) (ho : o.hasElse = false) :
    Nesting (ls ++ [.alternative]) ({ o with hasElse := true } :: os) := by
  cases h with
  | body kind query h hbody => exact .alternative kind query h hbody .nil
  | alternative => cases ho

theorem balanced_of_nil (h : Nesting ls []) : Balanced ls := by
  cases h with
  | balanced h => exact h

/-- After lines that nest, the next line nests as well or is misplaced. -/
theorem append_or_misplaced (h : Nesting ls os) (l : SourceLine) :
    (∃ os', Nesting (ls ++ [l]) os') ∨ ∃ p, Misplaced ls l p := by
  cases l with
  | print text => exact .inl ⟨os, h.append_balanced (.print text)⟩
  | command verb text => exact .inl ⟨os, h.append_balanced (.command verb text)⟩
  | opening kind query => exact .inl ⟨_, .body kind query h .nil⟩
  | alternative =>
    cases os with
    | nil => exact .inr ⟨_, .strayElse h⟩
    | cons o os =>
      cases ho : o.hasElse with
      | false => exact .inl ⟨_, h.split ho⟩
      | true => exact .inr ⟨_, .secondElse h ho⟩
  | closing =>
    cases os with
    | nil => exact .inr ⟨_, .strayEnd h⟩
    | cons o os => exact .inl ⟨os, h.close⟩

/-- **Lines nest, or there is a first misplaced one.** -/
theorem exists_or_misplaced (ls : List SourceLine) : (∃ os, Nesting ls os) ∨
    ∃ before l after p, ls = before ++ l :: after ∧ Misplaced before l p := by
  induction ls using List.reverseRecOn with
  | nil => exact .inl ⟨[], .balanced .nil⟩
  | append_singleton ls l ih =>
    rcases ih with ⟨os, h⟩ | ⟨before, m, after, p, rfl, h⟩
    · rcases h.append_or_misplaced l with h' | ⟨p, hp⟩
      · exact .inl h'
      · exact .inr ⟨ls, l, [], p, rfl, hp⟩
    · exact .inr ⟨before, m, after ++ [l], p, by simp, h⟩

end Nesting

/-- Lines are balanced or have a flaw. -/
theorem balanced_or_flaw (ls : List SourceLine) : Balanced ls ∨ ∃ p, Flaw ls p := by
  rcases Nesting.exists_or_misplaced ls with ⟨os, h⟩ | ⟨before, l, after, p, hls, h⟩
  · cases os with
    | nil => exact .inl h.balanced_of_nil
    | cons o os => exact .inr ⟨_, .unclosed h⟩
  · exact .inr ⟨p, .misplaced hls h⟩

/-! ### What assembling holds open -/

/-- The open branch without its blocks. -/
def Open.pending (o : Open) : Pending := ⟨o.kind, o.line, o.alternative.isSome⟩

theorem Open.pending_push (o : Open) (b : Block) : (o.push b).pending = o.pending := by
  unfold Open.push
  split
  · rename_i bs hbs
    simp only [pending, hbs, Option.isSome_some]
  · rfl

namespace Assembly

/-- The open branches without their blocks, the innermost first, and the problems so far. -/
def outline (a : Assembly) : List Pending × List Problem :=
  (a.opened.map Open.pending, a.problems)

variable {a : Assembly} {ls : List SourceLine} {o : Pending} {os : List Pending} {ps : List Problem}

theorem outline_push (a : Assembly) (b : Block) : (a.push b).outline = a.outline := by
  unfold push outline
  split
  · rfl
  · rename_i o os ho
    rw [ho, List.map_cons, List.map_cons, Open.pending_push]

theorem outline_opening (a : Assembly) (number : Nat) (kind : BranchKind) (query : String) :
    (a.take number (.opening kind query)).outline =
      (⟨kind, number, false⟩ :: a.outline.1, a.outline.2) := rfl

/-- An `end` line closes the innermost open branch. -/
theorem outline_closing (number : Nat) (h : a.outline = (o :: os, ps)) :
    (a.take number .closing).outline = (os, ps) := by
  obtain ⟨hopened, rfl⟩ := Prod.mk.injEq .. ▸ h
  obtain ⟨p, qs, hp, -, rfl⟩ := List.map_eq_cons_iff.1 hopened
  simp only [take, hp]
  exact outline_push _ _

/-- The first `else` line of the innermost open branch. -/
theorem outline_alternative (number : Nat) (h : a.outline = (o :: os, ps))
    (ho : o.hasElse = false) :
    (a.take number .alternative).outline = ({ o with hasElse := true } :: os, ps) := by
  obtain ⟨hopened, rfl⟩ := Prod.mk.injEq .. ▸ h
  obtain ⟨p, qs, hp, rfl, rfl⟩ := List.map_eq_cons_iff.1 hopened
  have hnone : p.alternative = none := by simpa [Open.pending] using ho
  simp only [take, hp, hnone]
  rfl

/-- The lines change neither the open branches nor the problems, wherever they stand. -/
def Quiet (ls : List SourceLine) : Prop :=
  ∀ (a : Assembly) (number : Nat), (a.takeAll number ls).outline = a.outline

/-- A branch whose body has been taken. -/
theorem Quiet.opened {body : List SourceLine} (hbody : Quiet body) (a : Assembly) (number : Nat)
    (kind : BranchKind) (query : String) :
    (a.takeAll number (.opening kind query :: body)).outline =
      (⟨kind, number, false⟩ :: a.outline.1, a.outline.2) :=
  (hbody (a.take number (.opening kind query)) (number + 1)).trans
    (outline_opening a number kind query)

/-- A branch whose body and alternative have been taken. -/
theorem Quiet.split {body alternative : List SourceLine} (hbody : Quiet body)
    (halternative : Quiet alternative) (a : Assembly) (number : Nat) (kind : BranchKind)
    (query : String) :
    (a.takeAll number (.opening kind query :: body ++ .alternative :: alternative)).outline =
      (⟨kind, number, true⟩ :: a.outline.1, a.outline.2) := by
  rw [takeAll_append]
  exact (halternative _ _).trans (outline_alternative _ (hbody.opened a number kind query) rfl)

/-- **Balanced lines open nothing and are no problem.** -/
theorem quiet_of_balanced (h : Balanced ls) : Quiet ls := by
  induction h with
  | nil => exact fun _ _ => rfl
  | print text => exact fun _ _ => outline_push _ _
  | command verb text => exact fun _ _ => outline_push _ _
  | append _ _ ih ih' =>
    intro a number
    rw [takeAll_append, ih', ih]
  | branch kind query _ ih =>
    intro a number
    rw [takeAll_append]
    exact outline_closing _ (ih.opened a number kind query)
  | branchElse kind query _ _ ih ih' =>
    intro a number
    rw [takeAll_append]
    exact outline_closing _ (ih.split ih' a number kind query)

/-- **The branches that lines leave open are held open**, and there is no problem. -/
theorem outline_nesting (h : Nesting ls os) : (empty.takeAll 1 ls).outline = (os, []) := by
  induction h with
  | balanced h => exact quiet_of_balanced h empty 1
  | body kind query _ hbody ih =>
    rw [takeAll_append, (quiet_of_balanced hbody).opened, ih, Nat.add_comm]
  | alternative kind query _ hbody halternative ih =>
    rw [List.append_assoc, takeAll_append,
      (quiet_of_balanced hbody).split (quiet_of_balanced halternative), ih, Nat.add_comm]

/-- Problems stay. -/
theorem problems_suffix_take (a : Assembly) (number : Nat) (l : SourceLine) :
    a.problems <:+ (a.take number l).problems := by
  have hpush : ∀ (c : Assembly) b, c.problems <:+ (c.push b).problems := by
    intro c b
    have hsame : (c.push b).problems = c.problems := congrArg Prod.snd (outline_push c b)
    exact hsame.symm ▸ List.suffix_refl _
  cases l with
  | print text => exact hpush _ _
  | command verb text => exact hpush _ _
  | opening kind query => exact List.suffix_refl _
  | alternative =>
    simp only [take]
    split
    · exact List.suffix_cons _ _
    · split
      · exact List.suffix_cons _ _
      · exact List.suffix_refl _
  | closing =>
    simp only [take]
    split
    · exact List.suffix_cons _ _
    · rename_i o os _
      exact hpush { a with opened := os } o.close

theorem problems_suffix_takeAll (a : Assembly) (number : Nat) (ls : List SourceLine) :
    a.problems <:+ (a.takeAll number ls).problems := by
  induction ls generalizing a number with
  | nil => exact List.suffix_refl _
  | cons l ls ih => exact (problems_suffix_take a number l).trans (ih _ _)

/-- **A misplaced line is noted**, and there was no problem before it. -/
theorem problems_misplaced {l : SourceLine} {p : Problem} (h : Misplaced ls l p) :
    ((empty.takeAll 1 ls).take (ls.length + 1) l).problems = [p] := by
  have hout : ∀ {os}, Nesting ls os → (empty.takeAll 1 ls).opened.map Open.pending = os ∧
      (empty.takeAll 1 ls).problems = [] := fun h => Prod.mk.injEq .. ▸ outline_nesting h
  cases h with
  | strayElse h =>
    obtain ⟨hopened, hproblems⟩ := hout h
    simp only [take, List.map_eq_nil_iff.1 hopened, note, hproblems]
  | strayEnd h =>
    obtain ⟨hopened, hproblems⟩ := hout h
    simp only [take, List.map_eq_nil_iff.1 hopened, note, hproblems]
  | secondElse h ho =>
    obtain ⟨hopened, hproblems⟩ := hout h
    obtain ⟨q, qs, hq, rfl, rfl⟩ := List.map_eq_cons_iff.1 hopened
    obtain ⟨bs, hbs⟩ := Option.isSome_iff_exists.1 ho
    simp only [take, hq, hbs, note, hproblems]

end Assembly

/-! ### Strict reading -/

variable {ls : List SourceLine} {p : Problem}

theorem problems_assemble_balanced (h : Balanced ls) : (assemble ls).2 = [] := by
  obtain ⟨hopened, hproblems⟩ : _ ∧ _ :=
    Prod.mk.injEq .. ▸ Assembly.outline_nesting (.balanced h)
  show (Assembly.empty.takeAll 1 ls).problems.reverse ++ Assembly.leftOpen _ = []
  rw [hproblems, Assembly.leftOpen, List.map_eq_nil_iff.1 hopened]
  rfl

/-- **A flaw is the first problem of assembling.** -/
theorem problems_assemble_flaw (h : Flaw ls p) : ∃ ps, (assemble ls).2 = p :: ps := by
  show ∃ ps, (Assembly.empty.takeAll 1 ls).problems.reverse ++ Assembly.leftOpen _ = p :: ps
  cases h with
  | @misplaced before after l _ hls h =>
    -- the line is noted first, and what is noted later comes after it
    have hsuffix := Assembly.problems_suffix_takeAll
      ((Assembly.empty.takeAll 1 before).take (before.length + 1) l) (before.length + 2) after
    rw [Assembly.problems_misplaced h] at hsuffix
    obtain ⟨later, hlater⟩ := hsuffix
    have hall : Assembly.empty.takeAll 1 ls =
        ((Assembly.empty.takeAll 1 before).take (before.length + 1) l).takeAll
          (before.length + 2) after := by
      rw [hls, Assembly.takeAll_append, Nat.add_comm]
      rfl
    rw [hall, ← hlater, List.reverse_append]
    exact ⟨_, rfl⟩
  | @unclosed o os h =>
    obtain ⟨hopened, hproblems⟩ : _ ∧ _ := Prod.mk.injEq .. ▸ Assembly.outline_nesting h
    obtain ⟨q, qs, hq, rfl, -⟩ := List.map_eq_cons_iff.1 hopened
    rw [hproblems, Assembly.leftOpen, hq]
    exact ⟨_, rfl⟩

variable {escape : Char} {body : String}

theorem readStrict_balanced (h : Balanced (SourceLine.readAll escape body)) :
    readStrict escape body = .ok (readLenient escape body) := by
  have hnone := problems_assemble_balanced h
  unfold readStrict readLenient
  generalize assemble (SourceLine.readAll escape body) = r at hnone
  obtain ⟨blocks, problems⟩ := r
  cases hnone
  rfl

theorem readStrict_flaw (h : Flaw (SourceLine.readAll escape body) p) :
    readStrict escape body = .error p := by
  obtain ⟨ps, hps⟩ := problems_assemble_flaw h
  unfold readStrict
  generalize assemble (SourceLine.readAll escape body) = r at hps
  obtain ⟨blocks, problems⟩ := r
  cases hps
  rfl

/-- **Strict reading is exact.** A template is accepted if and only if its lines are balanced, with the
blocks that lenient reading gives. Otherwise it fails with the number of the first `else` or `end` line
that no open branch has a place for, or if there is none, with the branch that was opened last of those
that are never closed. -/
theorem readStrict_exact (escape : Char) (body : String) :
    ∃ ls, List.Forall₂ (SourceLine.Says escape) (Text.lines body.toList) ls ∧
      (∀ bs, readStrict escape body = .ok bs ↔ Balanced ls ∧ bs = readLenient escape body) ∧
      ∀ p, readStrict escape body = .error p ↔ Flaw ls p := by
  refine ⟨SourceLine.readAll escape body, SourceLine.says_readAll escape body, fun bs => ?_,
    fun p => ?_⟩
  · constructor
    · intro h
      rcases balanced_or_flaw (SourceLine.readAll escape body) with hb | ⟨p, hp⟩
      · rw [readStrict_balanced hb] at h
        cases h
        exact ⟨hb, rfl⟩
      · rw [readStrict_flaw hp] at h
        cases h
    · rintro ⟨hb, rfl⟩
      exact readStrict_balanced hb
  · constructor
    · intro h
      rcases balanced_or_flaw (SourceLine.readAll escape body) with hb | ⟨q, hq⟩
      · rw [readStrict_balanced hb] at h
        cases h
      · rw [readStrict_flaw hq] at h
        cases h
        exact hq
    · exact readStrict_flaw

end Template
end PassageLogic
