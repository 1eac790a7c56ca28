import PassageLogic.Template.Assembly
import PassageLogic.Proofs.Template.SourceLines

/-! # No line is lost

The blocks of a template, read from front to back with each branch before what it holds, are the lines
of its text but for the `else` and `end` lines, whatever problems the template has
(`preorder_readLenient`). An assembly keeps its lines in this order all the way, in the finished blocks
and then in the open branches from the outermost in: to take a line adds it at the end
(`Assembly.preorder_take`), and to close a branch moves lines without changing their order
(`Assembly.preorder_closing`, `Assembly.preorder_closed`). -/

namespace PassageLogic

/-- The line is more than a mark in a branch: it is no `else` and no `end` line. -/
def SourceLine.isContent : SourceLine → Bool
  | .alternative | .closing => false
  | _ => true

namespace Block

mutual

/-- The lines that blocks come from, in pre-order: a branch comes before its body, and the body before
the alternative. -/
def preorder : Block → List SourceLine
  | .print text => [.print text]
  | .command verb text => [.command verb text]
  | .branch kind query body none => .opening kind query :: listPreorder body
  | .branch kind query body (some alternative) =>
    .opening kind query :: (listPreorder body ++ listPreorder alternative)

/-- The lines of blocks in order. -/
def listPreorder : List Block → List SourceLine
  | [] => []
  | b :: bs => preorder b ++ listPreorder bs

end

theorem listPreorder_append (bs cs : List Block) :
    listPreorder (bs ++ cs) = listPreorder bs ++ listPreorder cs := by
  induction bs with
  | nil => rfl
  | cons b bs ih => rw [List.cons_append, listPreorder, listPreorder, ih, List.append_assoc]

theorem listPreorder_reverse_cons (b : Block) (bs : List Block) :
    listPreorder (b :: bs).reverse = listPreorder bs.reverse ++ preorder b := by
  rw [List.reverse_cons, listPreorder_append, listPreorder, listPreorder, List.append_nil]

end Block

namespace Template

open Block (listPreorder listPreorder_reverse_cons)

/-- The lines of an open branch so far. -/
def Open.preorder (o : Open) : List SourceLine :=
  .opening o.kind o.query ::
    (listPreorder o.body.reverse ++ listPreorder (o.alternative.getD []).reverse)

namespace Open

theorem preorder_push (o : Open) (b : Block) : (o.push b).preorder = o.preorder ++ b.preorder := by
  unfold push preorder
  split
  · rename_i bs hbs
    simp only [hbs, Option.getD_some, listPreorder_reverse_cons, List.cons_append,
      List.append_assoc]
  · rename_i hnone
    simp only [hnone, Option.getD_none, List.reverse_nil, listPreorder, List.append_nil,
      listPreorder_reverse_cons, List.cons_append]

theorem preorder_close (o : Open) : o.close.preorder = o.preorder := by
  obtain ⟨kind, query, line, body, alternative⟩ := o
  cases alternative with
  | none =>
    rw [preorder, Option.getD_none, List.reverse_nil, listPreorder, List.append_nil]
    rfl
  | some bs => rfl

end Open

namespace Assembly

/-- The lines of an assembly: those of the finished blocks, and then those of the open branches, the
innermost last. -/
def preorder (a : Assembly) : List SourceLine :=
  listPreorder a.finished.reverse ++ a.opened.reverse.flatMap Open.preorder

theorem preorder_push (a : Assembly) (b : Block) :
    (a.push b).preorder = a.preorder ++ b.preorder := by
  obtain ⟨opened, finished, problems⟩ := a
  cases opened with
  | nil =>
    show listPreorder (b :: finished).reverse ++ [] = listPreorder finished.reverse ++ [] ++ _
    rw [listPreorder_reverse_cons, List.append_nil, List.append_nil]
  | cons o os =>
    simp only [push, preorder, List.reverse_cons, List.flatMap_append, List.flatMap_singleton,
      Open.preorder_push, List.append_assoc]

/-- **To close a branch leaves every line where it is.** -/
theorem preorder_closing (a : Assembly) (o : Open) (os : List Open) :
    ({ a with opened := os }.push o.close).preorder =
      ({ a with opened := o :: os } : Assembly).preorder := by
  rw [preorder_push, Open.preorder_close]
  simp only [preorder, List.reverse_cons, List.flatMap_append, List.flatMap_singleton,
    List.append_assoc]

/-- **A line comes after the lines that were taken before it**, if it is no mark in a branch. -/
theorem preorder_take (a : Assembly) (number : Nat) (l : SourceLine) :
    (a.take number l).preorder = a.preorder ++ [l].filter SourceLine.isContent := by
  cases l with
  | print text => exact preorder_push _ _
  | command verb text => exact preorder_push _ _
  | opening kind query =>
    show listPreorder a.finished.reverse ++ (_ :: a.opened).reverse.flatMap Open.preorder = _
    rw [List.reverse_cons, List.flatMap_append, List.flatMap_singleton, ← List.append_assoc]
    rfl
  | alternative =>
    show _ = a.preorder ++ []
    rw [List.append_nil]
    simp only [take]
    split
    · rfl
    · rename_i o os ho
      split
      · rfl
      · rename_i hnone
        -- the alternative holds no lines yet
        simp only [preorder, ho, List.reverse_cons, List.flatMap_append, List.flatMap_singleton,
          Open.preorder, hnone, Option.getD_some, Option.getD_none]
  | closing =>
    show _ = a.preorder ++ []
    rw [List.append_nil]
    simp only [take]
    split
    · rfl
    · rename_i o os ho
      rw [preorder_closing, ← ho]

theorem preorder_takeAll (a : Assembly) (number : Nat) (ls : List SourceLine) :
    (a.takeAll number ls).preorder = a.preorder ++ ls.filter SourceLine.isContent := by
  induction ls generalizing a number with
  | nil => exact (List.append_nil _).symm
  | cons l ls ih =>
    show ((a.take number l).takeAll (number + 1) ls).preorder = _
    rw [ih, preorder_take, List.append_assoc, ← List.filter_append, List.singleton_append]

/-- Open branches that are closed around a block hold it after their own lines. -/
theorem listPreorder_closeAround (b : Block) (os : List Open) (finished : List Block) :
    listPreorder (closeAround b os finished).reverse =
      listPreorder finished.reverse ++ (os.reverse.flatMap Open.preorder ++ b.preorder) := by
  induction os generalizing b with
  | nil =>
    unfold closeAround
    rw [listPreorder_reverse_cons]
    rfl
  | cons o os ih =>
    unfold closeAround
    rw [ih, Open.preorder_close, Open.preorder_push, List.reverse_cons, List.flatMap_append,
      List.flatMap_singleton, List.append_assoc]

/-- **To close all branches at the end leaves every line where it is.** -/
theorem preorder_closed (a : Assembly) : listPreorder a.closed.reverse = a.preorder := by
  unfold closed preorder
  split
  · rename_i hnil
    rw [hnil]
    exact (List.append_nil _).symm
  · rename_i o os ho
    rw [listPreorder_closeAround, Open.preorder_close, ho, List.reverse_cons, List.flatMap_append,
      List.flatMap_singleton]

end Assembly

/-- **Lenient reading loses, repeats and reorders no line.** However the branches of a template are
opened, split and closed, its blocks in pre-order are what its lines say, line by line, without the
`else` and `end` lines. -/
theorem preorder_readLenient (escape : Char) (body : String) :
    ∃ ls, List.Forall₂ (SourceLine.Says escape) (Text.lines body.toList) ls ∧
      listPreorder (readLenient escape body) = ls.filter SourceLine.isContent := by
  refine ⟨SourceLine.readAll escape body, SourceLine.says_readAll escape body, ?_⟩
  show listPreorder (Assembly.closed _).reverse = _
  rw [Assembly.preorder_closed, Assembly.preorder_takeAll]
  rfl

end Template
end PassageLogic
