import PassageLogic.Template.Line

/-! # Assembling a template

The lines of a template are taken one by one, with a stack of the branches that are open. An `else` or
`end` without an open branch, a second `else` of one branch and a branch that is never closed are
problems: strict assembly fails with the first of them in the order in which they are found, lenient
assembly ignores the line or closes the branch at the end. -/

namespace PassageLogic

namespace Template

/-- A flaw in the structure of a template. -/
inductive Problem where
  /-- An `else` or `end` without an open branch. -/
  | stray (line : Nat) (word : String)
  /-- A second `else` of one branch. -/
  | secondElse (line : Nat)
  /-- A branch that is never closed. -/
  | unclosed (line : Nat) (word : String)
deriving DecidableEq

/-- The report of a problem. -/
def Problem.message : Problem → String
  | .stray line word => "line " ++ toString line ++ ": `" ++ word ++ "` has no open block"
  | .secondElse line => "line " ++ toString line ++ ": block already has an `else`"
  | .unclosed line word =>
    "line " ++ toString line ++ ": `" ++ word ++ "` block is never closed"

/-- An open branch: the line that opened it, and its blocks so far, the latest first. -/
structure Open where
  kind : BranchKind
  query : String
  line : Nat
  body : List Block
  alternative : Option (List Block)

namespace Open

/-- The open branch with one more block. -/
def push (o : Open) (b : Block) : Open :=
  match o.alternative with
  | some bs => { o with alternative := some (b :: bs) }
  | none => { o with body := b :: o.body }

/-- The branch when it is closed. -/
def close (o : Open) : Block :=
  .branch o.kind o.query o.body.reverse (o.alternative.map List.reverse)

end Open

/-- A template that is being assembled: the open branches, the innermost first, the finished blocks
outside all of them and the problems so far, the latest first of each. -/
structure Assembly where
  opened : List Open
  finished : List Block
  problems : List Problem

namespace Assembly

/-- Nothing is assembled yet. -/
def empty : Assembly := ⟨[], [], []⟩

/-- Add a block to the innermost open branch, or outside all of them. -/
def push (a : Assembly) (b : Block) : Assembly :=
  match a.opened with
  | [] => { a with finished := b :: a.finished }
  | o :: os => { a with opened := o.push b :: os }

/-- Note a problem. -/
def note (a : Assembly) (p : Problem) : Assembly := { a with problems := p :: a.problems }

/-- Take the line with this number. -/
def take (a : Assembly) (number : Nat) : SourceLine → Assembly
  | .print text => a.push (.print text)
  | .command verb text => a.push (.command verb text)
  | .opening kind query => { a with opened := ⟨kind, query, number, [], none⟩ :: a.opened }
  | .alternative =>
    match a.opened with
    | [] => a.note (.stray number SourceLine.alternativeWord)
    | o :: os =>
      match o.alternative with
      | some _ => a.note (.secondElse number)
      | none => { a with opened := { o with alternative := some [] } :: os }
  | .closing =>
    match a.opened with
    | [] => a.note (.stray number SourceLine.closingWord)
    | o :: os => { a with opened := os }.push o.close

/-- Take lines, the first of which has this number. -/
def takeAll : Assembly → Nat → List SourceLine → Assembly
  | a, _, [] => a
  | a, number, l :: ls => takeAll (a.take number l) (number + 1) ls

theorem takeAll_append (a : Assembly) (number : Nat) (ls ms : List SourceLine) :
    a.takeAll number (ls ++ ms) = (a.takeAll number ls).takeAll (number + ls.length) ms := by
  induction ls generalizing a number with
  | nil => rfl
  | cons l ls ih =>
    show (a.take number l).takeAll (number + 1) (ls ++ ms) = _
    rw [ih, List.length_cons, Nat.add_right_comm]
    rfl

/-- Add a block to the innermost open branch and close all branches, each into the one around it. -/
def closeAround (b : Block) : List Open → List Block → List Block
  | [], finished => b :: finished
  | o :: os, finished => closeAround (o.push b).close os finished

/-- The finished blocks once all open branches are closed at the end, the latest first. -/
def closed (a : Assembly) : List Block :=
  match a.opened with
  | [] => a.finished
  | o :: os => closeAround o.close os a.finished

/-- The problems of the branches that are still open, the innermost first. -/
def leftOpen (a : Assembly) : List Problem :=
  a.opened.map fun o => .unclosed o.line o.kind.word

/-- The blocks and the problems of a template, in order. -/
def finish (a : Assembly) : List Block × List Problem :=
  (a.closed.reverse, a.problems.reverse ++ a.leftOpen)

end Assembly

/-- The blocks that lines make, and the problems on the way. -/
def assemble (ls : List SourceLine) : List Block × List Problem :=
  (Assembly.empty.takeAll 1 ls).finish

/-- The blocks of a template, whatever problems it has. -/
def readLenient (escape : Char) (body : String) : List Block :=
  (assemble (SourceLine.readAll escape body)).1

/-- The blocks of a template without problems. -/
def readStrict (escape : Char) (body : String) : Except Problem (List Block) :=
  match assemble (SourceLine.readAll escape body) with
  | (blocks, []) => .ok blocks
  | (_, p :: _) => .error p

/-- The blocks of a template, strictly or not. -/
def read (escape : Char) (strict : Bool) (body : String) : Except Problem (List Block) :=
  if strict then readStrict escape body else .ok (readLenient escape body)

end Template
end PassageLogic
