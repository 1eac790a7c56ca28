import PassageLogic.Session.Clauses
import PassageLogic.Logic.Transient

/-! # Asking

Answers are records of the named variables of the query, each distinct record once, in the order of
the engine. A conjunction is asked through a transient rule whose body are its statements and whose
head lists their named variables; the rule is retracted again however the query ends. -/

namespace PassageLogic

/-- The first distinct records of a stream, cut down to the visible names: at most `limit` of them if
there is a limit. It fails if a fault comes before there are that many. `seen` are the records that
came before. -/
def gather (visible : List String) : Option Nat → List Record → List Item →
    Except Fault (List Record)
  | some 0, _, _ => .ok []
  | _, _, [] => .ok []
  | _, _, .error fault :: _ => .error fault
  | limit, seen, .ok r :: items =>
    let record := r.keep visible.contains
    if seen.contains record then gather visible limit seen items
    else (gather visible (limit.map (· - 1)) (record :: seen) items).map (record :: ·)

namespace Act

variable {σ : Type}

/-- The distinct answers to a literal, with those names visible; `query` names it in a failure. -/
def collect (e : Engine σ) (l : Literal) (visible : List String) (limit : Option Nat)
    (query : String) : Act σ (List Record) := do
  let items ← orFail query (← call (e.query l))
  orFail query (gather visible limit [] items)

/-- The named variables of statements, in the order in which they first occur. -/
def visibleNames (sts : List Statement) : List String :=
  (sts.flatMap Statement.vars).eraseDups

/-- The head of the `n`-th transient rule over these variables. -/
def transientHead (n : Nat) (visible : List String) : Literal :=
  .of (Text.joinWith " " (Transient.name n :: List.replicate visible.length placeholder))
    (visible.map Term.var)

/-- The number of a new transient rule. -/
def newTransient : Act σ Nat :=
  ofRun fun s => (.ok s.transient, { s with transient := s.transient + 1 })

/-- Ask statements together. -/
def askAll (e : Engine σ) (sts : List Statement) (limit : Option Nat) : Act σ (List Record) := do
  let visible := visibleNames sts
  let query := Line.displayAll sts
  let head := transientHead (← newTransient) visible
  let body ← numbering (Statement.literals sts)
  let rule : Clause := ⟨head, body⟩
  orFail query (← call (e.assert rule))
  let answers ← outcome (collect e head visible limit query)
  let retracted ← call (e.retract rule)
  let records ← ofExcept answers
  let _ ← orFail query retracted
  return records

/-- Ask a line. -/
def askLine (e : Engine σ) (l : Line) (limit : Option Nat) : Act σ (List Record) :=
  match l with
  | .claim st => do
    let literal ← numbering st.literal
    collect e literal st.vars limit st.display
  | .conjunction sts => askAll e sts limit
  | .rule _ _ => throw (.notAQuery l.display)

/-- Ask a text. -/
def ask (e : Engine σ) (text : String) (limit : Option Nat) : Act σ (List Record) := do
  askLine e (← readLine text) limit

/-- Ask a line for its side effects; the result is the number of answers. -/
def drain (e : Engine σ) (l : Line) : Act σ Nat := do
  return (← askLine e l none).length

end Act
end PassageLogic
