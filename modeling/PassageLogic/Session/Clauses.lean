import PassageLogic.Session.Basic

/-! # Clauses of statements

The words of a statement become the predicate of a literal and its tokens the terms. Constants are
texts; a nameless variable gets a name of its own that no statement text can give, since it contains
a parenthesis. A claim is a fact, a rule is a rule, and a conjunction is one fact per statement; none
of their heads may be denied. -/

namespace PassageLogic

/-- The name of the `n`-th nameless variable. -/
def anonymousName (n : Nat) : String := "(anon" ++ toString n ++ ")"

/-- The terms of tokens, if `n` nameless variables came before, and how many there are after. -/
def Token.terms : List Token → Nat → List Term × Nat
  | [], n => ([], n)
  | .const value :: ts, n =>
    let (rest, m) := Token.terms ts n
    (.const (.text value) :: rest, m)
  | .var name :: ts, n =>
    if name = "" then
      let (rest, m) := Token.terms ts (n + 1)
      (.var (anonymousName n) :: rest, m)
    else
      let (rest, m) := Token.terms ts n
      (.var name :: rest, m)

/-- The literal of a statement. -/
def Statement.literal (st : Statement) (n : Nat) : Literal × Nat :=
  let (terms, m) := Token.terms st.tokens n
  (⟨st.predicate, terms, st.negated⟩, m)

/-- The literals of statements in order. -/
def Statement.literals : List Statement → Nat → List Literal × Nat
  | [], n => ([], n)
  | st :: sts, n =>
    let (l, m) := st.literal n
    let (ls, k) := Statement.literals sts m
    (l :: ls, k)

/-- No statement of a line that would be the head of a clause is denied. -/
def Line.headsPositive : Line → Bool
  | .claim st => !st.negated
  | .rule head _ => !head.negated
  | .conjunction sts => sts.all fun st => !st.negated

/-- The clauses of a line. The nameless variables of a body are numbered before those of its head. -/
def Line.clauses : Line → Nat → List Clause × Nat
  | .claim st, n =>
    let (l, m) := st.literal n
    ([.fact l], m)
  | .rule head body, n =>
    let (ls, m) := Statement.literals body n
    let (l, k) := head.literal m
    ([⟨l, ls⟩], k)
  | .conjunction sts, n =>
    let (ls, m) := Statement.literals sts n
    (ls.map Clause.fact, m)

namespace Act

variable {σ α : Type}

/-- What depends on the number of nameless variables so far, and counts those it adds. -/
def numbering (f : Nat → α × Nat) : Act σ α :=
  ofRun fun s => let (a, n) := f s.anonymous; (.ok a, { s with anonymous := n })

/-- The clauses that a text describes. -/
def clausesOf (text : String) : Act σ (List Clause) := do
  let l ← readLine text
  if l.headsPositive then numbering l.clauses else throw (.deniedClause text)

/-- Assert clauses in order until one fails. -/
def assertAll (e : Engine σ) : List Clause → Act σ (Except Fault Unit)
  | [] => pure (.ok ())
  | c :: cs => do
    match ← call (e.assert c) with
    | .ok () => assertAll e cs
    | .error fault => pure (.error fault)

/-- Retract clauses in order until one fails. -/
def retractAll (e : Engine σ) : List Clause → Act σ (Except Fault Unit)
  | [] => pure (.ok ())
  | c :: cs => do
    match ← call (e.retract c) with
    | .ok _ => retractAll e cs
    | .error fault => pure (.error fault)

/-- Store every clause that a text describes. -/
def assertText (e : Engine σ) (text : String) : Act σ Unit := do
  let cs ← clausesOf text
  orFail text (← assertAll e cs)

/-- Remove every clause that a text describes; those that are not there are passed over. -/
def retractText (e : Engine σ) (text : String) : Act σ Unit := do
  let cs ← clausesOf text
  orFail text (← retractAll e cs)

end Act
end PassageLogic
