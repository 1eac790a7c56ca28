import PassageLogic.Session.Failure
import PassageLogic.Statement.Reading

/-! # Sessions

A session is the state of an engine and two counters: one numbers the variables that stand for
nameless ones, the other the transient rules of conjunctions. A step of a session may fail; what it
did to the session before it failed remains. -/

namespace PassageLogic

/-- The state between two steps. -/
structure Session (σ : Type) where
  engine : σ
  /-- The number of nameless variables so far. -/
  anonymous : Nat
  /-- The number of the next transient rule. -/
  transient : Nat

/-- A step of a session. -/
abbrev Act (σ : Type) := ExceptT Failure (StateM (Session σ))

namespace Act

variable {σ α : Type}

/-- The outcome of a step and the session after it. -/
def runIn (x : Act σ α) (s : Session σ) : Except Failure α × Session σ := x s

/-- The step that does this to a session. -/
def ofRun (f : Session σ → Except Failure α × Session σ) : Act σ α := f

/-- The step whose outcome, failed or not, is its result. -/
def outcome (x : Act σ α) : Act σ (Except Failure α) :=
  ofRun fun s => let (r, t) := x.runIn s; (.ok r, t)

/-- The step that has this outcome. -/
def ofExcept (r : Except Failure α) : Act σ α := ofRun fun s => (r, s)

/-- A call of the engine, whose outcome is the result. -/
def call (f : σ → Except Fault α × σ) : Act σ (Except Fault α) :=
  ofRun fun s => let (r, t) := f s.engine; (.ok r, { s with engine := t })

/-- The result of a call, or its fault as the failure of a query. -/
def orFail (query : String) (r : Except Fault α) : Act σ α :=
  ofExcept (r.mapError fun fault => Failure.ofFault fault query)

/-- The line that a text holds. -/
def readLine (text : String) : Act σ Line :=
  ofExcept ((Line.read text).mapError Failure.misreading)

end Act
end PassageLogic
