import PassageLogic.Logic.Engine
import PassageLogic.Statement.Misreading
import PassageLogic.Template.Assembly

/-! # Failures

Everything that can go wrong between a text and its answer, by cause. A fault of the engine keeps its
cause; too many answers are told apart from the other faults, because the answers are then not known
rather than none. -/

namespace PassageLogic

/-- The cause of a failure. -/
inductive Failure where
  /-- A text is no statement line. -/
  | misreading (m : Misreading)
  /-- A template has a flaw in its structure. -/
  | template (p : Template.Problem)
  /-- The engine failed. -/
  | engine (fault : Fault)
  /-- A query has more answers than its limit. -/
  | answerLimit (query : String) (limit : Nat)
  /-- A directive gives an unknown command. -/
  | unknownCommand (command : String)
  /-- There is no passage of this name. -/
  | passageNotFound (name : String)
  /-- A rule was asked. -/
  | notAQuery (text : String)
  /-- A denied statement was to be asserted or retracted. -/
  | deniedClause (text : String)
  /-- Displayed passages are nested too deeply. -/
  | displayDepth (depth : Nat)
deriving DecidableEq

namespace Failure

/-- The failure that a fault makes of a query. -/
def ofFault (fault : Fault) (query : String) : Failure :=
  match fault with
  | .answerLimit limit => .answerLimit query limit
  | fault => .engine fault

/-- The report of a failure. -/
def message : Failure → String
  | .misreading m => m.message
  | .template p => p.message
  | .engine fault => "Engine error: " ++ fault.message
  | .answerLimit query limit =>
    "Query exceeded answer limit of " ++ toString limit ++ ": " ++ query
  | .unknownCommand command => command ++ " is not a meta command"
  | .passageNotFound name => "Passage not found: " ++ name
  | .notAQuery text => "Not a query: " ++ text
  | .deniedClause text => "Cannot assert or retract a negated statement: " ++ text
  | .displayDepth depth => "Display nesting exceeded depth " ++ toString depth

end Failure
end PassageLogic
