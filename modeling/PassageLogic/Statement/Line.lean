import PassageLogic.Statement.Basic

/-! # Lines of statements

A line holds one statement (a claim), a rule, or several statements that belong together. -/

namespace PassageLogic

/-- What one line of statement text says. -/
inductive Line where
  /-- A fact if it is asserted, a goal if it is asked. -/
  | claim (statement : Statement)
  /-- The head holds if every statement of the body does. -/
  | rule (head : Statement) (body : List Statement)
  /-- Several statements, taken together. -/
  | conjunction (statements : List Statement)
deriving DecidableEq

namespace Line

/-- The statements of a line in source order. -/
def statements : Line → List Statement
  | .claim st => [st]
  | .rule head body => head :: body
  | .conjunction sts => sts

/-- One statement is a claim, several are a conjunction. -/
def ofStatements : List Statement → Line
  | [st] => .claim st
  | sts => .conjunction sts

/-- The texts of statements with commas between them. -/
def displayAll (sts : List Statement) : String :=
  Text.joinWith ", " (sts.map Statement.display)

/-- The text of a line. -/
def display : Line → String
  | .claim st => st.display
  | .rule head body => head.display ++ " if " ++ displayAll body
  | .conjunction sts => displayAll sts

theorem statements_ofStatements (sts : List Statement) : (ofStatements sts).statements = sts := by
  rcases sts with _ | ⟨st, _ | ⟨st', sts⟩⟩ <;> rfl

end Line
end PassageLogic
