/-! # Blocks of a template

A template is a list of blocks: lines to print, commands, and branches that hold blocks of their own.
A branch renders its body for the first answer to its query or for each of them, and its alternative,
if it has one, when there is no answer. -/

namespace PassageLogic

/-- What a branch does with the answers to its query. -/
inductive BranchKind where
  /-- Render the body with the first answer. -/
  | first
  /-- Render the body once per answer. -/
  | each
deriving DecidableEq

/-- The word that opens a branch. -/
def BranchKind.word : BranchKind → String
  | .first => "if"
  | .each => "each"

/-- What a command does with its text. -/
inductive Verb where
  /-- Ask a query for its side effects. -/
  | run
  /-- Render another passage in place. -/
  | display
  /-- Render another passage in place, or nothing if that fails. -/
  | displayIfPossible
  /-- Store the clauses of the text. -/
  | assert
  /-- Remove the clauses of the text. -/
  | retract
  /-- Perform the text as an action. -/
  | perform
deriving DecidableEq

/-- The word of a command. -/
def Verb.word : Verb → String
  | .run => "do"
  | .display => "display"
  | .displayIfPossible => "display?"
  | .assert => "assert"
  | .retract => "retract"
  | .perform => "perform"

/-- All commands. -/
def Verb.all : List Verb := [.run, .display, .displayIfPossible, .assert, .retract, .perform]

/-- A node of a template. -/
inductive Block where
  /-- A line of text. -/
  | print (text : String)
  /-- A command and its text. -/
  | command (verb : Verb) (text : String)
  /-- A branch on the answers to a query. -/
  | branch (kind : BranchKind) (query : String) (body : List Block)
      (alternative : Option (List Block))

end PassageLogic
