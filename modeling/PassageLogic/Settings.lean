/-! # Settings of the renderer -/

namespace PassageLogic

/-- What an author can set about templates and their rendering. -/
structure Settings where
  /-- The answers asked for by an `if`. -/
  ifLimit : Nat := 1
  /-- The most answers that an `each` goes through. -/
  eachLimit : Nat := 100
  /-- The deepest nesting of displayed passages. -/
  displayDepth : Nat := 16
  /-- Templates with a flaw in their structure are refused. -/
  strict : Bool := false
  /-- The character that starts a command line. -/
  escape : Char := '\\'
deriving DecidableEq

end PassageLogic
