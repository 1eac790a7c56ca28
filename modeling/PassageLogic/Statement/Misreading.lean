import PassageLogic.Text.Quoted
import PassageLogic.Text.Join

/-! # Misreadings

When a line is no statement text, the report names the farthest position that reading reached, what
could have stood there, and what does stand there. Expectations are sorted, literals by their text
before classes before the end, and none is named twice. -/

namespace PassageLogic

/-- Something that could have stood at the position of a failure. -/
inductive Expectation where
  /-- This very text. -/
  | literal (text : String)
  /-- A character of this class. -/
  | charClass (name : String)
  /-- The end of the input. -/
  | ending
deriving DecidableEq

namespace Expectation

/-- The text of an expectation in a report. -/
def display : Expectation → String
  | .literal text => Text.quoted text
  | .charClass name => name
  | .ending => "end of input"

/-- The place of the kinds of expectations in the order. -/
def rank : Expectation → Nat
  | .literal _ => 0
  | .charClass _ => 1
  | .ending => 2

/-- What expectations of one kind are ordered by. -/
def label : Expectation → String
  | .literal text => text
  | .charClass name => name
  | .ending => ""

/-- The order of expectations: by kind, then by their text. -/
def le (a b : Expectation) : Bool :=
  a.rank < b.rank || (a.rank == b.rank && decide (a.label ≤ b.label))

/-- The expectations in order, each once. -/
def sorted (es : List Expectation) : List Expectation := (es.mergeSort le).eraseReps

/-- A list of alternatives in words. -/
def alternatives : List String → String
  | [] => "nothing"
  | [only] => only
  | [first, second] => first ++ " or " ++ second
  | many => Text.joinWith ", " many.dropLast ++ ", or " ++ many.getLastD ""

end Expectation

/-- A failure to read a line. -/
structure Misreading where
  /-- The number of bytes before the failure. -/
  offset : Nat
  /-- The line of the failure, from one. -/
  line : Nat
  /-- The column of the failure in characters, from one. -/
  column : Nat
  /-- What could have stood there. -/
  expected : List Expectation
  /-- What does stand there, if it is not the end. -/
  found : Option Char
deriving DecidableEq

namespace Misreading

/-- The report of a failure. -/
def message (m : Misreading) : String :=
  "Expected " ++ Expectation.alternatives (m.expected.map Expectation.display) ++ " but " ++
    (match m.found with
      | some c => Text.quoted (String.singleton c)
      | none => "end of input") ++
    " found at line " ++ toString m.line ++ ", column " ++ toString m.column

/-- The number of bytes of these characters. -/
def byteCount (cs : List Char) : Nat := (String.ofList cs).utf8ByteSize

/-- The line on which the text after these characters starts. -/
def lineAfter (consumed : List Char) : Nat := consumed.count '\n' + 1

/-- The column at which the text after these characters starts. -/
def columnAfter (consumed : List Char) : Nat :=
  (consumed.reverse.takeWhile (· ≠ '\n')).length + 1

end Misreading
end PassageLogic
