import PassageLogic.Template.Block
import PassageLogic.Text.Blank
import PassageLogic.Text.Lines

/-! # Lines of a template

A line that starts with the escape character and a command word gives a command; every other line is
printed as it is. The word ends at the first blank character, and the text of the command is the rest
of the line, trimmed. -/

namespace PassageLogic

/-- A line of a template, by what it does. -/
inductive SourceLine where
  | print (text : String)
  | command (verb : Verb) (text : String)
  | opening (kind : BranchKind) (query : String)
  | alternative
  | closing
deriving DecidableEq

namespace SourceLine

/-- The word between the body and the alternative of a branch. -/
def alternativeWord : String := "else"

/-- The word that closes a branch. -/
def closingWord : String := "end"

/-- The line that a command word and its text make, if it is a command word. -/
def ofWord? (word text : String) : Option SourceLine :=
  if word = alternativeWord then some .alternative
  else if word = closingWord then some .closing
  else if word = BranchKind.first.word then some (.opening .first text)
  else if word = BranchKind.each.word then some (.opening .each text)
  else (Verb.all.find? fun v => v.word == word).map fun v => .command v text

/-- The line that some characters make under an escape character. -/
def read (escape : Char) (cs : List Char) : SourceLine :=
  match cs with
  | [] => .print ""
  | c :: rest =>
    if c = escape then
      let word := rest.takeWhile fun c => !Text.isBlank c
      let text := Text.trim (rest.dropWhile fun c => !Text.isBlank c)
      (ofWord? (String.ofList word) (String.ofList text)).getD (.print (String.ofList cs))
    else .print (String.ofList cs)

/-- The text of a line under an escape character. -/
def display (escape : Char) : SourceLine → String
  | .print text => text
  | .command verb text => String.singleton escape ++ verb.word ++ " " ++ text
  | .opening kind query => String.singleton escape ++ kind.word ++ " " ++ query
  | .alternative => String.singleton escape ++ alternativeWord
  | .closing => String.singleton escape ++ closingWord

/-- The lines of a template. -/
def readAll (escape : Char) (body : String) : List SourceLine :=
  (Text.lines body.toList).map (read escape)

end SourceLine
end PassageLogic
