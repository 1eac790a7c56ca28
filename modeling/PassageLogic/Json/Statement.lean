import PassageLogic.Json.Codec
import PassageLogic.Json.Reader
import PassageLogic.Json.Writer
import PassageLogic.Statement.Line
import PassageLogic.Statement.Misreading

/-! # Documents of statements

Tokens and lines are choices between kinds, statements records of their fields, and expectations
variants. -/

namespace PassageLogic

/-- The document of a token. -/
def Token.toJson : Token → Json
  | .const value => .ofMembers [(Json.kindName, .text "const"), ("value", .text value)]
  | .var name => .ofMembers [(Json.kindName, .text "variable"), ("name", .text name)]

/-- The token of a document. -/
def Token.ofJson? (place : Json.Place) (j : Json) : Option Token := do
  match ← j.choice? place ["const", "variable"] with
  | (0, j) =>
    match ← j.fields? [("value", .refused)] with
    | [value] => return .const (← Json.required Json.text? value)
    | _ => none
  | (_, j) =>
    match ← j.fields? [("name", .refused)] with
    | [name] => return .var (← Json.required Json.text? name)
    | _ => none

/-- The document of a statement. -/
def Statement.toJson (st : Statement) : Json := .ofMembers
  [("predicate_words", .array (st.words.map Json.text)),
   ("tokens", .array (st.tokens.map Token.toJson)), ("negated", .bool st.negated)]

/-- The place of the tokens of a statement at a place. -/
def Statement.tokenPlace : Json.Place → Json.Place
  | .inside count => .inside (count + 2)
  | .buffered => .buffered

/-- The statement of a document. -/
def Statement.ofJson? (place : Json.Place) (j : Json) : Option Statement := do
  match ← j.fields? [("predicate_words", .refused), ("tokens", .refused), ("negated", .allowed)] with
  | [words, tokens, negated] =>
    return {
      words := ← Json.required (Json.list? Json.text?) words
      tokens := ← Json.required (Json.list? (Token.ofJson? (tokenPlace place))) tokens
      negated := ← Json.orElse false Json.bool? negated }
  | _ => none

/-- The document of a line. -/
def Line.toJson : Line → Json
  | .claim st => .ofMembers [(Json.kindName, .text "claim"), ("statement", st.toJson)]
  | .rule head body => .ofMembers
    [(Json.kindName, .text "rule"), ("head", head.toJson),
     ("body", .array (body.map Statement.toJson))]
  | .conjunction sts => .ofMembers
    [(Json.kindName, .text "multistatement"), ("statements", .array (sts.map Statement.toJson))]

/-- The line of a document. -/
def Line.ofJson? (j : Json) : Option Line := do
  match ← j.choice? (.inside 0) ["claim", "rule", "multistatement"] with
  | (0, j) =>
    match ← j.fields? [("statement", .refused)] with
    | [st] => return .claim (← Json.required (Statement.ofJson? .buffered) st)
    | _ => none
  | (1, j) =>
    match ← j.fields? [("head", .refused), ("body", .refused)] with
    | [head, body] =>
      return .rule (← Json.required (Statement.ofJson? .buffered) head)
        (← Json.required (Json.list? (Statement.ofJson? .buffered)) body)
    | _ => none
  | (_, j) =>
    match ← j.fields? [("statements", .refused)] with
    | [sts] =>
      return .conjunction (← Json.required (Json.list? (Statement.ofJson? .buffered)) sts)
    | _ => none

/-- The document of an expectation. -/
def Expectation.toJson : Expectation → Json
  | .literal text => .ofMembers [("Literal", .text text)]
  | .charClass name => .ofMembers [("Class", .text name)]
  | .ending => .text "EndOfInput"

/-- The expectation of a document. -/
def Expectation.ofJson? : Json → Option Expectation
  | .string s => if s = some "EndOfInput" then some .ending else none
  | j => do
    match ← j.variant? with
    | ("Literal", j) => return .literal (← j.text?)
    | ("Class", j) => return .charClass (← j.text?)
    | ("EndOfInput", .null) => return .ending
    | _ => none

end PassageLogic
