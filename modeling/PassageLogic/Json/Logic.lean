import PassageLogic.Json.Codec
import PassageLogic.Json.Reader
import PassageLogic.Json.Writer
import PassageLogic.Logic.Engine

/-! # Documents of the logic

Values are truth values, numbers and strings; a number is an integer if it is one of 64 bits, and one
that is not finite has no document but null, which is read as no value. Terms are variants, literals and
clauses records of their fields, and a record is an object. -/

namespace PassageLogic

/-- The document of a value. -/
def Value.toJson : Value → Json
  | .bool b => .bool b
  | .int n => .ofInt n.toInt
  | .float x => if x.isFinite then .number (Binary64.Style.document.numeral x) else .null
  | .text s => .text s

/-- The value of a document. -/
def Value.ofJson? : Json → Option Value
  | .bool b => some (.bool b)
  | .string (some s) => some (.text s)
  | .number n =>
    match n.number? with
    | some (.natural k) =>
      if k ≤ Int64.maxValue.toInt.toNat then some (.int (Int64.ofNat k))
      else (Binary64.ofFraction? false k 1).map .float
    | some (.negative k) => some (.int (Int64.ofInt k))
    | some (.float x) => some (.float x)
    | none => none
  | _ => none

/-- The document of a term. -/
def Term.toJson : Term → Json
  | .var name => .ofMembers [("Var", .text name)]
  | .const value => .ofMembers [("Const", value.toJson)]

/-- The term of a document. -/
def Term.ofJson? (j : Json) : Option Term := do
  match ← j.variant? with
  | ("Var", j) => return .var (← j.text?)
  | ("Const", j) => return .const (← Value.ofJson? j)
  | _ => none

/-- The document of a literal. -/
def Literal.toJson (l : Literal) : Json := .ofMembers
  [("predicate", .text l.predicate), ("terms", .array (l.terms.map Term.toJson)),
   ("negated", .bool l.negated)]

/-- The fields of a literal. -/
def Literal.fields : List Json.Field :=
  [("predicate", .refused), ("terms", .refused), ("negated", .allowed)]

/-- The literal of a document. -/
def Literal.ofJson? (j : Json) : Option Literal := do
  match ← j.fields? Literal.fields with
  | [predicate, terms, negated] =>
    return {
      predicate := ← Json.required Json.text? predicate
      terms := ← Json.required (Json.list? Term.ofJson?) terms
      negated := ← Json.orElse false Json.bool? negated }
  | _ => none

/-- The document of a clause. -/
def Clause.toJson (c : Clause) : Json :=
  .ofMembers [("head", c.head.toJson), ("body", .array (c.body.map Literal.toJson))]

/-- The clause of a document. -/
def Clause.ofJson? (j : Json) : Option Clause := do
  match ← j.fields? [("head", .refused), ("body", .refused)] with
  | [head, body] =>
    return {
      head := ← Json.required Literal.ofJson? head
      body := ← Json.required (Json.list? Literal.ofJson?) body }
  | _ => none

/-- The document of a record. -/
def Record.toJson (r : Record) : Json := .ofMembers (r.entries.map fun e => (e.1, e.2.toJson))

/-- The record of a document; of two members of one name the later one counts. -/
def Record.ofJson? : Json → Option Record
  | .object members => do
    let entries ← members.mapM fun m => do
      let name ← m.1
      let value ← Value.ofJson? m.2
      return (name, value)
    return Record.ofList entries
  | _ => none

/-- The document of the bounds of a search. -/
def Limits.toJson (l : Limits) : Json :=
  .ofMembers [("max_depth", .ofNat l.depth), ("max_answers", .ofNat l.answers)]

/-- The bounds of a document; missing ones are the usual ones. -/
def Limits.ofJson? (j : Json) : Option Limits := do
  match ← j.fields? [("max_depth", .allowed), ("max_answers", .allowed)] with
  | [depth, answers] =>
    let usual : Limits := {}
    return {
      depth := ← Json.orElse usual.depth Json.size? depth
      answers := ← Json.orElse usual.answers Json.size? answers }
  | _ => none

end PassageLogic
