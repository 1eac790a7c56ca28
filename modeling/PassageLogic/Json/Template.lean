import PassageLogic.Json.Logic
import PassageLogic.Template.Block
import PassageLogic.Passage
import PassageLogic.Session.Perform
import PassageLogic.Settings

/-! # Documents of templates, passages and directives

Blocks are choices between kinds; every other type is a record of its fields. -/

namespace PassageLogic

namespace Block

mutual

/-- The document of a block. -/
def toJson : Block → Json
  | .print text => .ofMembers [(Json.kindName, .text "print"), ("text", .text text)]
  | .command .run text => .ofMembers [(Json.kindName, .text "do"), ("query", .text text)]
  | .command .display text => .ofMembers
    [(Json.kindName, .text "display"), ("query", .text text), ("optional", .bool false)]
  | .command .displayIfPossible text => .ofMembers
    [(Json.kindName, .text "display"), ("query", .text text), ("optional", .bool true)]
  | .command verb text => .ofMembers [(Json.kindName, .text verb.word), ("text", .text text)]
  | .branch kind query body none => .ofMembers
    [(Json.kindName, .text kind.word), ("query", .text query), ("body", .array (listToJson body)),
     ("else_body", .null)]
  | .branch kind query body (some alternative) => .ofMembers
    [(Json.kindName, .text kind.word), ("query", .text query), ("body", .array (listToJson body)),
     ("else_body", .array (listToJson alternative))]

/-- The documents of blocks. -/
def listToJson : List Block → List Json
  | [] => []
  | b :: bs => toJson b :: listToJson bs

end

/-- The kinds of blocks in order. -/
def kinds : List String := ["print", "if", "each", "do", "display", "assert", "retract", "perform"]

/-- The fields of a branch. -/
def branchFields : List Json.Field :=
  [("query", .refused), ("body", .refused), ("else_body", .asNull)]

/-- The block that is nothing but a text in this field. -/
def ofText? (field : String) (f : String → Block) (j : Json) : Option Block := do
  match ← j.fields? [(field, .refused)] with
  | [text] => return f (← Json.required Json.text? text)
  | _ => none

/-- The command to display that a document gives. -/
def ofDisplay? (j : Json) : Option Block := do
  match ← j.fields? [("query", .refused), ("optional", .refused)] with
  | [query, optional] =>
    let text ← Json.required Json.text? query
    let verb := if ← Json.required Json.bool? optional then Verb.displayIfPossible else .display
    return .command verb text
  | _ => none

/-- The block of a document, with fuel for the blocks in it. -/
def ofJsonWithin? : Nat → Json.Place → Json → Option Block
  | 0, _, _ => none
  | fuel + 1, place, j => do
    let nested : Json → Option (List Block) := Json.list? (ofJsonWithin? fuel .buffered)
    let branch (kind : BranchKind) (j : Json) : Option Block := do
      match ← j.fields? branchFields with
      | [query, body, alternative] =>
        let query ← Json.required Json.text? query
        let body ← Json.required nested body
        match alternative with
        | some .null => return .branch kind query body none
        | _ => return .branch kind query body (some (← Json.required nested alternative))
      | _ => none
    match ← j.choice? place kinds with
    | (0, j) => ofText? "text" .print j
    | (1, j) => branch .first j
    | (2, j) => branch .each j
    | (3, j) => ofText? "query" (.command .run) j
    | (4, j) => ofDisplay? j
    | (5, j) => ofText? "text" (.command .assert) j
    | (6, j) => ofText? "text" (.command .retract) j
    | (_, j) => ofText? "text" (.command .perform) j

/-- The block of a document. -/
def ofJson? (j : Json) : Option Block := ofJsonWithin? (j.height + 1) (.inside 0) j

end Block

/-- The document of a passage. -/
def Passage.toJson (p : Passage) : Json := .ofMembers [("name", .text p.name), ("body", .text p.body)]

/-- The passage of a document. -/
def Passage.ofJson? (j : Json) : Option Passage := do
  match ← j.fields? [("name", .refused), ("body", .refused)] with
  | [name, body] =>
    return { name := ← Json.required Json.text? name, body := ← Json.required Json.text? body }
  | _ => none

/-- The shelf with the passages of a document, which is an array of them. -/
def Shelf.ofJson? (j : Json) : Option Shelf := (j.list? Passage.ofJson?).map Shelf.ofList

/-- The document of a directive. -/
def Directive.toJson (d : Directive) : Json := .ofMembers
  [("command", .text d.command), ("predicate", .text d.predicate),
   ("args", .array (d.args.map Value.toJson))]

/-- The directive of a document. -/
def Directive.ofJson? (j : Json) : Option Directive := do
  match ← j.fields? [("command", .refused), ("predicate", .refused), ("args", .refused)] with
  | [command, predicate, args] =>
    return {
      command := ← Json.required Json.text? command
      predicate := ← Json.required Json.text? predicate
      args := ← Json.required (Json.list? Value.ofJson?) args }
  | _ => none

/-- The document of the settings. -/
def Settings.toJson (s : Settings) : Json := .ofMembers
  [("if_limit", .ofNat s.ifLimit), ("each_limit", .ofNat s.eachLimit),
   ("max_display_depth", .ofNat s.displayDepth), ("strict_blocks", .bool s.strict),
   ("command_escape", .text (String.singleton s.escape))]

/-- The fields of the settings. -/
def Settings.fields : List Json.Field :=
  [("if_limit", .allowed), ("each_limit", .allowed), ("max_display_depth", .allowed),
   ("strict_blocks", .allowed), ("command_escape", .allowed)]

/-- The settings of a document; missing ones are the usual ones. -/
def Settings.ofJson? (j : Json) : Option Settings := do
  match ← j.fields? Settings.fields with
  | [ifLimit, eachLimit, displayDepth, strict, escape] =>
    let usual : Settings := {}
    return {
      ifLimit := ← Json.orElse usual.ifLimit Json.size? ifLimit
      eachLimit := ← Json.orElse usual.eachLimit Json.size? eachLimit
      displayDepth := ← Json.orElse usual.displayDepth Json.size? displayDepth
      strict := ← Json.orElse usual.strict Json.bool? strict
      escape := ← Json.orElse usual.escape Json.char? escape }
  | _ => none

end PassageLogic
