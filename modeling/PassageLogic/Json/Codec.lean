import PassageLogic.Json.Number

/-! # Data in documents

A record of fields is an object whose members are found by name; unknown members are passed over, but
no field may come twice. An array of the fields in order is read as well. A choice between kinds is
an object whose member `kind` names the kind and whose other members are the fields, or an array with
the kind in front; it is read as a whole first, so everything in it must be sound and not nested too
deeply, even what is then passed over. -/

namespace PassageLogic.Json

/-- What a field may do instead of being there. -/
inductive Absence where
  /-- It must be there. -/
  | refused
  /-- It may be missing from an object, where it is then null. -/
  | asNull
  /-- It may be missing. -/
  | allowed
deriving DecidableEq

/-- A field: its name and what may be instead of it. -/
abbrev Field := String × Absence

/-- The one member of a name: nothing if there are several. -/
def single? (name : String) (members : List (Option String × Json)) : Option (Option Json) :=
  match members.filter fun m => m.1 == some name with
  | [] => some none
  | [m] => some (some m.2)
  | _ => none

/-- The values of the fields of an object. -/
def objectFields (members : List (Option String × Json)) : List Field → Option (List (Option Json))
  | [] => some []
  | (name, absence) :: fs => do
    let found ← single? name members
    let value ← match found, absence with
      | some j, _ => some (some j)
      | none, .refused => none
      | none, .asNull => some (some Json.null)
      | none, .allowed => some none
    return value :: (← objectFields members fs)

/-- The values of the fields of an array. -/
def arrayFields : List Json → List Field → Option (List (Option Json))
  | [], [] => some []
  | _ :: _, [] => none
  | j :: js, _ :: fs => (arrayFields js fs).map (some j :: ·)
  | [], (_, absence) :: fs =>
    if absence = .allowed then (arrayFields [] fs).map (none :: ·) else none

/-- The values of the fields of a record, where a missing field is nothing. -/
def fields? (fs : List Field) : Json → Option (List (Option Json))
  | .object members =>
    if members.all fun m => m.1.isSome then objectFields members fs else none
  | .array items => arrayFields items fs
  | _ => none

/-- The value of a field that must be there. -/
def required {α : Type} (decode : Json → Option α) (j : Option Json) : Option α := j.bind decode

/-- The value of a field, or this one if it is missing. -/
def orElse {α : Type} (missing : α) (decode : Json → Option α) : Option Json → Option α
  | some j => decode j
  | none => some missing

/-- The text of a string. -/
def text? : Json → Option String
  | .string s => s
  | _ => none

/-- A truth value. -/
def bool? : Json → Option Bool
  | .bool b => some b
  | _ => none

/-- A size: a natural number of 64 bits. -/
def size? : Json → Option Nat
  | .number n =>
    match n.number? with
    | some (.natural k) => some k
    | _ => none
  | _ => none

/-- The only character of a string. -/
def char? (j : Json) : Option Char := do
  match (← text? j).toList with
  | [c] => some c
  | _ => none

/-- The items of an array, each decoded. -/
def list? {α : Type} (decode : Json → Option α) : Json → Option (List α)
  | .array items => items.mapM decode
  | _ => none

/-! ### Kinds -/

/-- The member that names the kind. -/
def kindName : String := "kind"

/-- The deepest nesting of what is read as a whole. -/
def deepest : Nat := 127

/-- Where a document stands: among so many arrays and objects around it, or inside a document that
was already read as a whole. -/
inductive Place where
  | inside (count : Nat)
  | buffered

/-- What stands here can be read as a whole. -/
def isReadable (place : Place) (j : Json) : Bool :=
  match place with
  | .inside count => j.isSound && count + j.height ≤ deepest
  | .buffered => true

/-- The position of a kind among all kinds. Inside of what was read as a whole, the position itself
may stand for it. -/
def kindIndex? (place : Place) (kinds : List String) (j : Json) : Option Nat :=
  match j, place with
  | .string (some s), _ => kinds.idxOf? s
  | .number n, .buffered =>
    match n.number? with
    | some (.natural k) => if k < kinds.length then some k else none
    | _ => none
  | _, _ => none

/-- The position of the kind of a choice, and its fields. -/
def choice? (place : Place) (kinds : List String) (j : Json) : Option (Nat × Json) :=
  if isReadable place j then
    match j with
    | .object members => do
      let kind ← (← single? kindName members)
      let k ← kindIndex? place kinds kind
      return (k, .object (members.filter fun m => m.1 != some kindName))
    | .array (kind :: items) => do
      let k ← kindIndex? place kinds kind
      return (k, .array items)
    | _ => none
  else none

/-- The name and the content of an object that holds nothing but a named content. -/
def variant? : Json → Option (String × Json)
  | .object [(some name, j)] => some (name, j)
  | _ => none

end PassageLogic.Json
