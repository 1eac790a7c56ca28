import PassageLogic.Binary64.Numeral

/-! # JSON documents

A document keeps what its text says: numbers as numerals, and objects as lists of members in order,
with repeated names. The escapes of a string may write surrogates that have no partner; such a string
stands for no text, but it is a string all the same. -/

namespace PassageLogic

/-- A JSON document. A missing text is a string that stands for none. -/
inductive Json where
  | null
  | bool (b : Bool)
  | number (n : Numeral)
  | string (s : Option String)
  | array (items : List Json)
  | object (members : List (Option String × Json))

namespace Json

/-- The string of a text. -/
def text (s : String) : Json := .string (some s)

/-- The object with these members. -/
def ofMembers (members : List (String × Json)) : Json :=
  .object (members.map fun m => (some m.1, m.2))

/-- The integer. -/
def ofInt (n : Int) : Json := .number (.ofInt n)

/-- The natural number. -/
def ofNat (n : Nat) : Json := .number (.ofInt (Int.ofNat n))

mutual

/-- The deepest nesting of arrays and objects in a document. -/
def height : Json → Nat
  | .array items => heightItems items + 1
  | .object members => heightMembers members + 1
  | _ => 0

/-- The deepest nesting in items. -/
def heightItems : List Json → Nat
  | [] => 0
  | j :: js => max (height j) (heightItems js)

/-- The deepest nesting in members. -/
def heightMembers : List (Option String × Json) → Nat
  | [] => 0
  | (_, j) :: ms => max (height j) (heightMembers ms)

end

end Json
end PassageLogic
