import PassageLogic.Toml.Number
import PassageLogic.Toml.Table

/-! # Reading TOML documents

A document is a list of lines: pairs of a key and a value, headers of tables and of tables of arrays,
comments and blank lines. Arrays may run over several lines, inline tables may not. Nesting and dotted
keys are bounded. -/

namespace PassageLogic.Toml

/-- The number of nested arrays and inline tables, and of parts of a key, stays below this bound. -/
def nestingBound : Nat := 80

/-! ### Keys -/

/-- A character of a bare key. -/
def isKeyChar (c : Char) : Bool := c.isAlphanum || c == '-' || c == '_'

/-- A part of a key, quoted or bare, and what is after it. -/
def keyPart? (s : List Char) : Option (String × List Char) :=
  match s with
  | '"' :: r => (basic? (r.length + 1) r).map fun (cs, rest) => (String.ofList cs, rest)
  | '\'' :: r => (literal? r).map fun (cs, rest) => (String.ofList cs, rest)
  | s =>
    match s.takeWhile isKeyChar with
    | [] => none
    | cs => some (String.ofList cs, s.dropWhile isKeyChar)

/-- The parts of a key with at most as many dots as the fuel, and what is after it. -/
def keyParts? : Nat → List Char → Option (List String × List Char)
  | 0, _ => none
  | fuel + 1, s => do
    let (part, r) ← keyPart? (skipSpaces s)
    match skipSpaces r with
    | '.' :: r =>
      let (parts, rest) ← keyParts? fuel r
      return (part :: parts, rest)
    | rest => return ([part], rest)

/-- A key: the parts before its last one, the last one, and what is after it. -/
def key? (s : List Char) : Option (List String × String × List Char) := do
  let (parts, rest) ← keyParts? (nestingBound - 1) s
  return (parts.dropLast, ← parts.getLast?, rest)

/-! ### Values -/

/-- A value and what is after it. -/
abbrev ValueReader := List Char → Option (Scalar × List Char)

/-- The characters after the items of an array and its end. -/
def items? (value : ValueReader) : Nat → List Char → Option (List Char)
  | 0, _ => none
  | fuel + 1, s =>
    match skipLines s.length s with
    | ']' :: rest => some rest
    | r => do
      let (_, r) ← value r
      match skipLines r.length r with
      | ',' :: r => items? value fuel r
      | ']' :: rest => some rest
      | _ => none

/-- A pair of a key and a value. -/
def pair? (value : ValueReader) (s : List Char) : Option (Pair × List Char) := do
  let (path, key, r) ← key? s
  let r ← mark? '=' r
  let (v, rest) ← value (skipSpaces r)
  return (⟨path, key, v⟩, rest)

/-- The pairs of an inline table, of which there is at least one, and what is after its end. -/
def inlinePairs? (value : ValueReader) : Nat → List Char → Option (List Pair × List Char)
  | 0, _ => none
  | fuel + 1, s => do
    let (p, r) ← pair? value s
    match skipSpaces r with
    | ',' :: r =>
      let (ps, rest) ← inlinePairs? value fuel r
      return (p :: ps, rest)
    | '}' :: rest => return ([p], rest)
    | _ => none

/-- The characters after an inline table. -/
def inline? (value : ValueReader) (s : List Char) : Option (List Char) :=
  match skipSpaces s with
  | '}' :: rest => some rest
  | r => do
    let (ps, rest) ← inlinePairs? value (r.length + 1) r
    let _ ← addPairs [] ps
    return rest

/-- A date, a float or an integer. -/
def numeric? (s : List Char) : Option (Scalar × List Char) :=
  match date? s with
  | some rest => some (.other, rest)
  | none =>
    match float? s with
    | some rest => some (.other, rest)
    | none => (integer? s).map fun (n, rest) => (.integer n, rest)

/-- A value with room for this many nested arrays and inline tables. -/
def value? : Nat → ValueReader
  | room, s =>
    match s with
    | '"' :: _ => (string? s).map fun (cs, rest) => (.text (String.ofList cs), rest)
    | '\'' :: _ => (string? s).map fun (cs, rest) => (.text (String.ofList cs), rest)
    | '[' :: r =>
      match room with
      | 0 => none
      | room + 1 => (items? (value? room) (r.length + 1) r).map fun rest => (.other, rest)
    | '{' :: r =>
      match room with
      | 0 => none
      | room + 1 => (inline? (value? room) r).map fun rest => (.other, rest)
    | 't' :: 'r' :: 'u' :: 'e' :: r => some (.boolean true, r)
    | 'f' :: 'a' :: 'l' :: 's' :: 'e' :: r => some (.boolean false, r)
    | s => numeric? s

/-- A value of a line. -/
def lineValue? : ValueReader := value? (nestingBound - 1)

/-! ### Lines -/

/-- A line that is not blank. -/
inductive Entry where
  | pair (p : Pair)
  | header (isItem : Bool) (path : List String) (key : String)

/-- A header after its opening brackets. -/
def header? (isItem : Bool) (s : List Char) : Option (Entry × List Char) := do
  let (path, key, r) ← key? s
  let r ← mark? ']' r
  let rest ← if isItem then mark? ']' r else some r
  return (.header isItem path key, rest)

/-- What is on a line that is not blank, and what is after it. -/
def entry? : List Char → Option (Entry × List Char)
  | '[' :: '[' :: r => header? true r
  | '[' :: r => header? false r
  | s => (pair? lineValue? s).map fun (p, rest) => (.pair p, rest)

/-- The lines that are not blank; every line takes a character or is the last one. -/
def entries? : Nat → List Char → Option (List Entry)
  | 0, _ => none
  | fuel + 1, s =>
    match skipSpaces s with
    | [] => some []
    | r =>
      match newline? (skipComment r) with
      | some rest => entries? fuel rest
      | none =>
        if skipComment r = [] then some []
        else do
          let (e, rest) ← entry? r
          return e :: (← entries? fuel (← lineEnd? rest))

/-- The pairs at the front of lines, and the lines from the first header on. -/
def leadingPairs : List Entry → List Pair × List Entry
  | .pair p :: es =>
    let (ps, rest) := leadingPairs es
    (p :: ps, rest)
  | es => ([], es)

theorem length_leadingPairs_le (es : List Entry) : (leadingPairs es).2.length ≤ es.length := by
  induction es with
  | nil => simp [leadingPairs]
  | cons e es ih =>
    cases e with
    | pair p => exact Nat.le_succ_of_le ih
    | header => simp [leadingPairs]

/-- The sections of lines that start with a header. -/
def sections : List Entry → List Section
  | [] => []
  | .pair _ :: es => sections es
  | .header isItem path key :: es =>
    ⟨isItem, path, key, (leadingPairs es).1⟩ :: sections (leadingPairs es).2
termination_by es => es.length
decreasing_by
  · simp
  · exact Nat.lt_succ_of_le (length_leadingPairs_le es)

/-- The table of a document. -/
def read? (text : String) : Option Members := do
  let s := match text.toList with
    | '\uFEFF' :: r => r
    | s => s
  let es ← entries? (s.length + 1) s
  let (ps, rest) := leadingPairs es
  (sections rest).foldlM addSection (← addPairs [] ps)

end PassageLogic.Toml
