import PassageLogic.Text.Digits

/-! # Blanks and strings of TOML

Strings are basic or literal, on one line or on several. Basic strings have escapes, literal ones hold
what they show. On several lines, a newline right after the opening quotes does not count, every other
one counts as one newline character, and up to two quotes may stand before the closing ones. -/

namespace PassageLogic.Toml

/-- A space or a tab. -/
def isSpace (c : Char) : Bool := c == ' ' || c == '\t'

/-- The characters after spaces and tabs. -/
def skipSpaces (s : List Char) : List Char := s.dropWhile isSpace

/-- A character that may stand in a comment or, quotes and escapes apart, in a string. -/
def isPlain (c : Char) : Bool := c == '\t' || (0x20 ≤ c.toNat && c.toNat ≤ 0x7E) || 0x80 ≤ c.toNat

/-- The characters after a newline, if one stands here. -/
def newline? : List Char → Option (List Char)
  | '\n' :: r => some r
  | '\r' :: '\n' :: r => some r
  | _ => none

/-- The characters after a comment, if one stands here. -/
def skipComment : List Char → List Char
  | '#' :: r => r.dropWhile isPlain
  | s => s

/-- The characters after the end of a line: a newline or the end of the text, with spaces and a comment
before it. -/
def lineEnd? (s : List Char) : Option (List Char) :=
  match skipComment (skipSpaces s) with
  | [] => some []
  | r => newline? r

/-- The characters after spaces, newlines and comments that end with a newline, which are at most
as many as the fuel. -/
def skipLines : Nat → List Char → List Char
  | 0, s => s
  | fuel + 1, s =>
    let r := skipSpaces s
    match newline? (skipComment r) with
    | some rest => skipLines fuel rest
    | none => r

/-! ### Escapes -/

/-- The character with a code point, which no surrogate has. -/
def charOf? (n : Nat) : Option Char := if n.isValidChar then some (Char.ofNat n) else none

/-- The character that an escape of `count` hexadecimal digits writes, and what is after it. -/
def hexEscape? (count : Nat) (s : List Char) : Option (Char × List Char) := do
  if s.length < count then none
  else
    let c ← charOf? (← Text.numberIn? 16 0 (s.take count))
    return (c, s.drop count)

/-- The character that an escape writes, after its backslash, and what is after it. -/
def escape? : List Char → Option (Char × List Char)
  | 'b' :: r => some ('\x08', r)
  | 'f' :: r => some ('\x0c', r)
  | 'n' :: r => some ('\n', r)
  | 'r' :: r => some ('\r', r)
  | 't' :: r => some ('\t', r)
  | '\\' :: r => some ('\\', r)
  | '"' :: r => some ('"', r)
  | 'u' :: r => hexEscape? 4 r
  | 'U' :: r => hexEscape? 8 r
  | _ => none

/-! ### Strings -/

/-- A string in the making: its characters and what is after its closing quotes. -/
abbrev Ended := Option (List Char × List Char)

/-- One more character in front. -/
def Ended.cons (c : Char) (e : Ended) : Ended := e.map fun (cs, rest) => (c :: cs, rest)

/-- A basic string on one line after its opening quote. -/
def basic? : Nat → List Char → Ended
  | 0, _ => none
  | _ + 1, [] => none
  | _ + 1, '"' :: r => some ([], r)
  | fuel + 1, '\\' :: r =>
    match escape? r with
    | some (c, rest) => Ended.cons c (basic? fuel rest)
    | none => none
  | fuel + 1, c :: r => if isPlain c then Ended.cons c (basic? fuel r) else none

/-- A literal string on one line after its opening quote. -/
def literal? : List Char → Ended
  | [] => none
  | '\'' :: r => some ([], r)
  | c :: r => if isPlain c then Ended.cons c (literal? r) else none

/-- The end of a string on several lines, if three closing quotes stand here, with up to two quotes
before them that belong to the string. -/
def closing? (quote : Char) (s : List Char) : Ended :=
  let run := s.takeWhile (· == quote)
  let inside := min (run.length - 3) 2
  if run.length < 3 then none else some (run.take inside, s.drop (inside + 3))

/-- The characters after a backslash at the end of a line and the blanks after it. -/
def continued? (s : List Char) : Option (List Char) :=
  (newline? (skipSpaces s)).map fun r =>
    r.dropWhile fun c => isSpace c || c == '\n' || c == '\r'

/-- A basic string on several lines after its opening quotes. -/
def basicLines? : Nat → List Char → Ended
  | 0, _ => none
  | _ + 1, [] => none
  | fuel + 1, '"' :: r =>
    match closing? '"' ('"' :: r) with
    | some e => some e
    | none => Ended.cons '"' (basicLines? fuel r)
  | fuel + 1, '\\' :: r =>
    match continued? r with
    | some rest => basicLines? fuel rest
    | none =>
      match escape? r with
      | some (c, rest) => Ended.cons c (basicLines? fuel rest)
      | none => none
  | fuel + 1, c :: r =>
    match newline? (c :: r) with
    | some rest => Ended.cons '\n' (basicLines? fuel rest)
    | none => if isPlain c then Ended.cons c (basicLines? fuel r) else none

/-- A literal string on several lines after its opening quotes. -/
def literalLines? : Nat → List Char → Ended
  | 0, _ => none
  | _ + 1, [] => none
  | fuel + 1, '\'' :: r =>
    match closing? '\'' ('\'' :: r) with
    | some e => some e
    | none => Ended.cons '\'' (literalLines? fuel r)
  | fuel + 1, c :: r =>
    match newline? (c :: r) with
    | some rest => Ended.cons '\n' (literalLines? fuel rest)
    | none => if isPlain c then Ended.cons c (literalLines? fuel r) else none

/-- The characters after a newline, or all of them if none stands here. -/
def dropNewline (s : List Char) : List Char := (newline? s).getD s

/-- A string of any kind. -/
def string? (s : List Char) : Ended :=
  match s with
  | '"' :: '"' :: '"' :: r => basicLines? (r.length + 1) (dropNewline r)
  | '\'' :: '\'' :: '\'' :: r => literalLines? (r.length + 1) (dropNewline r)
  | '"' :: r => basic? (r.length + 1) r
  | '\'' :: r => literal? r
  | _ => none

end PassageLogic.Toml
