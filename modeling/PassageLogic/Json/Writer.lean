import PassageLogic.Json.Basic

/-! # Writing documents

Documents are written without blanks. In strings, quotes, backslashes and the controls below the
space are escaped and nothing else is. -/

namespace PassageLogic.Json

/-- A digit in lower-case hexadecimal. -/
def hexDigit (n : Nat) : Char := (Nat.toDigits 16 n).headD '0'

/-- A character of a string as it is written. -/
def writeChar (c : Char) : List Char :=
  match c with
  | '"' => ['\\', '"']
  | '\\' => ['\\', '\\']
  | '\x08' => ['\\', 'b']
  | '\t' => ['\\', 't']
  | '\n' => ['\\', 'n']
  | '\x0c' => ['\\', 'f']
  | '\r' => ['\\', 'r']
  | c =>
    if c.toNat < 0x20 then
      ['\\', 'u', '0', '0', hexDigit (c.toNat / 16), hexDigit (c.toNat % 16)]
    else [c]

/-- A string as it is written. -/
def writeString (s : String) : List Char := '"' :: s.toList.flatMap writeChar ++ ['"']

mutual

/-- A document as it is written. -/
def chars : Json → List Char
  | .null => ['n', 'u', 'l', 'l']
  | .bool true => ['t', 'r', 'u', 'e']
  | .bool false => ['f', 'a', 'l', 's', 'e']
  | .number n => n.chars
  | .string s => writeString (s.getD "")
  | .array [] => ['[', ']']
  | .array (j :: js) => '[' :: chars j ++ itemChars js
  | .object [] => ['{', '}']
  | .object ((name, j) :: ms) =>
    '{' :: writeString (name.getD "") ++ ':' :: chars j ++ memberChars ms

/-- Further items and the end of an array. -/
def itemChars : List Json → List Char
  | [] => [']']
  | j :: js => ',' :: chars j ++ itemChars js

/-- Further members and the end of an object. -/
def memberChars : List (Option String × Json) → List Char
  | [] => ['}']
  | (name, j) :: ms => ',' :: writeString (name.getD "") ++ ':' :: chars j ++ memberChars ms

end

/-- The text of a document. -/
def write (j : Json) : String := String.ofList j.chars

end PassageLogic.Json
