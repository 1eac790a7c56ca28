import PassageLogic.Text.HiddenRanges

/-! # Quoted text in messages

A message quotes a text between double quotes. A double quote, a backslash and the usual controls
are written with a backslash, every other hidden character by its code point in lower-case
hexadecimal between braces, and all else as it is. -/

namespace PassageLogic.Text

/-- The digits of a code point in lower-case hexadecimal. -/
def hexDigits (n : Nat) : List Char := Nat.toDigits 16 n

/-- One character of a quoted text. -/
def quotedChar (c : Char) : List Char :=
  match c with
  | '\x00' => ['\\', '0']
  | '\t' => ['\\', 't']
  | '\r' => ['\\', 'r']
  | '\n' => ['\\', 'n']
  | '"' => ['\\', '"']
  | '\\' => ['\\', '\\']
  | c => if hiddenRanges.has c then ['\\', 'u', '{'] ++ hexDigits c.toNat ++ ['}'] else [c]

/-- A text as a message quotes it. -/
def quoted (s : String) : String :=
  String.ofList ('"' :: s.toList.flatMap quotedChar ++ ['"'])

end PassageLogic.Text
