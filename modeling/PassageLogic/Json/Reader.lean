import PassageLogic.Json.Basic
import PassageLogic.Text.Digits

/-! # Reading documents

A document is one value with blanks around it. Strings hold no control characters, numbers no leading
zeros, and a `\u` escape four hexadecimal digits of either case; two escapes that write the halves of
a surrogate pair in order write one character. -/

namespace PassageLogic.Json

/-- The four characters that may stand between the parts of a document. -/
def isBlank (c : Char) : Bool := c == ' ' || c == '\t' || c == '\n' || c == '\r'

/-- The characters after blanks. -/
def skip (s : List Char) : List Char := s.dropWhile isBlank

/-! ### Strings -/

/-- A character of a string, or a code unit that an escape writes. -/
inductive Glyph where
  | char (c : Char)
  | unit (n : Nat)

/-- The character that a short escape writes. -/
def escaped? : Char → Option Char
  | '"' => some '"'
  | '\\' => some '\\'
  | '/' => some '/'
  | 'b' => some '\x08'
  | 'f' => some '\x0c'
  | 'n' => some '\n'
  | 'r' => some '\r'
  | 't' => some '\t'
  | _ => none

/-- What a string holds from here to its closing quote, and the characters after that. -/
def glyphs? : List Char → Option (List Glyph × List Char)
  | [] => none
  | '"' :: r => some ([], r)
  | '\\' :: 'u' :: a :: b :: c :: d :: r => do
    let n ← Text.numberIn? 16 0 [a, b, c, d]
    let (gs, rest) ← glyphs? r
    return (.unit n :: gs, rest)
  | '\\' :: c :: r => do
    let e ← escaped? c
    let (gs, rest) ← glyphs? r
    return (.char e :: gs, rest)
  | c :: r => do
    if c.toNat < 0x20 || c == '\\' then none
    else
      let (gs, rest) ← glyphs? r
      return (.char c :: gs, rest)

/-- The first half of a surrogate pair. -/
def isHighSurrogate (n : Nat) : Bool := 0xD800 ≤ n && n ≤ 0xDBFF

/-- The second half of a surrogate pair. -/
def isLowSurrogate (n : Nat) : Bool := 0xDC00 ≤ n && n ≤ 0xDFFF

/-- The characters that glyphs stand for, if all surrogates are paired. -/
def textOf? : List Glyph → Option (List Char)
  | [] => some []
  | .char c :: gs => (textOf? gs).map (c :: ·)
  | .unit n :: .unit m :: gs =>
    if isHighSurrogate n then
      if isLowSurrogate m then
        (textOf? gs).map (Char.ofNat (0x10000 + 1024 * (n - 0xD800) + (m - 0xDC00)) :: ·)
      else none
    else if isLowSurrogate n then none
    else (textOf? (.unit m :: gs)).map (Char.ofNat n :: ·)
  | .unit n :: gs =>
    if isHighSurrogate n || isLowSurrogate n then none
    else (textOf? gs).map (Char.ofNat n :: ·)

/-- A string after its opening quote. -/
def string? (s : List Char) : Option (Option String × List Char) :=
  (glyphs? s).map fun (gs, rest) => ((textOf? gs).map String.ofList, rest)

/-! ### Numbers -/

/-- The digits of a fraction after its point, which are none if there is no point. -/
def fraction? : List Char → Option (List Char × List Char)
  | '.' :: r =>
    match r.takeWhile Char.isDigit with
    | [] => none
    | ds => some (ds, r.dropWhile Char.isDigit)
  | s => some ([], s)

/-- The exponent with this sign. -/
def signedExponent? (negative : Bool) (r : List Char) : Option (Option Int × List Char) :=
  match r.takeWhile Char.isDigit with
  | [] => none
  | ds =>
    let n := Int.ofNat (Text.decimalValue ds)
    some (some (if negative then -n else n), r.dropWhile Char.isDigit)

/-- The exponent, if there is one. -/
def exponent? : List Char → Option (Option Int × List Char)
  | c :: r =>
    if c == 'e' || c == 'E' then
      match r with
      | '-' :: r => signedExponent? true r
      | '+' :: r => signedExponent? false r
      | r => signedExponent? false r
    else some (none, c :: r)
  | [] => some (none, [])

/-- A number without its sign. -/
def unsigned? (negative : Bool) (s : List Char) : Option (Numeral × List Char) := do
  let whole := s.takeWhile Char.isDigit
  if whole.isEmpty || (whole.length ≠ 1 && whole.head? == some '0') then none
  else
    let (fraction, r) ← fraction? (s.dropWhile Char.isDigit)
    let (exponent, rest) ← exponent? r
    return (⟨negative, whole, fraction, exponent⟩, rest)

/-- A number. -/
def numeral? : List Char → Option (Numeral × List Char)
  | '-' :: r => unsigned? true r
  | s => unsigned? false s

/-! ### Values -/

mutual

/-- A value, with fuel for the values in it. -/
def value? : Nat → List Char → Option (Json × List Char)
  | 0, _ => none
  | fuel + 1, s =>
    match skip s with
    | 'n' :: 'u' :: 'l' :: 'l' :: r => some (.null, r)
    | 't' :: 'r' :: 'u' :: 'e' :: r => some (.bool true, r)
    | 'f' :: 'a' :: 'l' :: 's' :: 'e' :: r => some (.bool false, r)
    | '"' :: r => (string? r).map fun (t, rest) => (.string t, rest)
    | '[' :: r =>
      match skip r with
      | ']' :: rest => some (.array [], rest)
      | _ => (items? fuel r).map fun (js, rest) => (.array js, rest)
    | '{' :: r =>
      match skip r with
      | '}' :: rest => some (.object [], rest)
      | _ => (members? fuel r).map fun (ms, rest) => (.object ms, rest)
    | r => (numeral? r).map fun (n, rest) => (.number n, rest)

/-- The items of an array up to its end, of which there is at least one. -/
def items? : Nat → List Char → Option (List Json × List Char)
  | 0, _ => none
  | fuel + 1, s => do
    let (j, r) ← value? fuel s
    match skip r with
    | ']' :: rest => return ([j], rest)
    | ',' :: r =>
      let (js, rest) ← items? fuel r
      return (j :: js, rest)
    | _ => none

/-- The members of an object up to its end, of which there is at least one. -/
def members? : Nat → List Char → Option (List (Option String × Json) × List Char)
  | 0, _ => none
  | fuel + 1, s => do
    match skip s with
    | '"' :: r =>
      let (name, r) ← string? r
      match skip r with
      | ':' :: r =>
        let (j, r) ← value? fuel r
        match skip r with
        | '}' :: rest => return ([(name, j)], rest)
        | ',' :: r =>
          let (ms, rest) ← members? fuel r
          return ((name, j) :: ms, rest)
        | _ => none
      | _ => none
    | _ => none

end

/-- The document that a text holds. Every second step takes a character, so that this fuel is never
used up. -/
def read? (text : String) : Option Json :=
  let s := text.toList
  match value? (2 * s.length + 2) s with
  | some (j, rest) => if (skip rest).isEmpty then some j else none
  | none => none

end PassageLogic.Json
