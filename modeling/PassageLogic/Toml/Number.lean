import PassageLogic.Toml.Text
import PassageLogic.Binary64.Decimal

/-! # Numbers and dates of TOML

Integers are decimal with an optional sign, or hexadecimal, octal or binary, and have 64 bits. Between
digits an underscore may stand. Floats and dates are read only to see that they are well-formed. -/

namespace PassageLogic.Toml

/-- A digit of some base. -/
def isDigitOf (base : Nat) (c : Char) : Bool := (Text.digitValue? base c).isSome

/-- Digits with single underscores between them, without the underscores, and what is after them. -/
def digitRun (base : Nat) : List Char → List Char × List Char
  | c :: '_' :: d :: r =>
    if isDigitOf base c then
      if isDigitOf base d then
        let (ds, rest) := digitRun base (d :: r)
        (c :: ds, rest)
      else ([c], '_' :: d :: r)
    else ([], c :: '_' :: d :: r)
  | c :: r =>
    if isDigitOf base c then
      let (ds, rest) := digitRun base r
      (c :: ds, rest)
    else ([], c :: r)
  | [] => ([], [])

/-- The integers of 64 bits. -/
def inRange (n : Int) : Bool := Int64.minValue.toInt ≤ n && n ≤ Int64.maxValue.toInt

/-- A sign, where a missing one is positive, and what is after it. -/
def sign : List Char → Bool × List Char
  | '-' :: r => (true, r)
  | '+' :: r => (false, r)
  | s => (false, s)

/-- The digits of a decimal integer without leading zeros, and what is after them. -/
def decimal? (s : List Char) : Option (List Char × List Char) :=
  match s with
  | '0' :: r => some (['0'], r)
  | s =>
    match digitRun 10 s with
    | ([], _) => none
    | run => some run

/-- An integer after the mark of its base. -/
def based? (base : Nat) (s : List Char) : Option (Int × List Char) :=
  match digitRun base s with
  | ([], _) => none
  | (ds, rest) => do
    let n := Int.ofNat (← Text.numberIn? base 0 ds)
    if inRange n then some (n, rest) else none

/-- An integer. -/
def integer? (s : List Char) : Option (Int × List Char) :=
  match s with
  | '0' :: 'x' :: r => based? 16 r
  | '0' :: 'o' :: r => based? 8 r
  | '0' :: 'b' :: r => based? 2 r
  | s => do
    let (negative, r) := sign s
    let (ds, rest) ← decimal? r
    let size := Int.ofNat (Text.decimalValue ds)
    let n := if negative then -size else size
    if inRange n then some (n, rest) else none

/-- The digits of a fraction after its point, and what is after them. -/
def fraction? : List Char → Option (List Char × List Char)
  | '.' :: r =>
    match digitRun 10 r with
    | ([], _) => none
    | run => some run
  | _ => none

/-- An exponent, and what is after it. -/
def exponent? : List Char → Option (Int × List Char)
  | c :: r =>
    if c == 'e' || c == 'E' then
      let (negative, r) := sign r
      match digitRun 10 r with
      | ([], _) => none
      | (ds, rest) =>
        let n := Int.ofNat (Text.decimalValue ds)
        some (if negative then -n else n, rest)
    else none
  | [] => none

/-- The characters after a float that is no special one. Too large a positive float is refused. -/
def plainFloat? (s : List Char) : Option (List Char) := do
  let (negative, r) := sign s
  let (whole, r) ← decimal? r
  let (part, e, rest) ← match fraction? r with
    | some (part, r) =>
      match exponent? r with
      | some (e, rest) => some (part, e, rest)
      | none => some (part, (0 : Int), r)
    | none =>
      match exponent? r with
      | some (e, rest) => some ([], e, rest)
      | none => none
  let digits := Text.decimalValue (whole ++ part)
  match Binary64.ofDecimal? negative digits (e - Int.ofNat part.length) with
  | some _ => some rest
  | none => if negative then some rest else none

/-- The characters after a float. -/
def float? (s : List Char) : Option (List Char) :=
  match plainFloat? s with
  | some rest => some rest
  | none =>
    match (sign s).2 with
    | 'i' :: 'n' :: 'f' :: r => some r
    | 'n' :: 'a' :: 'n' :: r => some r
    | _ => none

/-! ### Dates and times -/

/-- A number of `count` decimal digits, and what is after it. -/
def fixed? (count : Nat) (s : List Char) : Option (Nat × List Char) :=
  let ds := s.take count
  if ds.length = count && ds.all Char.isDigit then some (Text.decimalValue ds, s.drop count) else none

/-- A number of two digits in a range, and what is after it. -/
def twoDigits? (least most : Nat) (s : List Char) : Option (List Char) := do
  let (n, r) ← fixed? 2 s
  if least ≤ n && n ≤ most then some r else none

/-- The characters after this one. -/
def mark? (c : Char) : List Char → Option (List Char)
  | d :: r => if c = d then some r else none
  | [] => none

/-- The number of days of a month. -/
def daysOf (year month : Nat) : Nat :=
  if month = 2 then
    if year % 4 = 0 && (year % 100 ≠ 0 || year % 400 = 0) then 29 else 28
  else if month = 4 || month = 6 || month = 9 || month = 11 then 30
  else 31

/-- The characters after a day of the calendar. -/
def day? (s : List Char) : Option (List Char) := do
  let (year, r) ← fixed? 4 s
  let (month, r) ← fixed? 2 (← mark? '-' r)
  if 1 ≤ month && month ≤ 12 then twoDigits? 1 (daysOf year month) (← mark? '-' r) else none

/-- The characters after a time of the day. -/
def time? (s : List Char) : Option (List Char) := do
  let r ← twoDigits? 0 23 s
  let r ← twoDigits? 0 59 (← mark? ':' r)
  let r ← twoDigits? 0 60 (← mark? ':' r)
  match r with
  | '.' :: f => if (f.takeWhile Char.isDigit).isEmpty then some r else some (f.dropWhile Char.isDigit)
  | _ => some r

/-- The characters after the offset of a time zone, if one stands here. -/
def offset? : List Char → Option (List Char)
  | [] => some []
  | c :: r =>
    if c == 'Z' || c == 'z' then some r
    else if c == '+' || c == '-' then do
      let r ← twoDigits? 0 23 r
      twoDigits? 0 59 (← mark? ':' r)
    else some (c :: r)

/-- The characters after a day, a time or both. -/
def date? (s : List Char) : Option (List Char) :=
  match day? s with
  | none => time? s
  | some r =>
    match r with
    | c :: t =>
      if c == 'T' || c == 't' || c == ' ' then
        match time? t with
        | some rest => offset? rest
        | none => some r
      else some r
    | [] => some []

end PassageLogic.Toml
