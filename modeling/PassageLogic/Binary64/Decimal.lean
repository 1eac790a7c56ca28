import PassageLogic.Binary64.Rounding
import PassageLogic.Text.Digits

/-! # Reading decimal numbers

A decimal `digits * 10 ^ exponent` is read as the nearest binary64 number, if that is finite. Exponents
far outside the range of finite numbers are decided by their size alone, so that no huge power is
computed. -/

namespace PassageLogic.Binary64

/-- The number of decimal digits of an integer. -/
def digitCount (n : Nat) : Nat := (Nat.toDigits 10 n).length

/-- The number nearest to `± digits * 10 ^ exponent`, if it is finite. -/
def ofDecimal? (negative : Bool) (digits : Nat) (exponent : Int) : Option Binary64 :=
  if digits = 0 then ofMagnitude? negative 0
  else
    let size := Int.ofNat (digitCount digits) + exponent
    if 400 < size then none
    else if size < -400 then ofMagnitude? negative 0
    else if 0 ≤ exponent then ofFraction? negative (digits * Nat.pow 10 exponent.toNat) 1
    else ofFraction? negative digits (Nat.pow 10 (-exponent).toNat)

/-- The exponent that a text with an optional sign and at least one digit writes. -/
def readExponent? (cs : List Char) : Option Int :=
  let (negative, ds) := match cs with
    | '-' :: r => (true, r)
    | '+' :: r => (false, r)
    | r => (false, r)
  if ds.isEmpty || !ds.all Char.isDigit then none
  else
    let n := Int.ofNat (Text.decimalValue ds)
    some (if negative then -n else n)

/-- The number that a text writes: a sign, digits with a point among them and an exponent, where sign,
point and exponent may be missing and at least one digit is there; or infinity or NaN by name, in letters
of either case. What is too large to be finite is infinity. -/
def read? (text : String) : Option Binary64 :=
  let (negative, cs) := match text.toList with
    | '-' :: r => (true, r)
    | '+' :: r => (false, r)
    | r => (false, r)
  let isMark := fun c => c == 'e' || c == 'E'
  let mantissa := cs.takeWhile fun c => !isMark c
  let whole := mantissa.takeWhile (· ≠ '.')
  let part := (mantissa.dropWhile (· ≠ '.')).drop 1
  let exponent? := match cs.dropWhile fun c => !isMark c with
    | [] => some 0
    | _ :: r => readExponent? r
  let name := String.ofList (cs.map Char.toLower)
  if name == "nan" then some (nan negative)
  else if name == "inf" || name == "infinity" then some (infinity negative)
  else if (whole ++ part).isEmpty || !(whole ++ part).all Char.isDigit then none
  else
    match exponent? with
    | none => none
    | some e =>
      let digits := Text.decimalValue (whole ++ part)
      some ((ofDecimal? negative digits (e - Int.ofNat part.length)).getD (infinity negative))

end PassageLogic.Binary64
