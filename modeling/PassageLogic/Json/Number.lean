import PassageLogic.Json.Basic

/-! # The numbers of a document

A numeral without fraction and exponent is an integer if it fits into 64 bits, unsigned or, with a
sign, signed; negative zero does not. Every other numeral is a binary64 number. It is read in steps:
digits are gathered into an integer of 64 bits as long as they fit, further digits of the whole part
only count for the scale, further digits of the fraction for nothing; the integer is rounded, and
then multiplied or divided by a power of ten, each with a rounding of its own. -/

namespace PassageLogic

/-- The number that a numeral stands for. -/
inductive Json.Number where
  | natural (n : Nat)
  | negative (n : Int)
  | float (x : Binary64)

namespace Numeral

open Binary64 (ofDecimal? ofFraction?)

/-- The largest integer of 64 bits. -/
def largestWord : Nat := 0xFFFFFFFFFFFFFFFF

/-- The size of the least signed integer of 64 bits. -/
def largestNegative : Nat := 0x8000000000000000

/-- The largest exponent that is told apart from larger ones. -/
def largestExponent : Nat := 0x7FFFFFFF

/-- The integer after the digits that still fit, and the digits from the first one that does not. -/
def absorb : Nat → List Char → Nat × List Char
  | n, [] => (n, [])
  | n, d :: ds =>
    let m := 10 * n + (d.toNat - '0'.toNat)
    if m ≤ largestWord then absorb m ds else (n, d :: ds)

/-- A power of ten, correctly rounded. -/
def powerOfTen (k : Nat) : Binary64 := (ofDecimal? false 1 (Int.ofNat k)).getD .zero

/-- The largest exponent of ten that is a finite number. -/
def largestPower : Nat := 308

/-- The number divided `k` times by the largest power of ten. -/
def divideLargest : Nat → Binary64 → Option Binary64
  | 0, x => some x
  | k + 1, x =>
    if x.isZero then some x
    else
      match x.div? (powerOfTen largestPower) with
      | some y => divideLargest k y
      | none => none

/-- The number times a power of ten. A power that is too small for one division takes several. -/
def scale (x : Binary64) (e : Int) : Option Binary64 :=
  if e < 0 then
    let k := ((-e).toNat - 1) / largestPower
    (divideLargest k x).bind fun y => y.div? (powerOfTen ((-e).toNat - largestPower * k))
  else if e.toNat ≤ largestPower then x.mul? (powerOfTen e.toNat)
  else if x.isZero then some x
  else none

/-- The binary64 number of a numeral, if it is finite. -/
def float? (n : Numeral) : Option Binary64 :=
  let (w, wholeLeft) := absorb 0 n.whole
  let (m, fractionLeft) := absorb w n.fraction
  let shift := Int.ofNat wholeLeft.length
    - Int.ofNat (n.fraction.length - fractionLeft.length)
  let e := n.exponent.getD 0
  let size :=
    if e.natAbs ≤ largestExponent then
      match ofFraction? false m 1 with
      | some x => scale x (shift + e)
      | none => none
    else if m ≠ 0 && 0 < e then none
    else some .zero
  size.map fun x => { x with negative := n.negative }

/-- The number that a numeral stands for, if it is finite. -/
def number? (n : Numeral) : Option Json.Number :=
  let k := Text.decimalValue n.whole
  if n.fraction.isEmpty && n.exponent.isNone && k ≤ largestWord then
    if !n.negative then some (.natural k)
    else if 0 < k && k ≤ largestNegative then some (.negative (-Int.ofNat k))
    else (ofFraction? true k 1).map .float
  else n.float?.map .float

end Numeral

namespace Json

mutual

/-- Every string of a document stands for a text and every numeral for a finite number. -/
def isSound : Json → Bool
  | .number n => n.number?.isSome
  | .string s => s.isSome
  | .array items => isSoundItems items
  | .object members => isSoundMembers members
  | _ => true

/-- Every item is sound. -/
def isSoundItems : List Json → Bool
  | [] => true
  | j :: js => isSound j && isSoundItems js

/-- Every name and every value is sound. -/
def isSoundMembers : List (Option String × Json) → Bool
  | [] => true
  | (name, j) :: ms => name.isSome && isSound j && isSoundMembers ms

end

end Json
end PassageLogic
