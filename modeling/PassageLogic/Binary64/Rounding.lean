import PassageLogic.Binary64.Basic

/-! # Rounding to binary64

The number nearest to a fraction; of two that are equally near, the one with the even significand.
Products and quotients are the exact results rounded once. -/

namespace PassageLogic.Binary64

/-- The integer nearest to a fraction; a half goes to the even neighbour. -/
def nearestEven (num den : Nat) : Nat :=
  let d := num / den
  let r := num % den
  if 2 * r < den || (2 * r == den && d % 2 == 0) then d else d + 1

/-- A fraction times a power of two. -/
def scaled (num den : Nat) (q : Int) : Nat × Nat :=
  if 0 ≤ q then (num * Nat.pow 2 q.toNat, den) else (num, den * Nat.pow 2 (-q).toNat)

/-- The exponent at which the significand nearest to a fraction has 53 bits, or the least one. -/
def roundingExponent (num den : Nat) : Int :=
  let e := Int.ofNat num.log2 - Int.ofNat den.log2
  let (n, d) := scaled num den (-e)
  max (-1074) (if d ≤ n then e - 52 else e - 53)

/-- The magnitude nearest to a fraction; it may be too large to be finite. -/
def nearestMagnitude (num den : Nat) : Nat :=
  if num = 0 then 0
  else
    let q := roundingExponent num den
    let (n, d) := scaled num den (-q)
    nearestEven n d + (q + 1074).toNat * leadingBit

/-- The number nearest to a fraction, if it is finite. -/
def ofFraction? (negative : Bool) (num den : Nat) : Option Binary64 :=
  ofMagnitude? negative (nearestMagnitude num den)

/-- The number nearest to the product of finite numbers, if it is finite. -/
def mul? (x y : Binary64) : Option Binary64 :=
  let a := fraction x.magnitude
  let b := fraction y.magnitude
  ofFraction? (x.negative != y.negative) (a.1 * b.1) (a.2 * b.2)

/-- The number nearest to the quotient of finite numbers, if it is finite and the divisor is not zero. -/
def div? (x y : Binary64) : Option Binary64 :=
  let a := fraction x.magnitude
  let b := fraction y.magnitude
  if y.isZero then none else ofFraction? (x.negative != y.negative) (a.1 * b.2) (a.2 * b.1)

end PassageLogic.Binary64
