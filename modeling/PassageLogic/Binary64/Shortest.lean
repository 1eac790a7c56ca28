import PassageLogic.Binary64.Decimal

/-! # The shortest decimal that reads back

Every number is the rounding of an interval of reals, whose ends belong to it if the significand is
even. Of the decimals in the interval those with the fewest digits are the candidates, and of these
the one nearest to the number is chosen; which of two equally near ones depends on the tie rule. The
candidates with `k` digits that can be chosen are the two neighbours of the number on the grid of
the decimals with `k` digits. -/

namespace PassageLogic.Binary64

/-- Which of two equally near decimals is chosen. -/
inductive Tie where
  /-- The one farther from zero. -/
  | away
  /-- The one whose last digit is even. -/
  | even
deriving DecidableEq

/-- The interval of the reals that round to a positive magnitude, in quarters of its unit: the
lower end, the number and the upper end, all times `2 ^ (exponent - 2)`. -/
def quarters (magnitude : Nat) : Nat × Nat × Nat :=
  let m := significand magnitude
  let below := if m = leadingBit ∧ exponent magnitude ≠ -1074 then 1 else 2
  (4 * m - below, 4 * m, 4 * m + 2)

/-- The decimal exponent of a positive fraction: `10 ^ p ≤ num / den < 10 ^ (p + 1)`. -/
def decimalExponent (num den : Nat) : Int :=
  if den ≤ num then Int.ofNat (digitCount (num / den)) - 1
  else -Int.ofNat (digitCount ((den - 1) / num))

/-- A positive integer times a power of two over a power of ten, as a fraction. -/
def onGrid (n : Nat) (q j : Int) : Nat × Nat :=
  (n * Nat.pow 2 q.toNat * Nat.pow 10 (-j).toNat, Nat.pow 2 (-q).toNat * Nat.pow 10 j.toNat)

/-- The integer `d` for which `d * 10 ^ j` lies in the interval of the magnitude and is nearest to
the number, if one of the two neighbours of the number on that grid lies in the interval. -/
def gridPoint? (tie : Tie) (magnitude : Nat) (j : Int) : Option Nat :=
  let q := exponent magnitude - 2
  let (lo, mid, hi) := quarters magnitude
  let (num, den) := onGrid mid q j
  let low := (onGrid lo q j).1
  let high := (onGrid hi q j).1
  let closed := significand magnitude % 2 == 0
  let d := num / den
  let down := if closed then low ≤ d * den else low < d * den
  let up := if closed then (d + 1) * den ≤ high else (d + 1) * den < high
  let gap := 2 * (num % den)
  if down && up then
    if gap < den then some d
    else if den < gap then some (d + 1)
    else
      match tie with
      | .away => some (d + 1)
      | .even => some (if d % 2 = 0 then d else d + 1)
  else if down then some d
  else if up then some (d + 1)
  else none

/-- The first grid with a point in the interval, from the grid of `10 ^ j` on, with at most `k`
refinements; seventeen digits always suffice. -/
def firstGridPoint (tie : Tie) (magnitude : Nat) : Nat → Int → Nat × Int
  | 0, j => ((gridPoint? tie magnitude j).getD 0, j)
  | k + 1, j =>
    match gridPoint? tie magnitude j with
    | some d => (d, j)
    | none => firstGridPoint tie magnitude k (j - 1)

/-- An integer without the zeros at its end, and how many there were; `k` bounds their number. -/
def withoutZeros : Nat → Nat → Int → Nat × Int
  | 0, d, j => (d, j)
  | k + 1, d, j => if d ≠ 0 ∧ d % 10 = 0 then withoutZeros k (d / 10) (j + 1) else (d, j)

/-- The shortest decimal `d * 10 ^ j` that reads back as a positive magnitude. -/
def shortest (tie : Tie) (magnitude : Nat) : Nat × Int :=
  let (num, den) := fraction magnitude
  let (d, j) := firstGridPoint tie magnitude 16 (decimalExponent num den)
  withoutZeros (digitCount d) d j

end PassageLogic.Binary64
