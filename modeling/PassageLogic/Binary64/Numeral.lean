import PassageLogic.Binary64.Shortest

/-! # Numerals

A numeral is a number as it is written: a sign, the digits of the whole part, those of the fraction,
and an exponent of ten. Numbers are written with the digits of the shortest decimal that reads back.
A style says which of them are written positionally, what fraction a whole number has there, and how
ties are decided; the others get one digit before the point and an exponent. -/

namespace PassageLogic

/-- A number as it is written. -/
structure Numeral where
  negative : Bool
  /-- The digits of the whole part. -/
  whole : List Char
  /-- The digits of the fraction; without any there is no point either. -/
  fraction : List Char
  exponent : Option Int
deriving DecidableEq

namespace Numeral

/-- The digits of an exponent after its sign, which is always written. -/
def exponentText (e : Int) : List Char :=
  'e' :: (if 0 ≤ e then '+' else '-') :: Nat.toDigits 10 e.natAbs

/-- The characters of a numeral. -/
def chars (n : Numeral) : List Char :=
  (if n.negative then ['-'] else []) ++ n.whole ++
    (if n.fraction.isEmpty then [] else '.' :: n.fraction) ++
    (match n.exponent with
      | none => []
      | some e => exponentText e)

/-- The numeral of an integer. -/
def ofInt (n : Int) : Numeral := ⟨n < 0, Nat.toDigits 10 n.natAbs, [], none⟩

end Numeral

namespace Binary64

/-- The decisions of a number format. -/
structure Style where
  /-- The decimal exponents of the numbers that are written positionally. -/
  isPositional : Int → Bool
  /-- The fraction of a whole number in positional notation. -/
  wholeFraction : List Char
  /-- Which of two equally near decimals is written. -/
  tie : Tie

/-- Numbers in rendered text: always positional, whole numbers without a point. -/
def Style.plain : Style := ⟨fun _ => true, [], .away⟩

/-- Numbers in data documents: positional from `10 ^ -5` to below `10 ^ 16`, whole numbers with a
point and a zero. -/
def Style.document : Style := ⟨fun p => -5 ≤ p && p < 16, ['0'], .even⟩

/-- The numeral of the digits `ds` times `10 ^ j` in positional notation. -/
def positional (negative : Bool) (wholeFraction ds : List Char) (j : Int) : Numeral :=
  if 0 ≤ j then ⟨negative, ds ++ List.replicate j.toNat '0', wholeFraction, none⟩
  else
    let places := (-j).toNat
    if places < ds.length then
      ⟨negative, ds.take (ds.length - places), ds.drop (ds.length - places), none⟩
    else ⟨negative, ['0'], List.replicate (places - ds.length) '0' ++ ds, none⟩

/-- The numeral of a finite number in a style. -/
def Style.numeral (style : Style) (x : Binary64) : Numeral :=
  if x.magnitude = 0 then ⟨x.negative, ['0'], style.wholeFraction, none⟩
  else
    let (d, j) := shortest style.tie x.magnitude
    let ds := Nat.toDigits 10 d
    let p := j + Int.ofNat ds.length - 1
    if style.isPositional p then positional x.negative style.wholeFraction ds j
    else ⟨x.negative, ds.take 1, ds.drop 1, some p⟩

/-- The text of a number in a style; infinity and NaN go by their names. -/
def Style.text (style : Style) (x : Binary64) : String :=
  if x.isNaN then "NaN"
  else if x.isFinite then String.ofList (style.numeral x).chars
  else if x.negative then "-inf"
  else "inf"

end Binary64
end PassageLogic
