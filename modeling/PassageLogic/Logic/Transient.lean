/-! # Names of transient predicates

A conjunction is asked through a rule that is stored only while the query runs. The predicate of the
rule has a name that no statement text can produce: a word that starts with underscores, followed by
thirty-two hexadecimal digits that are new for every conjunction. -/

namespace PassageLogic.Transient

/-- The beginning of every transient name. -/
def stem : String := "__ask"

/-- The number of digits after the stem. -/
def digitCount : Nat := 32

/-- The digits of the `n`-th name. -/
def digits (n : Nat) : List Char :=
  List.leftpad digitCount '0' (Nat.toDigits 16 (n % Nat.pow 16 digitCount))

/-- The `n`-th transient name. -/
def name (n : Nat) : String := stem ++ String.ofList (digits n)

/-- A digit of a transient name. -/
def isDigit (c : Char) : Bool := c.isDigit || ('a' ≤ c && c ≤ 'f')

/-- The predicate with the digits of a transient name at its start replaced by an asterisk, so that
it is the same for every conjunction of one shape. -/
def generic (predicate : String) : String :=
  let cs := predicate.toList
  let after := cs.drop stem.length
  if stem.toList.isPrefixOf cs && digitCount ≤ after.length
      && (after.take digitCount).all isDigit then
    stem ++ "*" ++ String.ofList (after.drop digitCount)
  else predicate

end PassageLogic.Transient
