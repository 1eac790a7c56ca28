/-! # Binary64 numbers

A number is its sign and its magnitude, the 63 bits of the encoding below the sign bit. The finite
magnitudes come first, then infinity (`top`), and above it NaN. Equality is not identity: the two zeros
are different numbers that compare as equal, and NaN equals nothing, not even itself (`same_self_iff`). -/

namespace PassageLogic

/-- A binary64 number. -/
structure Binary64 where
  negative : Bool
  magnitude : Nat
  isEncodable : magnitude < 0x8000000000000000
deriving DecidableEq

namespace Binary64

/-- The magnitude of infinity: every finite number is below it. -/
def top : Nat := 0x7FF0000000000000

/-- The finite number with this sign and magnitude. -/
def ofMagnitude? (negative : Bool) (magnitude : Nat) : Option Binary64 :=
  if h : magnitude < top then some ⟨negative, magnitude, Nat.lt_trans h (by decide)⟩ else none

/-- Positive zero. -/
def zero : Binary64 := ⟨false, 0, by decide⟩

/-- Infinity of either sign. -/
def infinity (negative : Bool) : Binary64 := ⟨negative, top, by decide⟩

/-- The quiet NaN without a payload, of either sign. -/
def nan (negative : Bool) : Binary64 := ⟨negative, 0x7FF8000000000000, by decide⟩

/-- The number is finite. -/
def isFinite (x : Binary64) : Bool := x.magnitude < top

/-- The number is NaN. -/
def isNaN (x : Binary64) : Bool := top < x.magnitude

/-- The number is zero of either sign. -/
def isZero (x : Binary64) : Bool := x.magnitude == 0

/-- Equality of numbers: the two zeros are equal, and NaN equals nothing. -/
def same (x y : Binary64) : Bool :=
  !x.isNaN && x.magnitude == y.magnitude && (x.negative == y.negative || x.isZero)

/-- The least integer of 53 bits, `2 ^ 52`: magnitudes from here on have a significand of 53 bits. -/
def leadingBit : Nat := 0x10000000000000

/-- The integer `m` of a finite magnitude that stands for `m * 2 ^ q`. -/
def significand (magnitude : Nat) : Nat :=
  if magnitude < leadingBit then magnitude else leadingBit + magnitude % leadingBit

/-- The exponent `q` of a finite magnitude that stands for `m * 2 ^ q`. -/
def exponent (magnitude : Nat) : Int :=
  if magnitude < leadingBit then -1074 else Int.ofNat (magnitude / leadingBit) - 1075

/-- A finite magnitude as a fraction: numerator and denominator. -/
def fraction (magnitude : Nat) : Nat × Nat :=
  let q := exponent magnitude
  if 0 ≤ q then (significand magnitude * Nat.pow 2 q.toNat, 1)
  else (significand magnitude, Nat.pow 2 (-q).toNat)

theorem same_iff {x y : Binary64} : x.same y = true ↔ x.isNaN = false ∧
    x.magnitude = y.magnitude ∧ (x.negative = y.negative ∨ x.magnitude = 0) := by
  simp [same, isZero, and_assoc]

/-- A number equals itself unless it is NaN. -/
theorem same_self_iff {x : Binary64} : x.same x = true ↔ x.isNaN = false := by
  rw [same_iff]
  exact ⟨And.left, fun h => ⟨h, rfl, .inl rfl⟩⟩

theorem isNaN_congr {x y : Binary64} (h : x.magnitude = y.magnitude) : x.isNaN = y.isNaN := by
  rw [isNaN, isNaN, h]

theorem same_symm {x y : Binary64} (h : x.same y = true) : y.same x = true := by
  obtain ⟨hn, hm, hs⟩ := same_iff.1 h
  exact same_iff.2 ⟨isNaN_congr hm ▸ hn, hm.symm, hs.imp Eq.symm hm.symm.trans⟩

theorem same_trans {x y z : Binary64} (h₁ : x.same y = true) (h₂ : y.same z = true) :
    x.same z = true := by
  obtain ⟨hn, hm₁, hs₁⟩ := same_iff.1 h₁
  obtain ⟨-, hm₂, hs₂⟩ := same_iff.1 h₂
  refine same_iff.2 ⟨hn, hm₁.trans hm₂, ?_⟩
  rcases hs₁ with hs₁ | hs₁
  · rcases hs₂ with hs₂ | hs₂
    · exact .inl (hs₁.trans hs₂)
    · exact .inr (hm₁.trans hs₂)
  · exact .inr hs₁

end Binary64
end PassageLogic
