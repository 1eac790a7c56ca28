import PassageLogic.Binary64.Numeral

/-! # Values

What a term can stand for: a truth value, an integer of 64 bits, a binary64 number or a text. Values
of different kinds are never equal, and the two zeros of binary64 are. A value that is NaN does not even
equal itself (`beq_self_iff`): equality is symmetric and transitive, but not reflexive. -/

namespace PassageLogic

/-- A constant of the logic. -/
inductive Value where
  | bool (b : Bool)
  | int (n : Int64)
  | float (x : Binary64)
  | text (s : String)
deriving DecidableEq

namespace Value

/-- Equality of values: the same kind and the same content, with the two zeros equal. -/
def same : Value → Value → Bool
  | .bool a, .bool b => a == b
  | .int a, .int b => a == b
  | .float a, .float b => a.same b
  | .text a, .text b => a == b
  | _, _ => false

instance : BEq Value := ⟨same⟩

/-- The text of a text value. -/
def text? : Value → Option String
  | .text s => some s
  | _ => none

/-- The value as it is shown in rendered text. -/
def display : Value → String
  | .bool b => if b then "true" else "false"
  | .int n => toString n.toInt
  | .float x => Binary64.Style.plain.text x
  | .text s => s

/-- The value is NaN. -/
def isNaN : Value → Bool
  | .float x => x.isNaN
  | _ => false

theorem same_symm {v w : Value} (h : v.same w = true) : w.same v = true := by
  cases v <;> cases w <;> simp [same] at h ⊢
  case float.float => exact Binary64.same_symm h
  all_goals exact h.symm

theorem same_trans {u v w : Value} (h₁ : u.same v = true) (h₂ : v.same w = true) :
    u.same w = true := by
  cases u <;> cases v <;> simp [same] at h₁ <;> cases w <;> simp [same] at h₂ ⊢
  case float.float.float => exact Binary64.same_trans h₁ h₂
  all_goals simp [h₁, h₂]

instance : PartialEquivBEq Value where
  symm := same_symm
  trans := same_trans

/-- A value equals itself unless it is NaN. -/
theorem beq_self_iff {v : Value} : (v == v) = true ↔ v.isNaN = false := by
  cases v with
  | float x => exact Binary64.same_self_iff
  | bool b => exact iff_of_true (beq_self_eq_true b) rfl
  | int n => exact iff_of_true (beq_self_eq_true n) rfl
  | text s => exact iff_of_true (beq_self_eq_true s) rfl

@[simp] theorem text_beq_self (s : String) : (Value.text s == Value.text s) = true :=
  beq_self_eq_true s

end Value
end PassageLogic
