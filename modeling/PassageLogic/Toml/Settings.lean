import PassageLogic.Toml.Document
import PassageLogic.Settings

/-! # Settings in TOML

The settings are read from the keys of the outermost table; missing ones are the usual ones, and other
keys are passed over. -/

namespace PassageLogic.Toml

/-- The value of a key as `decode` takes it, or this one if the key is missing. -/
def setting {α : Type} (ms : Members) (key : String) (usual : α) (decode : Scalar → Option α) :
    Option α :=
  match ms.lookup key with
  | none => some usual
  | some (.value v) => decode v
  | some _ => none

/-- A size. -/
def size? : Scalar → Option Nat
  | .integer n => if 0 ≤ n then some n.toNat else none
  | _ => none

/-- A truth value. -/
def boolean? : Scalar → Option Bool
  | .boolean b => some b
  | _ => none

/-- The only character of a text. -/
def char? : Scalar → Option Char
  | .text s =>
    match s.toList with
    | [c] => some c
    | _ => none
  | _ => none

end PassageLogic.Toml

namespace PassageLogic

/-- The settings that a TOML document gives. -/
def Settings.ofToml? (text : String) : Option Settings := do
  let ms ← Toml.read? text
  let usual : Settings := {}
  return {
    ifLimit := ← Toml.setting ms "if_limit" usual.ifLimit Toml.size?
    eachLimit := ← Toml.setting ms "each_limit" usual.eachLimit Toml.size?
    displayDepth := ← Toml.setting ms "max_display_depth" usual.displayDepth Toml.size?
    strict := ← Toml.setting ms "strict_blocks" usual.strict Toml.boolean?
    escape := ← Toml.setting ms "command_escape" usual.escape Toml.char? }

end PassageLogic
