import PassageLogic.Text.Word
import PassageLogic.Logic.Record
import PassageLogic.Statement.Basic

/-! # Placeholders

A placeholder is a name, one or more word characters, between two delimiters: `{name}` on printed
lines, `(name)` on command lines. A printed placeholder is replaced by the value of its name, or by
nothing if it has none; a parameter on a command line is replaced by its value as a quoted constant,
and stays a variable if it has none. What is put in is not searched again. -/

namespace PassageLogic.Placeholder

/-- The name and the characters after the closing delimiter, if a name and that delimiter stand
here. -/
def name? (closing : Char) (cs : List Char) : Option (List Char × List Char) :=
  match cs.takeWhile Text.isWordChar, cs.dropWhile Text.isWordChar with
  | [], _ => none
  | _, [] => none
  | name, c :: rest => if c = closing then some (name, rest) else none

theorem name?_shorter {closing : Char} {cs name rest : List Char}
    (h : name? closing cs = some (name, rest)) : rest.length < cs.length := by
  unfold name? at h
  have hlen := (List.dropWhile_sublist Text.isWordChar (l := cs)).length_le
  split at h
  · simp at h
  · simp at h
  · rename_i hd _
    split at h
    · simp only [Option.some.injEq, Prod.mk.injEq] at h
      rw [hd, List.length_cons] at hlen
      rw [← h.2]
      exact hlen
    · simp at h

/-- The characters with every placeholder between the delimiters replaced, or left as it is where
there is nothing to put in. -/
def replace (opening closing : Char) (value : String → Option String) :
    List Char → List Char
  | [] => []
  | c :: cs =>
    if c = opening then
      match _h : name? closing cs with
      | some (name, rest) =>
        let put := match value (String.ofList name) with
          | some text => text.toList
          | none => opening :: name ++ [closing]
        put ++ replace opening closing value rest
      | none => c :: replace opening closing value cs
    else c :: replace opening closing value cs
termination_by cs => cs.length
decreasing_by
  · exact Nat.lt_succ_of_lt (name?_shorter _h)
  all_goals simp

/-- A printed line with the values of a context; a name without a value leaves nothing. -/
def fillLine (context : Record) (line : String) : String :=
  String.ofList <| replace '{' '}'
    (fun name => some (((context.get? name).map Value.display).getD "")) line.toList

/-- A command line with the values of the parameters as quoted constants. -/
def fillParams (params : Record) (text : String) : String :=
  String.ofList <| replace '(' ')'
    (fun name => (params.get? name).map fun v => (Token.const v.display).display) text.toList

end PassageLogic.Placeholder
