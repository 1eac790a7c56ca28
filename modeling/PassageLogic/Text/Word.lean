import PassageLogic.Text.WordRanges

/-! # Word characters

The names between braces or parentheses are runs of word characters: letters and other alphabetic
characters, marks, decimal digits, connector punctuation such as `_`, and the two join controls. -/

namespace PassageLogic.Text

/-- A character that may stand in the name of a placeholder. -/
def isWordChar (c : Char) : Bool :=
  if c.toNat < 0x80 then c.isAlphanum || c == '_' else wordRanges.has c

end PassageLogic.Text
