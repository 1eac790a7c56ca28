import PassageLogic.Text.Blank
import PassageLogic.Text.Join

/-! # Statements

A statement is one atom of the logic as an author writes it: barewords with terms between them, such
as `likes (x) "pizza"`. Its word list holds a `%` in the place of every term; the words joined by
spaces are the name of its predicate, so that it does not depend on the terms. -/

namespace PassageLogic

/-- A term of a statement. -/
inductive Token where
  /-- A quoted constant. -/
  | const (value : String)
  /-- A variable; an empty name stands for a variable of its own at every occurrence. -/
  | var (name : String)
deriving DecidableEq

namespace Token

/-- The variable has no name. -/
def isAnonymous (t : Token) : Bool := t == .var ""

/-- The name of a named variable. -/
def name? : Token → Option String
  | .var "" => none
  | .var name => some name
  | .const _ => none

/-- The text of a token: a variable between parentheses, a constant between double quotes, or
between single quotes if it contains a double quote. -/
def display : Token → String
  | .var name => "(" ++ name ++ ")"
  | .const value =>
    if '"' ∈ value.toList then "'" ++ value ++ "'" else "\"" ++ value ++ "\""

end Token

/-- The word that holds the place of a term. -/
def placeholder : String := "%"

/-- The first word of a statement that gives a command. -/
def commandWord : String := "meta"

/-- A statement: words with a placeholder per term, the terms, and whether it is denied. -/
structure Statement where
  words : List String
  tokens : List Token
  negated : Bool
deriving DecidableEq

/-- What a statement is read from: a bareword or a term. -/
inductive Piece where
  | word (text : String)
  | term (token : Token)
deriving DecidableEq

namespace Piece

/-- The entry of the word list, if the piece leaves one: blank barewords do not. -/
def word? : Piece → Option String
  | .word text => if text = "" then none else some text
  | .term _ => some placeholder

/-- The term of the piece, if it is one. -/
def token? : Piece → Option Token
  | .word _ => none
  | .term token => some token

end Piece

namespace Statement

/-- The statement that has these pieces. -/
def ofPieces (ps : List Piece) : Statement where
  words := ps.filterMap Piece.word?
  tokens := ps.filterMap Piece.token?
  negated := false

/-- The statement with this flag. -/
def withNegated (st : Statement) (negated : Bool) : Statement := { st with negated }

/-- The name of the predicate: the words with single spaces between them. -/
def predicate (st : Statement) : String := Text.trimmed (Text.joinWith " " st.words)

/-- The number of terms. -/
def arity (st : Statement) : Nat := st.tokens.length

/-- There are neither words nor terms. -/
def isEmpty (st : Statement) : Bool := st.words.isEmpty && st.tokens.isEmpty

/-- The named variables, in the order in which they first occur. -/
def vars (st : Statement) : List String := (st.tokens.filterMap Token.name?).eraseDups

/-- The statement that gives a command about this one: the command and the predicate become
constants in front of the terms. -/
def commanded (st : Statement) (command : String) : Statement where
  words := commandWord :: List.replicate (st.tokens.length + 2) placeholder
  tokens := .const command :: .const st.predicate :: st.tokens
  negated := st.negated

/-- The equality of a variable and a constant. -/
def equation (name value : String) : Statement where
  words := [placeholder, "=", placeholder]
  tokens := [.var name, .const value]
  negated := false

/-- The words with the placeholders replaced by the terms in order, by `()` once they run out. -/
def filled : List String → List Token → List String
  | [], _ => []
  | w :: ws, ts =>
    if w = placeholder then
      match ts with
      | [] => "()" :: filled ws []
      | t :: ts => t.display :: filled ws ts
    else w :: filled ws ts

/-- The text of a statement. -/
def display (st : Statement) : String :=
  (if st.negated then "!" else "") ++ Text.joinWith " " (filled st.words st.tokens)

theorem length_filled (ws : List String) (ts : List Token) :
    (filled ws ts).length = ws.length := by
  induction ws generalizing ts with
  | nil => rfl
  | cons w ws ih =>
    simp only [filled]
    split
    · cases ts <;> simp [ih]
    · simp [ih]

end Statement
end PassageLogic
