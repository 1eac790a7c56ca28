import PassageLogic.Statement.Reading
import Mathlib.Data.List.Chain

/-! # Lines that read back as they are written

A statement is well formed if its text can be told apart again: every placeholder has its term, the
barewords between the terms are plain and trimmed and do not run into each other, and the terms are
trimmed and fit between their delimiters. The text of a line is then not the only one that reads as
the line: any separators may stand between its statements, and any terminators after them. -/

namespace PassageLogic

/-! ### Statements -/

/-- Letters, digits and inner spaces, without the word `if` between two spaces. -/
structure IsBareword (w : String) : Prop where
  nonempty : w ≠ ""
  plain : ∀ c ∈ w.toList, Reading.isWordChar c = true ∨ c = ' '
  front : w.toList.head? ≠ some ' '
  back : w.toList.getLast? ≠ some ' '
  notIf : "if".toList ∉ w.toList.splitOn ' '

/-- A term that fits between its delimiters. -/
def Token.WellFormed : Token → Prop
  | .var name => Text.IsTrimmed name.toList ∧ '(' ∉ name.toList ∧ ')' ∉ name.toList
  | .const value => Text.IsTrimmed value.toList ∧ ¬ ('"' ∈ value.toList ∧ '\'' ∈ value.toList)

/-- A statement whose text can be told apart again. -/
structure Statement.WellFormed (st : Statement) : Prop where
  nonempty : st.isEmpty = false
  placed : st.words.count placeholder = st.tokens.length
  barewords : ∀ w ∈ st.words, w ≠ placeholder → IsBareword w
  apart : st.words.IsChain fun v w => v = placeholder ∨ w = placeholder
  terms : ∀ t ∈ st.tokens, t.WellFormed

theorem isTrimmed_iff (cs : List Char) : Text.IsTrimmed cs ↔
    (cs.head?.all fun c => !Text.isBlank c) = true ∧
      (cs.getLast?.all fun c => !Text.isBlank c) = true := by
  simp [Text.IsTrimmed, Option.all_eq_true]

theorem isBareword_iff (w : String) : IsBareword w ↔
    w ≠ "" ∧ (w.toList.all fun c => Reading.isWordChar c || c == ' ') = true ∧
      w.toList.head? ≠ some ' ' ∧ w.toList.getLast? ≠ some ' ' ∧
        "if".toList ∉ w.toList.splitOn ' ' := by
  constructor
  · rintro ⟨h1, h2, h3, h4, h5⟩
    exact ⟨h1, by simpa using h2, h3, h4, h5⟩
  · rintro ⟨h1, h2, h3, h4, h5⟩
    exact ⟨h1, by simpa using h2, h3, h4, h5⟩

instance (cs : List Char) : Decidable (Text.IsTrimmed cs) :=
  decidable_of_iff _ (isTrimmed_iff cs).symm

instance (w : String) : Decidable (IsBareword w) := decidable_of_iff _ (isBareword_iff w).symm

instance (t : Token) : Decidable t.WellFormed := by
  cases t <;> unfold Token.WellFormed <;> infer_instance

instance (st : Statement) : Decidable st.WellFormed :=
  decidable_of_iff (st.isEmpty = false ∧ st.words.count placeholder = st.tokens.length ∧
      (∀ w ∈ st.words, w ≠ placeholder → IsBareword w) ∧
      (st.words.IsChain fun v w => v = placeholder ∨ w = placeholder) ∧
      ∀ t ∈ st.tokens, t.WellFormed)
    ⟨fun ⟨h1, h2, h3, h4, h5⟩ => ⟨h1, h2, h3, h4, h5⟩, fun ⟨h1, h2, h3, h4, h5⟩ => ⟨h1, h2, h3, h4, h5⟩⟩

/-! ### Lines -/

/-- What may stand between two statements. -/
def IsSeparator (text : String) : Prop :=
  (∀ c ∈ text.toList, Reading.isSeparator c = true) ∧ (',' ∈ text.toList ∨ '\n' ∈ text.toList)

/-- What may stand after the last statement. -/
def IsClosing (text : String) : Prop := ∀ c ∈ text.toList, Reading.isTerminator c = true

/-- Statements in order with some separator between each two of them. -/
inductive Joined : List Statement → String → Prop where
  | one (st : Statement) : Joined [st] st.display
  | more (st : Statement) {sts : List Statement} {separator text : String} :
      IsSeparator separator → Joined sts text → Joined (st :: sts) (st.display ++ separator ++ text)

/-- The statements are well formed, and as many as the kind of the line asks for. -/
def Line.WellFormed : Line → Prop
  | .claim st => st.WellFormed
  | .rule head body => head.WellFormed ∧ body ≠ [] ∧ ∀ st ∈ body, st.WellFormed
  | .conjunction sts => 2 ≤ sts.length ∧ ∀ st ∈ sts, st.WellFormed

instance (l : Line) : Decidable l.WellFormed := by
  cases l <;> unfold Line.WellFormed <;> infer_instance

/-- The texts of a line. -/
inductive Line.Written : Line → String → Prop where
  | claim (st : Statement) : Written (.claim st) st.display
  | rule (head : Statement) {body : List Statement} {text : String} :
      Joined body text → Written (.rule head body) (head.display ++ " if " ++ text)
  | conjunction {sts : List Statement} {text : String} :
      Joined sts text → Written (.conjunction sts) text

theorem isSeparator_comma : IsSeparator ", " := by
  refine ⟨?_, .inl (by decide)⟩
  intro c hc
  have : c = ',' ∨ c = ' ' := by simpa using hc
  rcases this with rfl | rfl <;> rfl

theorem joined_displayAll : ∀ {sts : List Statement}, sts ≠ [] → Joined sts (Line.displayAll sts)
  | [], h => absurd rfl h
  | [st], _ => .one st
  | st :: st' :: sts, _ => .more st isSeparator_comma (joined_displayAll (List.cons_ne_nil st' sts))

/-- The text that a line is displayed as is one of its texts. -/
theorem Line.WellFormed.written_display {l : Line} (hl : l.WellFormed) : l.Written l.display := by
  cases l with
  | claim st => exact .claim st
  | rule head body => exact .rule head (joined_displayAll hl.2.1)
  | conjunction sts =>
    refine .conjunction (joined_displayAll ?_)
    rintro rfl
    exact absurd hl.1 (by decide)

end PassageLogic
