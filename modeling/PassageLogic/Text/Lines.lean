/-! # The lines of a text

Lines end at a newline, which is not part of them; neither is one carriage return right before it.
The text after the last newline is a line of its own unless it is empty. -/

namespace PassageLogic.Text

/-- The pieces of a text between its newlines: one more than there are newlines. -/
def splitNewlines : List Char → List (List Char)
  | [] => [[]]
  | c :: cs =>
    if c = '\n' then [] :: splitNewlines cs
    else
      match splitNewlines cs with
      | [] => [[c]]
      | l :: ls => (c :: l) :: ls

/-- A line without the carriage return at its end, if it has one. -/
def dropReturn (l : List Char) : List Char :=
  if l.getLast? = some '\r' then l.dropLast else l

/-- The lines among the pieces between newlines: the last piece counts only if it is not empty,
and only the others were ended by a newline that a carriage return can belong to. -/
def endedLines : List (List Char) → List (List Char)
  | [] => []
  | [l] => if l.isEmpty then [] else [l]
  | l :: m :: ls => dropReturn l :: endedLines (m :: ls)

/-- The lines of a text. -/
def lines (cs : List Char) : List (List Char) := endedLines (splitNewlines cs)

/-- The characters are one line when a newline ends them: they have no newline, and no carriage return
at their end. -/
def IsLine (l : List Char) : Prop := '\n' ∉ l ∧ l.getLast? ≠ some '\r'

instance (l : List Char) : Decidable (IsLine l) := inferInstanceAs (Decidable (_ ∧ _))

theorem splitNewlines_ne_nil (cs : List Char) : splitNewlines cs ≠ [] := by
  cases cs with
  | nil => simp [splitNewlines]
  | cons c cs =>
    simp only [splitNewlines]
    split
    · simp
    · split <;> simp

/-- A newline parts the pieces before it from those after it. -/
theorem splitNewlines_newline (cs ds : List Char) :
    splitNewlines (cs ++ '\n' :: ds) = splitNewlines cs ++ splitNewlines ds := by
  induction cs with
  | nil => rfl
  | cons c cs ih =>
    rw [List.cons_append, splitNewlines, splitNewlines, ih]
    split
    · rfl
    · cases hs : splitNewlines cs with
      | nil => exact absurd hs (splitNewlines_ne_nil cs)
      | cons l ls => rfl

theorem splitNewlines_of_not_mem {l : List Char} (h : '\n' ∉ l) : splitNewlines l = [l] := by
  induction l with
  | nil => rfl
  | cons c l ih =>
    rw [List.mem_cons, not_or] at h
    rw [splitNewlines, if_neg (Ne.symm h.1), ih h.2]

theorem endedLines_append (ps : List (List Char)) {qs : List (List Char)} (h : qs ≠ []) :
    endedLines (ps ++ qs) = ps.map dropReturn ++ endedLines qs := by
  induction ps with
  | nil => rfl
  | cons p ps ih =>
    cases hs : ps ++ qs with
    | nil => exact absurd (List.append_eq_nil_iff.1 hs).2 h
    | cons m ms => rw [List.cons_append, hs, endedLines, ← hs, ih, List.map_cons, List.cons_append]

/-- Two texts, the first of which is empty or ends with a newline, have the lines of both. -/
theorem lines_append_of_ended {cs : List Char} (h : cs = [] ∨ cs.getLast? = some '\n')
    (ds : List Char) : lines (cs ++ ds) = lines cs ++ lines ds := by
  rcases h with rfl | h
  · rfl
  · obtain ⟨bs, rfl⟩ := List.getLast?_eq_some_iff.1 h
    have hlast : endedLines (splitNewlines []) = [] := rfl
    unfold lines
    rw [List.append_assoc, List.singleton_append, splitNewlines_newline, splitNewlines_newline,
      endedLines_append _ (splitNewlines_ne_nil ds), endedLines_append _ (splitNewlines_ne_nil []),
      hlast, List.append_nil]

/-- A text without a newline is one line. -/
theorem lines_of_not_mem {l : List Char} (h : '\n' ∉ l) (hne : l ≠ []) : lines l = [l] := by
  unfold lines
  rw [splitNewlines_of_not_mem h, endedLines, if_neg (by simpa using hne)]

/-- A text that begins with a line and its newline has this line, and those of the rest. -/
theorem lines_append {l : List Char} (h : IsLine l) (cs : List Char) :
    lines (l ++ '\n' :: cs) = l :: lines cs := by
  have hdrop : dropReturn l = l := if_neg h.2
  unfold lines
  rw [splitNewlines_newline, splitNewlines_of_not_mem h.1,
    endedLines_append _ (splitNewlines_ne_nil cs), List.map_singleton, hdrop, List.singleton_append]

/-- Lines that are all ended by newlines are the lines of their text. -/
theorem lines_flatMap {ls : List (List Char)} (h : ∀ l ∈ ls, IsLine l) :
    lines (ls.flatMap fun l => l ++ ['\n']) = ls := by
  induction ls with
  | nil => rfl
  | cons l ls ih =>
    rw [List.forall_mem_cons] at h
    rw [List.flatMap_cons, List.append_assoc, List.singleton_append, lines_append h.1, ih h.2]

end PassageLogic.Text
