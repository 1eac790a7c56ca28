import PassageLogic.Proofs.Statement.Grammatical
import PassageLogic.Logic.Transient
import PassageLogic.Logic.Term

/-! # Names of predicates

The name of a predicate is one text, and yet the words that it was joined from can be told apart again:
a term stands between any two barewords, no bareword holds a `%`, and barewords are trimmed. So the
words are what stands between the placeholders of the name (`WellFormed.spokenWords_predicate`), and
statements with one name have one list of words (`FromText.predicate_faithful`). Names have no
characters but those of words, spaces and placeholders, which keeps them apart from equality and from
the names of transient rules. -/

namespace PassageLogic

open Text

/-- The bareword among these characters, unless they are blank. -/
def bareword? (cs : List Char) : List String :=
  if trim cs = [] then [] else [String.ofList (trim cs)]

/-- The barewords of the parts, with a placeholder between each two parts. -/
def placeBetween : List (List Char) → List String
  | [] => []
  | [part] => bareword? part
  | part :: next :: parts => bareword? part ++ placeholder :: placeBetween (next :: parts)

/-- The words that a name of a predicate was joined from. -/
def spokenWords (name : List Char) : List String := placeBetween (name.splitOn '%')

theorem placeBetween_cons {parts : List (List Char)} (h : parts ≠ []) (part : List Char) :
    placeBetween (part :: parts) = bareword? part ++ placeholder :: placeBetween parts := by
  obtain ⟨next, parts, rfl⟩ := List.exists_cons_of_ne_nil h
  rfl

theorem bareword?_space (cs : List Char) : bareword? (' ' :: cs) = bareword? cs := rfl

theorem bareword?_of_isTrimmed {cs : List Char} (h : IsTrimmed cs) (hne : cs ≠ []) :
    ∀ spaces : List Char, (∀ c ∈ spaces, isBlank c = true) →
      bareword? (cs ++ spaces) = [String.ofList cs] := by
  intro spaces hs
  rw [bareword?, h.trim_append hs, if_neg hne]

theorem spokenWords_percent (cs : List Char) : spokenWords ('%' :: cs) = placeholder :: spokenWords cs := by
  have hsplit : ('%' :: cs).splitOn '%' = [] :: cs.splitOn '%' := List.splitOn_append_cons_self [] cs
  rw [spokenWords, hsplit, placeBetween_cons (List.splitOn_ne_nil _ _)]
  rfl

theorem spokenWords_space (cs : List Char) : spokenWords (' ' :: cs) = spokenWords cs := by
  have hsplit : (' ' :: cs).splitOn '%' = (cs.splitOn '%').modifyHead (' ' :: ·) := by
    rw [List.splitOn_cons_eq_if_modifyHead, if_neg (by decide)]
  rw [spokenWords, spokenWords, hsplit]
  rcases hparts : cs.splitOn '%' with _ | ⟨part, _ | ⟨next, parts⟩⟩
  · rfl
  · exact bareword?_space part
  · exact congrArg (· ++ _) (bareword?_space part)

theorem splitOn_percent {cs : List Char} (h : '%' ∉ cs) : cs.splitOn '%' = [cs] := by
  refine List.splitOnP_eq_singleton fun c hc => ?_
  rw [beq_eq_false_iff_ne]
  rintro rfl
  exact h hc

/-- A bareword at the end of a name. -/
theorem spokenWords_bareword {w : String} (hw : IsBareword w) : spokenWords w.toList = [w] := by
  have hno : '%' ∉ w.toList := fun hm => absurd (hw.plain '%' hm) (by decide)
  have h := bareword?_of_isTrimmed hw.isTrimmed hw.ne_nil [] (by simp)
  rw [List.append_nil, String.ofList_toList] at h
  rw [spokenWords, splitOn_percent hno]
  exact h

/-- A bareword before a placeholder. -/
theorem spokenWords_bareword_space {w : String} (hw : IsBareword w) (cs : List Char) :
    spokenWords (w.toList ++ ' ' :: '%' :: cs) = w :: placeholder :: spokenWords cs := by
  have hno : '%' ∉ w.toList ++ [' '] := by
    intro hm
    rcases List.mem_append.1 hm with hm | hm
    · exact absurd (hw.plain '%' hm) (by decide)
    · exact absurd hm (by decide)
  have hsplit : (w.toList ++ ' ' :: '%' :: cs).splitOn '%' = (w.toList ++ [' ']) :: cs.splitOn '%' := by
    rw [← List.singleton_append, ← List.append_assoc, List.splitOn_append_cons_self,
      splitOn_percent hno]
    rfl
  have h := bareword?_of_isTrimmed hw.isTrimmed hw.ne_nil [' '] (List.forall_mem_singleton.2 rfl)
  rw [spokenWords, hsplit, placeBetween_cons (List.splitOn_ne_nil _ _), h, String.ofList_toList]
  rfl

/-- Trimmed texts with anything between them are trimmed. -/
theorem Text.IsTrimmed.between {as bs : List Char} (ha : IsTrimmed as) (hb : IsTrimmed bs)
    (hane : as ≠ []) (hbne : bs ≠ []) (cs : List Char) : IsTrimmed (as ++ (cs ++ bs)) := by
  constructor
  · intro c hc
    rw [List.head?_append_of_ne_nil as hane] at hc
    exact ha.1 c hc
  · intro c hc
    rw [← List.append_assoc, List.getLast?_append_of_ne_nil _ hbne] at hc
    exact hb.2 c hc

namespace Reading.Filling

variable {ws : List String} {ts : List Token}

/-- The text of the words is not blank. -/
theorem joinWith_ne_nil (h : Filling ws ts) (hne : ws ≠ []) : (joinWith " " ws).toList ≠ [] := by
  cases h with
  | nil => exact absurd rfl hne
  | @term t ws => cases ws <;> simp [joinWith_cons_cons, placeholder]
  | @word w ws ts hw => cases ws <;> simp [joinWith_cons_cons, hw.nonempty]

/-- **The words of a name are told apart again**, and the name is trimmed. -/
theorem spokenWords_joinWith (h : Filling ws ts) :
    spokenWords (joinWith " " ws).toList = ws ∧ IsTrimmed (joinWith " " ws).toList := by
  induction h with
  | nil => exact ⟨rfl, by simp, by simp⟩
  | @term t ws ts ht h ih =>
    obtain ⟨hwords, htrimmed⟩ := ih
    have hpercent : IsTrimmed placeholder.toList := by decide
    rcases ws with _ | ⟨v, ws⟩
    · exact ⟨rfl, hpercent⟩
    · have htext : (joinWith " " (placeholder :: v :: ws)).toList =
          '%' :: ' ' :: (joinWith " " (v :: ws)).toList := by
        simp [joinWith_cons_cons, placeholder]
      rw [htext, spokenWords_percent, spokenWords_space, hwords]
      exact ⟨rfl, hpercent.between htrimmed (by decide) (h.joinWith_ne_nil (by simp)) [' ']⟩
  | @word w ws ts hw hv h ih =>
    obtain ⟨hwords, htrimmed⟩ := ih
    rcases ws with _ | ⟨v, ws⟩
    · exact ⟨spokenWords_bareword hw, hw.isTrimmed⟩
    · -- a bareword is followed by a placeholder only
      obtain rfl := hv v rfl
      have htext : (joinWith " " (w :: placeholder :: ws)).toList =
          w.toList ++ ([' '] ++ (joinWith " " (placeholder :: ws)).toList) := by
        simp [joinWith_cons_cons]
      obtain ⟨r, hr⟩ : ∃ r, (joinWith " " (placeholder :: ws)).toList = '%' :: r := by
        cases ws <;> simp [joinWith_cons_cons, placeholder]
      rw [htext]
      refine ⟨?_, hw.isTrimmed.between htrimmed hw.ne_nil (h.joinWith_ne_nil (by simp)) [' ']⟩
      rw [hr, spokenWords_percent] at hwords
      rw [hr, List.singleton_append, spokenWords_bareword_space hw, hwords]

end Reading.Filling

namespace Statement

variable {st st' : Statement}

/-- **The words of a well-formed statement can be read off the name of its predicate.** -/
theorem WellFormed.spokenWords_predicate (h : st.WellFormed) :
    spokenWords st.predicate.toList = st.words := by
  obtain ⟨hwords, htrimmed⟩ := h.filling.spokenWords_joinWith
  have htrim : trim (joinWith " " st.words).toList = (joinWith " " st.words).toList :=
    htrimmed.trim_eq
  rw [Statement.predicate, toList_trimmed, htrim, hwords]

theorem FromText.wellFormed (h : st.FromText) : st.WellFormed := by
  obtain ⟨text, l, hl, hst⟩ := h
  exact Line.WellFormed.statements (Reading.line_wellFormed hl) st hst

theorem WellFormed.fromText (h : st.WellFormed) : st.FromText := by
  obtain ⟨text, hread⟩ := (Line.exists_read_iff (.claim st)).2 h
  exact ⟨text, .claim st, hread, by simp [Line.statements]⟩

/-- No word, space or placeholder has these characters. -/
theorem not_isPlainChar : ¬ IsPlainChar '=' ∧ ¬ IsPlainChar '_' := by
  unfold IsPlainChar
  decide

/-- **Names of predicates do not collide, and none is reserved.** Statements that were read and have one
name of their predicate have the same words, so that their placeholders stand in the same places, and
as many terms. The name is not the one of equality and does not begin like those of transient rules. -/
theorem FromText.predicate_faithful :
    (∀ st st' : Statement, st.FromText → st'.FromText → st.predicate = st'.predicate →
      st.words = st'.words ∧ st.arity = st'.arity) ∧
    ∀ st : Statement, st.FromText → st.predicate ≠ equalsPredicate ∧
      ¬ Transient.stem.toList <+: st.predicate.toList := by
  constructor
  · intro st st' h h' he
    have hwords : st.words = st'.words := by
      rw [← h.wellFormed.spokenWords_predicate, ← h'.wellFormed.spokenWords_predicate, he]
    refine ⟨hwords, ?_⟩
    rw [arity, arity, ← h.wellFormed.placed, ← h'.wellFormed.placed, hwords]
  · intro st h
    have hplain := h.grammatical.predicate
    constructor
    · intro he
      exact not_isPlainChar.1 (hplain '=' (by rw [he]; decide))
    · intro hpre
      exact not_isPlainChar.2 (hplain '_' (hpre.subset (by decide)))

/-- Two words apart and two terms next to each other. -/
def bookedFor (guests : List Token) (negated : Bool) : Statement :=
  ⟨["the  room", placeholder, "is booked for", placeholder, placeholder], guests, negated⟩

theorem FromText.predicate_faithful_bookedFor :
    let st := bookedFor [.var "room", .const "sam", .var ""] false
    let st' := bookedFor [.const "attic", .var "x", .var "x"] true
    (st.FromText ∧ st'.FromText ∧ st.predicate = st'.predicate) ∧
      (st.words = st'.words ∧ st.arity = st'.arity) ∧ st.predicate ≠ equalsPredicate := by
  have h : (bookedFor [.var "room", .const "sam", .var ""] false).FromText :=
    WellFormed.fromText (by decide +kernel)
  have h' : (bookedFor [.const "attic", .var "x", .var "x"] true).FromText :=
    WellFormed.fromText (by decide +kernel)
  exact ⟨⟨h, h', rfl⟩, FromText.predicate_faithful.1 _ _ h h' rfl,
    (FromText.predicate_faithful.2 _ h).1⟩

end Statement

end PassageLogic
