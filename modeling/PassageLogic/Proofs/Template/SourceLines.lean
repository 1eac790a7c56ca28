import PassageLogic.Template.Line
import PassageLogic.Proofs.Statement.Pieces
import Mathlib.Data.List.Forall2

/-! # What the lines of a template say

A line gives a word if the escape character is its first character and the word follows at once, up to
a blank character or the end of the line (`SourceLine.Gives`). If it is a word of a command, the line
says that command with the text after the word, and any other line is printed as it is
(`SourceLine.Says`). A line is read as what it says (`says_iff_read`), and a template line by line
(`says_readAll`). -/

namespace PassageLogic

namespace SourceLine

/-- The words that a line can give. -/
def words : List String :=
  [alternativeWord, closingWord, BranchKind.first.word, BranchKind.each.word] ++
    Verb.all.map Verb.word

/-- The line gives this word, and this text after it: the word follows the escape character and ends at
a blank character or with the line, and the text is what is left, trimmed. -/
def Gives (escape : Char) (line : List Char) (word text : String) : Prop :=
  ∃ rest, line = escape :: (word.toList ++ rest) ∧
    (∀ c, rest.head? = some c → Text.isBlank c = true) ∧ text.toList = Text.trim rest

/-- The line is printed: it gives no word of a command. -/
def IsPrinted (escape : Char) (line : List Char) : Prop :=
  ∀ word ∈ words, ∀ text, ¬ Gives escape line word text

/-- What a line says under an escape character. -/
inductive Says (escape : Char) (line : List Char) : SourceLine → Prop where
  | print (h : IsPrinted escape line) : Says escape line (.print (String.ofList line))
  | command {verb : Verb} {text : String} (h : Gives escape line verb.word text) :
      Says escape line (.command verb text)
  | opening {kind : BranchKind} {query : String} (h : Gives escape line kind.word query) :
      Says escape line (.opening kind query)
  | alternative {text : String} (h : Gives escape line alternativeWord text) :
      Says escape line .alternative
  | closing {text : String} (h : Gives escape line closingWord text) : Says escape line .closing

variable {escape : Char} {line : List Char} {word text : String} {l : SourceLine}

/-! ### Words -/

/-- The characters of a word and those after it, on a line that has the escape character before them. -/
theorem gives_takeWhile (escape : Char) (rest : List Char) : Gives escape (escape :: rest)
    (String.ofList (rest.takeWhile fun c => !Text.isBlank c))
    (String.ofList (Text.trim (rest.dropWhile fun c => !Text.isBlank c))) := by
  refine ⟨rest.dropWhile fun c => !Text.isBlank c, ?_, fun c hc => ?_, String.toList_ofList⟩
  · rw [String.toList_ofList, List.takeWhile_append_dropWhile]
  · simpa using Text.of_head_dropWhile hc

/-- A word without blank characters is found again by its end. -/
theorem Gives.takeWhile_tail (h : Gives escape line word text)
    (hw : ∀ c ∈ word.toList, Text.isBlank c = false) :
    line.tail.takeWhile (fun c => !Text.isBlank c) = word.toList ∧
      Text.trim (line.tail.dropWhile fun c => !Text.isBlank c) = text.toList := by
  obtain ⟨rest, rfl, hrest, htext⟩ := h
  have hword : ∀ c ∈ word.toList, (!Text.isBlank c) = true := fun c hc => by rw [hw c hc]; rfl
  have hdrop : rest.dropWhile (fun c => !Text.isBlank c) = rest :=
    Text.dropWhile_of_head fun c hc => by rw [hrest c hc]; rfl
  have htake : rest.takeWhile (fun c => !Text.isBlank c) = [] := by
    cases rest with
    | nil => rfl
    | cons c rest => exact List.takeWhile_cons_of_neg (by simp [hrest c rfl])
  rw [List.tail_cons, List.takeWhile_append_of_pos hword, List.dropWhile_append_of_pos hword, htake,
    hdrop, List.append_nil]
  exact ⟨rfl, htext.symm⟩

theorem not_isBlank_of_mem_words : ∀ word ∈ words, ∀ c ∈ word.toList, Text.isBlank c = false := by
  have hall : (words.all fun word => word.toList.all fun c => !Text.isBlank c) = true := by decide
  simpa only [List.all_eq_true, Bool.not_eq_true'] using hall

theorem verb_word_mem_words (verb : Verb) : verb.word ∈ words := by
  cases verb <;> decide

theorem kind_word_mem_words (kind : BranchKind) : kind.word ∈ words := by
  cases kind <;> decide

theorem alternativeWord_mem_words : alternativeWord ∈ words := by decide

theorem closingWord_mem_words : closingWord ∈ words := by decide

/-! ### Lines -/

theorem ofWord?_verb (verb : Verb) (text : String) :
    ofWord? verb.word text = some (.command verb text) := by
  cases verb <;> rfl

theorem ofWord?_kind (kind : BranchKind) (query : String) :
    ofWord? kind.word query = some (.opening kind query) := by
  cases kind <;> rfl

theorem ofWord?_of_not_mem (h : word ∉ words) (text : String) : ofWord? word text = none := by
  unfold words at h
  simp only [List.mem_append, List.mem_cons, List.not_mem_nil, or_false, not_or, List.mem_map,
    not_exists, not_and] at h
  obtain ⟨⟨halt, hclose, hfirst, heach⟩, hverb⟩ := h
  unfold ofWord?
  rw [if_neg halt, if_neg hclose, if_neg hfirst, if_neg heach, Option.map_eq_none_iff,
    List.find?_eq_none]
  exact fun v hv => by simpa using hverb v hv

/-- A line that gives a word is read as the command of that word, if it is one. -/
theorem Gives.read_eq (h : Gives escape line word text)
    (hw : ∀ c ∈ word.toList, Text.isBlank c = false) :
    read escape line = (ofWord? word text).getD (.print (String.ofList line)) := by
  obtain ⟨hword, htext⟩ := h.takeWhile_tail hw
  obtain ⟨rest, rfl, -, -⟩ := h
  rw [List.tail_cons] at hword htext
  simp only [read, if_pos, hword, htext, String.ofList_toList]

/-- A line that gives a word of a command says that command. -/
theorem Gives.says (h : Gives escape line word text) (hw : word ∈ words) :
    ∃ l, ofWord? word text = some l ∧ Says escape line l := by
  unfold words at hw
  rcases List.mem_append.1 hw with hw | hw
  · simp only [List.mem_cons, List.not_mem_nil, or_false] at hw
    rcases hw with rfl | rfl | rfl | rfl
    · exact ⟨_, rfl, .alternative h⟩
    · exact ⟨_, rfl, .closing h⟩
    · exact ⟨_, ofWord?_kind .first text, .opening h⟩
    · exact ⟨_, ofWord?_kind .each text, .opening h⟩
  · obtain ⟨verb, -, rfl⟩ := List.mem_map.1 hw
    exact ⟨_, ofWord?_verb verb text, .command h⟩

/-- **A line says what it is read as.** -/
theorem says_read (escape : Char) (line : List Char) : Says escape line (read escape line) := by
  -- a line that is printed gives no word, or one that is no word of a command
  have hprinted : (∀ word ∈ words, ∀ text, ¬ Gives escape line word text) →
      read escape line = .print (String.ofList line) → Says escape line (read escape line) :=
    fun h he => he ▸ .print h
  cases line with
  | nil =>
    refine hprinted (fun word _ text h => ?_) rfl
    obtain ⟨rest, hrest, -, -⟩ := h
    cases hrest
  | cons c rest =>
    by_cases hc : c = escape
    · subst hc
      have hgives := gives_takeWhile c rest
      have hblank : ∀ d ∈ (String.ofList (rest.takeWhile fun c => !Text.isBlank c)).toList,
          Text.isBlank d = false := by
        intro d hd
        rw [String.toList_ofList] at hd
        simpa using List.mem_takeWhile_imp hd
      have hread := hgives.read_eq hblank
      by_cases hword : String.ofList (rest.takeWhile fun c => !Text.isBlank c) ∈ words
      · obtain ⟨l, hl, hsays⟩ := hgives.says hword
        rw [hread, hl]
        exact hsays
      · rw [ofWord?_of_not_mem hword] at hread
        refine hprinted (fun word hw text h => hword ?_) hread
        have hsame := (h.takeWhile_tail (not_isBlank_of_mem_words word hw)).1
        rw [List.tail_cons] at hsame
        rwa [hsame, String.ofList_toList]
    · refine hprinted (fun word _ text h => ?_) (if_neg hc)
      obtain ⟨rest', hrest, -, -⟩ := h
      exact hc (List.cons.inj hrest).1

/-- What a line says is what it is read as. -/
theorem Says.read_eq (h : Says escape line l) : read escape line = l := by
  have hgiven : ∀ {word text}, Gives escape line word text → word ∈ words →
      read escape line = (ofWord? word text).getD (.print (String.ofList line)) := fun h hw =>
    h.read_eq (not_isBlank_of_mem_words _ hw)
  cases h with
  | print h =>
    -- otherwise the line would say a command, and give its word
    have hsays := says_read escape line
    generalize read escape line = m at hsays ⊢
    cases hsays with
    | print _ => rfl
    | command h' => exact absurd h' (h _ (verb_word_mem_words _) _)
    | opening h' => exact absurd h' (h _ (kind_word_mem_words _) _)
    | alternative h' => exact absurd h' (h _ alternativeWord_mem_words _)
    | closing h' => exact absurd h' (h _ closingWord_mem_words _)
  | command h => rw [hgiven h (verb_word_mem_words _), ofWord?_verb]; rfl
  | opening h => rw [hgiven h (kind_word_mem_words _), ofWord?_kind]; rfl
  | alternative h => exact hgiven h alternativeWord_mem_words
  | closing h => exact hgiven h closingWord_mem_words

/-- **A line is read as what it says**, and it says one thing only. -/
theorem says_iff_read : Says escape line l ↔ read escape line = l :=
  ⟨Says.read_eq, fun h => h ▸ says_read escape line⟩

/-- A line is printed if it is read so. -/
theorem isPrinted_iff_read :
    IsPrinted escape line ↔ read escape line = .print (String.ofList line) := by
  refine ⟨fun h => (Says.print h).read_eq, fun h => ?_⟩
  have hsays := says_read escape line
  rw [h] at hsays
  cases hsays with
  | print h => exact h

instance (escape : Char) (line : List Char) : Decidable (IsPrinted escape line) :=
  decidable_of_iff _ isPrinted_iff_read.symm

/-- The lines of a template are what its text says, line by line. -/
theorem says_readAll (escape : Char) (body : String) :
    List.Forall₂ (Says escape) (Text.lines body.toList) (readAll escape body) := by
  unfold readAll
  rw [List.forall₂_map_right_iff, List.forall₂_same]
  exact fun line _ => says_read escape line

end SourceLine
end PassageLogic
