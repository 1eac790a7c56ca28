import PassageLogic.Proofs.Statement.Pieces

/-! # Statements read back

A well-formed statement is read back from its text (`statement_reads`).

* `Ends`: what follows a statement (separators, terminators or the word `if`) is not taken for a piece
  of it. Only spaces of it are taken, so that skipping separators leads to the same place as before.
* `Filling.piecesRead`: the pieces of a statement are read one after the other. Every bareword ends at
  the space before a term, or where the statement ends.
* `Filling.commanded_fails`: no statement is taken for a command, as no colon follows its first
  bareword. -/

namespace PassageLogic

namespace Reading

open Text

/-- What holds of the first character holds of every first character. -/
theorem forall_head {s : List Char} {c : Char} (hc : s.head? = some c) {P : Char → Prop} (h : P c) :
    ∀ d, s.head? = some d → P d := by
  intro d hd
  rw [hc] at hd
  cases hd
  exact h

/-! ### Where a statement ends -/

/-- After some spaces there is no more piece of a statement here. -/
structure Ends (s : List Char) : Prop where
  head : ∀ c, s.head? = some c → isWordChar c = false
  after : atIf s = true ∨ ∀ c, (skipSpaces s).head? = some c → isTerminator c = true

/-- A character that a term begins with. -/
def isOpening (c : Char) : Bool := c == '(' || c == '"' || c == '\''

theorem isOpening_cases {c : Char} (h : isOpening c = true) : c = '(' ∨ c = '"' ∨ c = '\'' := by
  simpa [isOpening, or_assoc] using h

theorem isTerminator_cases {c : Char} (h : isTerminator c = true) :
    c = '.' ∨ c = ' ' ∨ c = '\t' ∨ c = '\r' ∨ c = '\n' ∨ c = ',' := by
  simpa [isTerminator, isSeparator, or_assoc] using h

theorem isWordChar_of_isTerminator {c : Char} (h : isTerminator c = true) :
    isWordChar c = false := by
  rcases isTerminator_cases h with rfl | rfl | rfl | rfl | rfl | rfl <;> decide

theorem isOpening_of_end {c : Char} (h : c = 'i' ∨ isTerminator c = true) :
    isOpening c = false ∧ c ≠ ':' := by
  rcases h with rfl | h
  · decide
  · rcases isTerminator_cases h with rfl | rfl | rfl | rfl | rfl | rfl <;> decide

theorem isSeparator_of_isSpace {c : Char} (h : isSpace c = true) : isSeparator c = true := by
  have hc : c = ' ' ∨ c = '\t' := by simpa [isSpace] using h
  rcases hc with rfl | rfl <;> rfl

theorem isTerminator_of_isSpace {c : Char} (h : isSpace c = true) : isTerminator c = true := by
  rw [isTerminator, isSeparator_of_isSpace h, Bool.or_true]

/-- No statement begins with a separator or a mark that has a meaning of its own. -/
theorem isSeparator_of_first {c : Char} (h : isWordChar c = true ∨ isOpening c = true) :
    isSeparator c = false ∧ c ≠ '!' ∧ c ≠ ':' := by
  rcases h with h | h
  · refine ⟨?_, ?_, ?_⟩
    · by_contra hsep
      rw [isWordChar_of_isTerminator (by simp [isTerminator, hsep])] at h
      cases h
    · rintro rfl
      exact absurd h (by decide)
    · rintro rfl
      exact absurd h (by decide)
  · rcases isOpening_cases h with rfl | rfl | rfl <;> decide

theorem isSpace_of_head_skipSpaces {s : List Char} {c : Char} (h : (skipSpaces s).head? = some c) :
    isSpace c = false :=
  of_head_dropWhile h

theorem skipSpaces_eq_of_head {s : List Char} (h : ∀ c, s.head? = some c → isSpace c = false) :
    skipSpaces s = s :=
  dropWhile_of_head h

theorem atIf_skipSpaces (s : List Char) : atIf (skipSpaces s) = atIf s := by
  unfold atIf afterIf?
  rw [skipSpaces_eq_of_head fun c hc => isSpace_of_head_skipSpaces hc]

theorem skipSeparators_skipSpaces (s : List Char) :
    skipSeparators (skipSpaces s) = skipSeparators s := by
  conv_rhs => rw [← List.takeWhile_append_dropWhile (p := isSpace) (l := s)]
  unfold skipSeparators skipSpaces
  rw [List.dropWhile_append_of_pos]
  intro c hc
  have hsp : c = ' ' ∨ c = '\t' := by simpa [isSpace] using List.mem_takeWhile_imp hc
  rcases hsp with rfl | rfl <;> rfl

theorem word_fails_of_atIf {s : List Char} (h : atIf s = true) : (word s).result = none := by
  unfold word
  rw [if_pos h]
  rfl

theorem word_fails_of_wordRun {s : List Char} (h : wordRun s = []) : (word s).result = none := by
  unfold word
  rw [h]
  split <;> rfl

theorem term_fails {s : List Char} (h : ∀ c, s.head? = some c → isOpening c = false) :
    (term s).result = none := by
  have hne : ∀ o, isOpening o = true → s.head? ≠ some o := by
    intro o ho hs
    rw [h o hs] at ho
    cases ho
  have hf : ((variableTerm s).orElse (constantTerm s)).result = none :=
    result_orElse_eq_none (result_map_eq_none _ (delimited_fails (hne '(' rfl)))
      (result_map_eq_none _ (result_orElse_eq_none (delimited_fails (hne '"' rfl))
        (delimited_fails (hne '\'' rfl))))
  unfold term
  simp only [hf]

theorem piece_fails {s : List Char} (hw : (word s).result = none)
    (ht : ∀ c, s.head? = some c → isOpening c = false) : (piece s).result = none :=
  result_orElse_eq_none (result_map_eq_none _ hw) (result_map_eq_none _ (term_fails ht))

theorem wordRun_nil_of_head {s : List Char}
    (h : ∀ c, s.head? = some c → isWordChar c = false ∧ (c = ' ' → atIf s = true)) :
    wordRun s = [] := by
  cases s with
  | nil => rfl
  | cons c s =>
    obtain ⟨hw, hsp⟩ := h c rfl
    by_cases hc : c = ' '
    · simp [wordRun, hw, hsp hc]
    · simp [wordRun, hw, hc]

theorem wordRun_drop (s : List Char) : wordRun (s.drop (wordRun s).length) = [] := by
  induction s with
  | nil => rfl
  | cons c s ih =>
    by_cases h : (isWordChar c || (c == ' ' && !atIf (c :: s))) = true
    · have hr : wordRun (c :: s) = c :: wordRun s := by rw [wordRun, if_pos h]
      rw [hr, List.length_cons, List.drop_succ_cons]
      exact ih
    · have hr : wordRun (c :: s) = [] := by rw [wordRun, if_neg h]
      rw [hr, List.length_nil, List.drop_zero, hr]

theorem wordRun_spaces {s : List Char}
    (h : ∀ c, (skipSpaces s).head? = some c → isTerminator c = true) :
    ∀ c ∈ wordRun s, c = ' ' := by
  induction s with
  | nil => simp [wordRun]
  | cons d s ih =>
    intro c hc
    by_cases hd : isSpace d = true
    · have hs : skipSpaces (d :: s) = skipSpaces s := List.dropWhile_cons_of_pos hd
      rw [wordRun] at hc
      split at hc
      · rename_i hrun
        rcases List.mem_cons.1 hc with rfl | hc
        · by_contra hne
          have : isWordChar c = true := by simpa [hne] using hrun
          rw [isSpace_of_isWordChar this] at hd
          cases hd
        · rw [hs] at h
          exact ih h c hc
      · cases hc
    · have hd' : isSpace d = false := by simpa using hd
      have hs : skipSpaces (d :: s) = d :: s := skipSpaces_eq_of_head (by simpa using hd')
      have ht := h d (by rw [hs]; rfl)
      have hn : wordRun (d :: s) = [] := by
        refine wordRun_nil_of_head (forall_head rfl ⟨isWordChar_of_isTerminator ht, ?_⟩)
        rintro rfl
        cases hd'
      rw [hn] at hc
      cases hc

namespace Ends

variable {s : List Char}

theorem wordRun_of_atIf (h : Ends s) (hat : atIf s = true) : wordRun s = [] :=
  wordRun_nil_of_head fun c hc => ⟨h.head c hc, fun _ => hat⟩

theorem spaces (h : Ends s) : ∀ c ∈ wordRun s, c = ' ' := by
  rcases h.after with hat | ht
  · rw [h.wordRun_of_atIf hat]
    simp
  · exact wordRun_spaces ht

theorem skipSeparators_drop (h : Ends s) :
    skipSeparators (s.drop (wordRun s).length) = skipSeparators s := by
  conv_rhs => rw [← wordRun_prefix s]
  unfold skipSeparators
  rw [List.dropWhile_append_of_pos]
  intro c hc
  rw [h.spaces c hc]
  rfl

theorem skipSpaces_drop (h : Ends s) :
    skipSpaces (s.drop (wordRun s).length) = skipSpaces s := by
  conv_rhs => rw [← wordRun_prefix s]
  unfold skipSpaces
  rw [List.dropWhile_append_of_pos]
  intro c hc
  rw [h.spaces c hc]
  rfl

theorem head_skipSpaces (h : Ends s) {c : Char} (hc : (skipSpaces s).head? = some c) :
    c = 'i' ∨ isTerminator c = true := by
  rcases h.after with hat | ht
  · by_contra hno
    rw [not_or] at hno
    have hif : atIf (skipSpaces s) = false :=
      atIf_of_head (forall_head hc ⟨isSpace_of_head_skipSpaces hc, hno.1⟩)
    rw [atIf_skipSpaces, hat] at hif
    cases hif
  · exact .inr (ht c hc)

theorem head_drop (h : Ends s) {c : Char} (hc : (s.drop (wordRun s).length).head? = some c) :
    c = 'i' ∨ isTerminator c = true := by
  by_cases hsp : isSpace c = true
  · exact .inr (isTerminator_of_isSpace hsp)
  · have hs : skipSpaces (s.drop (wordRun s).length) = s.drop (wordRun s).length :=
      skipSpaces_eq_of_head (forall_head hc (by simpa using hsp))
    rw [h.skipSpaces_drop] at hs
    exact h.head_skipSpaces (by rw [hs, hc])

theorem piece_fails_skipSpaces (h : Ends s) : (piece (skipSpaces s)).result = none := by
  refine piece_fails ?_ fun c hc => (isOpening_of_end (h.head_skipSpaces hc)).1
  rcases h.after with hat | ht
  · exact word_fails_of_atIf (by rw [atIf_skipSpaces, hat])
  · refine word_fails_of_wordRun (wordRun_nil_of_head ?_)
    intro c hc
    refine ⟨isWordChar_of_isTerminator (ht c hc), ?_⟩
    rintro rfl
    exact absurd (isSpace_of_head_skipSpaces hc) (by decide)

theorem piece_fails_drop (h : Ends s) : (piece (s.drop (wordRun s).length)).result = none :=
  piece_fails (word_fails_of_wordRun (wordRun_drop s)) fun _ hc =>
    (isOpening_of_end (h.head_drop hc)).1

end Ends

/-! ### Pieces of a statement -/

/-- A run of readings takes these things and leaves these characters. -/
def Run.Reads {α : Type} (r : Run α) (xs : List α) (rest : List Char) : Prop :=
  r.items = xs ∧ r.rest = rest

theorem piece_reads_word {s r : List Char} {w : String} (h : (word s).Reads w r) :
    (piece s).Reads (.word w) r :=
  (h.map Piece.word).orElse

theorem piece_reads_term {s r : List Char} {t : Token} (hw : (word s).result = none)
    (h : (term s).Reads t r) : (piece s).Reads (.term t) r :=
  .orElse_of_fails (result_map_eq_none _ hw) (h.map Piece.term)

theorem pieces_nil {s : List Char} (h : (piece s).result = none) : (pieces s).Reads [] s := by
  rw [pieces]
  split
  · rename_i h'
    rw [h] at h'
    cases h'
  · exact ⟨rfl, rfl⟩

theorem pieces_cons {s r rest : List Char} {p : Piece} {ps : List Piece} (h : (piece s).Reads p r)
    (hr : (pieces r).Reads ps rest) : (pieces s).Reads (p :: ps) rest := by
  rw [pieces]
  obtain ⟨hp, rfl⟩ := h
  split
  · rename_i h'
    rw [hp] at h'
    cases h'
    exact ⟨congrArg _ hr.1, hr.2⟩
  · rename_i h'
    rw [hp] at h'
    cases h'

/-- The same pieces follow where the first piece is the same and leaves the same characters. -/
theorem pieces_congr {s s' rest : List Char} {p : Piece} (h : (piece s).Reads p rest)
    (h' : (piece s').Reads p rest) :
    (pieces s').items = (pieces s).items ∧ (pieces s').rest = (pieces s).rest := by
  have hs := pieces_cons h ⟨rfl, rfl⟩
  have hs' := pieces_cons h' ⟨rfl, rfl⟩
  exact ⟨hs'.1.trans hs.1.symm, hs'.2.trans hs.2.symm⟩

/-- These words and terms are read here, and then there is nothing but separators before the place
that separators lead to from `s`. -/
def PiecesRead (ws : List String) (ts : List Token) (s r : List Char) : Prop :=
  ∃ ps rest, (pieces r).Reads ps rest ∧ ps.filterMap Piece.word? = ws ∧
    ps.filterMap Piece.token? = ts ∧ skipSeparators rest = skipSeparators s

namespace PiecesRead

variable {ws : List String} {ts : List Token} {s r r' : List Char}

theorem skipSpaces (h : Ends s) : PiecesRead [] [] s (skipSpaces s) := by
  refine ⟨[], Reading.skipSpaces s, pieces_nil h.piece_fails_skipSpaces, rfl, rfl, ?_⟩
  exact skipSeparators_skipSpaces s

theorem drop (h : Ends s) : PiecesRead [] [] s (s.drop (wordRun s).length) :=
  ⟨[], _, pieces_nil h.piece_fails_drop, rfl, rfl, h.skipSeparators_drop⟩

theorem word {w : String} (hw : w ≠ "") (h : (word r).Reads w r') (hr : PiecesRead ws ts s r') :
    PiecesRead (w :: ws) ts s r := by
  obtain ⟨ps, rest, hps, rfl, rfl, hrest⟩ := hr
  refine ⟨.word w :: ps, rest, pieces_cons (piece_reads_word h) hps, ?_, rfl, hrest⟩
  simp [Piece.word?, hw]

theorem term {t : Token} (hw : (Reading.word r).result = none) (h : (term r).Reads t r')
    (hr : PiecesRead ws ts s r') : PiecesRead (placeholder :: ws) (t :: ts) s r := by
  obtain ⟨ps, rest, hps, rfl, rfl, hrest⟩ := hr
  exact ⟨.term t :: ps, rest, pieces_cons (piece_reads_term hw h) hps, rfl, rfl, hrest⟩

/-- A space before the first piece does not matter, unless the word `if` is there. Before a bareword it is
trimmed away, and before a term it is a blank bareword. -/
theorem space (h : PiecesRead ws ts s r) (hif : atIf r = false) :
    PiecesRead ws ts s (' ' :: r) := by
  obtain ⟨ps, rest, hps, rfl, rfl, hrest⟩ := h
  have hif' : atIf (' ' :: r) = false := (atIf_space rfl r).trans hif
  have hrun : wordRun (' ' :: r) = ' ' :: wordRun r := by
    rw [wordRun, hif', if_pos (by decide)]
  have hword : (Reading.word (' ' :: r)).Reads (String.ofList (trim (wordRun r)))
      (r.drop (wordRun r).length) := by
    unfold Reading.word
    rw [hif', if_neg (by decide), hrun]
    exact ⟨rfl, rfl⟩
  by_cases hnil : wordRun r = []
  · rw [hnil] at hword
    exact ⟨.word "" :: ps, rest, pieces_cons (piece_reads_word hword) hps, rfl, rfl, hrest⟩
  · have hword' : (Reading.word r).Reads (String.ofList (trim (wordRun r)))
        (r.drop (wordRun r).length) := by
      unfold Reading.word
      rw [hif, if_neg (by decide)]
      split
      · exact absurd ‹_› hnil
      · exact ⟨rfl, rfl⟩
    obtain ⟨hitems, hafter⟩ := pieces_congr (piece_reads_word hword') (piece_reads_word hword)
    exact ⟨ps, rest, ⟨hitems.trans hps.1, hafter.trans hps.2⟩, rfl, rfl, hrest⟩

end PiecesRead

/-- Words with a term for each placeholder; barewords do not follow each other. -/
inductive Filling : List String → List Token → Prop where
  | nil : Filling [] []
  | term {t : Token} {ws : List String} {ts : List Token} :
      t.WellFormed → Filling ws ts → Filling (placeholder :: ws) (t :: ts)
  | word {w : String} {ws : List String} {ts : List Token} :
      IsBareword w → (∀ v, ws.head? = some v → v = placeholder) → Filling ws ts →
      Filling (w :: ws) ts

/-- The text of words and terms. -/
def body (ws : List String) (ts : List Token) : List Char :=
  (joinWith " " (Statement.filled ws ts)).toList

/-- What follows a piece that has these words and terms after it: a space and their text, if there
are any. -/
def following : List String → List Token → List Char → List Char
  | [], _, s => s
  | w :: ws, ts, s => ' ' :: (body (w :: ws) ts ++ s)

theorem joinWith_filled (text : String) (ws : List String) (ts : List Token) (s : List Char) :
    (joinWith " " (text :: Statement.filled ws ts)).toList ++ s =
      text.toList ++ following ws ts s := by
  cases ws with
  | nil => simp [Statement.filled, following]
  | cons w ws =>
    have hl := Statement.length_filled (w :: ws) ts
    obtain ⟨v, vs, hv⟩ : ∃ v vs, Statement.filled (w :: ws) ts = v :: vs := by
      cases hf : Statement.filled (w :: ws) ts with
      | nil => simp [hf] at hl
      | cons v vs => exact ⟨v, vs, rfl⟩
    simp [following, body, hv, joinWith_cons_cons]

theorem body_term (t : Token) (ws : List String) (ts : List Token) (s : List Char) :
    body (placeholder :: ws) (t :: ts) ++ s = t.display.toList ++ following ws ts s := by
  rw [← joinWith_filled]
  simp [body, Statement.filled]

theorem body_word {w : String} (hw : w ≠ placeholder) (ws : List String) (ts : List Token)
    (s : List Char) : body (w :: ws) ts ++ s = w.toList ++ following ws ts s := by
  rw [← joinWith_filled]
  simp [body, Statement.filled, hw]

theorem head_display (t : Token) : ∃ c cs, t.display.toList = c :: cs ∧ isOpening c = true := by
  cases t with
  | var name => exact ⟨'(', name.toList ++ [')'], by simp [Token.display], rfl⟩
  | const value =>
    by_cases hd : '"' ∈ value.toList
    · exact ⟨'\'', value.toList ++ ['\''], by simp [Token.display, hd], rfl⟩
    · exact ⟨'"', value.toList ++ ['"'], by simp [Token.display, hd], rfl⟩

theorem wordRun_opening {c : Char} (h : isOpening c = true) (s : List Char) :
    wordRun (c :: s) = [] := by
  refine wordRun_nil_of_head (forall_head rfl ?_)
  rcases isOpening_cases h with rfl | rfl | rfl <;>
    exact ⟨rfl, fun he => absurd he (by decide)⟩

theorem atIf_opening {c : Char} (h : isOpening c = true) (s : List Char) :
    atIf (c :: s) = false := by
  refine atIf_of_head (forall_head rfl ?_)
  rcases isOpening_cases h with rfl | rfl | rfl <;> decide

theorem word_fails_display (t : Token) (s : List Char) :
    (word (t.display.toList ++ s)).result = none := by
  obtain ⟨c, cs, hc, ho⟩ := head_display t
  rw [hc]
  exact word_fails_of_wordRun (wordRun_opening ho _)

namespace Filling

variable {ws : List String} {ts : List Token}

/-- The first piece is a bareword or begins with the opening of a term. -/
theorem head_body (h : Filling ws ts) (hne : ws ≠ []) (s : List Char) :
    ∃ c cs, body ws ts ++ s = c :: cs ∧ (isWordChar c = true ∨ isOpening c = true) := by
  cases h with
  | nil => exact absurd rfl hne
  | @term t ws ts ht h =>
    obtain ⟨c, cs, hc, ho⟩ := head_display t
    exact ⟨c, cs ++ following ws ts s, by rw [body_term, hc, List.cons_append], .inr ho⟩
  | @word w ws ts hw hv h =>
    obtain ⟨c, cs, hc, hf⟩ := hw.exists_first
    exact ⟨c, cs ++ following ws ts s, by rw [body_word hw.ne_placeholder, hc, List.cons_append],
      .inl hf⟩

theorem skipSpaces_body (h : Filling ws ts) (hne : ws ≠ []) (s : List Char) :
    skipSpaces (body ws ts ++ s) = body ws ts ++ s := by
  obtain ⟨c, cs, hc, hf⟩ := h.head_body hne s
  have hsep := (isSeparator_of_first hf).1
  rw [hc]
  refine skipSpaces_eq_of_head (forall_head rfl ?_)
  by_contra hsp
  rw [isSeparator_of_isSpace (by simpa using hsp)] at hsep
  cases hsep

theorem skipSpaces_following (h : Filling ws ts) (hne : ws ≠ []) (s : List Char) :
    skipSpaces (following ws ts s) = body ws ts ++ s := by
  have hs := h.skipSpaces_body hne s
  obtain ⟨w, ws, rfl⟩ := List.exists_cons_of_ne_nil hne
  rw [following]
  exact (List.dropWhile_cons_of_pos rfl).trans hs

theorem head_following (h : Filling ws ts) (hv : ∀ v, ws.head? = some v → v = placeholder)
    {s : List Char} (hs : Ends s) :
    ∀ c, (following ws ts s).head? = some c → isWordChar c = false := by
  cases ws with
  | nil => exact hs.head
  | cons w ws =>
    intro c hc
    cases hc
    rfl

/-- A statement does not begin with the word `if`. -/
theorem not_atIf (h : Filling ws ts) (hne : ws ≠ []) {s : List Char} (hs : Ends s) :
    atIf (body ws ts ++ s) = false := by
  cases h with
  | nil => exact absurd rfl hne
  | @term t ws ts ht h =>
    obtain ⟨c, cs, hc, ho⟩ := head_display t
    rw [body_term, hc]
    exact atIf_opening ho _
  | @word w ws ts hw hv h =>
    rw [body_word hw.ne_placeholder]
    exact hw.not_atIf (h.head_following hv hs)

/-- What follows a bareword before a term is one space. -/
theorem wordRun_following (h : Filling (placeholder :: ws) ts) (s : List Char) :
    wordRun (following (placeholder :: ws) ts s) = [' '] := by
  cases h with
  | @term t _ ts ht h =>
    obtain ⟨c, cs, hc, ho⟩ := head_display t
    have hrun : wordRun (c :: (cs ++ following ws ts s)) = [] := wordRun_opening ho _
    have hat : atIf (' ' :: c :: (cs ++ following ws ts s)) = false := by
      rw [atIf_space rfl]
      exact atIf_opening ho _
    rw [following, body_term, hc, List.cons_append, wordRun, hat, if_pos (by decide), hrun]
  | word hw => exact absurd rfl hw.ne_placeholder

/-- **A bareword of a statement is read back.** The next reading starts at the next piece, or after
the spaces at the end. -/
theorem word_reads {w : String} (hw : IsBareword w) (h : Filling ws ts)
    (hv : ∀ v, ws.head? = some v → v = placeholder) {s : List Char} (hs : Ends s) :
    (Reading.word (body (w :: ws) ts ++ s)).Reads w
      (if ws = [] then s.drop (wordRun s).length else body ws ts ++ s) := by
  rw [body_word hw.ne_placeholder]
  rcases ws with _ | ⟨v, ws⟩
  · exact hw.word_reads hs.head hs.spaces
  · obtain rfl := hv v rfl
    have hrun := h.wordRun_following s
    have hr := hw.word_reads (h.head_following hv hs) (by simp [hrun])
    rw [hrun] at hr
    exact hr

/-- **The pieces of a statement are read back.** -/
theorem piecesRead (h : Filling ws ts) (hne : ws ≠ []) {s : List Char} (hs : Ends s) :
    PiecesRead ws ts s (body ws ts ++ s) := by
  induction h with
  | nil => exact absurd rfl hne
  | @term t ws ts ht h ih =>
    rw [body_term]
    refine .term (word_fails_display t _) (term_reads ht _) ?_
    by_cases hws : ws = []
    · subst hws
      cases h
      exact .skipSpaces hs
    · rw [h.skipSpaces_following hws]
      exact ih hws
  | @word w ws ts hw hv h ih =>
    refine .word hw.nonempty (word_reads hw h hv hs) ?_
    by_cases hws : ws = []
    · subst hws
      cases h
      exact .drop hs
    · rw [if_neg hws]
      exact ih hws

end Filling

/-! ### One statement -/

theorem filling_of_placed {ws : List String} {ts : List Token}
    (hp : ws.count placeholder = ts.length) (hw : ∀ w ∈ ws, w ≠ placeholder → IsBareword w)
    (ha : ws.IsChain fun v w => v = placeholder ∨ w = placeholder)
    (ht : ∀ t ∈ ts, t.WellFormed) : Filling ws ts := by
  induction ws generalizing ts with
  | nil =>
    obtain rfl : ts = [] := List.length_eq_zero_iff.1 hp.symm
    exact .nil
  | cons w ws ih =>
    have hw' : ∀ v ∈ ws, v ≠ placeholder → IsBareword v := fun v hv => hw v (by simp [hv])
    by_cases h : w = placeholder
    · subst h
      rw [List.count_cons_self] at hp
      obtain ⟨t, ts, rfl⟩ := List.exists_cons_of_length_pos (l := ts) (by omega)
      refine .term (ht t (by simp)) (ih ?_ hw' ha.tail fun u hu => ht u (by simp [hu]))
      simpa using hp
    · rw [List.count_cons_of_ne h] at hp
      refine .word (hw w (by simp) h) ?_ (ih hp hw' ha.tail ht)
      intro v hv
      rcases ws with _ | ⟨u, ws⟩
      · cases hv
      · cases hv
        rcases (List.isChain_cons_cons.1 ha).1 with h' | h'
        · exact absurd h' h
        · exact h'

theorem skipSeparators_skipBreak (s : List Char) :
    skipSeparators (skipBreak s) = skipSeparators s := by
  unfold skipBreak
  split <;> rfl

theorem simple_reads {ws : List String} {ts : List Token} (hne : ws ≠ []) {s r : List Char}
    (h : PiecesRead ws ts s r) :
    ∃ rest, (simple r).Reads ⟨ws, ts, false⟩ rest ∧ skipSeparators rest = skipSeparators s := by
  obtain ⟨ps, rest, ⟨hps, hrest⟩, hws, hts, hsep⟩ := h
  have hst : Statement.ofPieces (pieces r).items = ⟨ws, ts, false⟩ := by
    rw [hps, Statement.ofPieces, hws, hts]
  have he : (⟨ws, ts, false⟩ : Statement).isEmpty = false := by
    cases ws with
    | nil => exact absurd rfl hne
    | cons w ws => rfl
  refine ⟨skipBreak rest, ?_, by rw [skipSeparators_skipBreak, hsep]⟩
  unfold simple
  simp only [hst, he, hrest]
  exact ⟨rfl, rfl⟩

/-- There is no command without a colon after its word. -/
theorem commanded_fails {r : List Char} (h : ∀ w, (word r).result = some w → w ≠ "" →
    (word r).rest.head? ≠ some ':') : (commanded r).result = none := by
  unfold commanded
  simp only []
  split
  · rfl
  · rename_i w hw
    split
    · rfl
    · rename_i hne
      split
      · rename_i r' hr
        exact absurd (by rw [hr]; rfl) (h w hw hne)
      · rfl

/-- After a command word and a colon there is a command if there is a statement. -/
theorem commanded_eq {s r : List Char} {w : String} (hw : (word s).Reads w (':' :: r))
    (hne : w ≠ "") : commanded s = match (simple r).result with
      | some target => ⟨some (target.commanded w), (simple r).rest, (simple r).misses⟩
      | none => .fail s (simple r).misses := by
  cases hr : (simple r).result with
  | none => simp only [commanded, hw.1, hw.2, if_neg hne, hr]
  | some target => simp only [commanded, hw.1, hw.2, if_neg hne, hr]

theorem Filling.commanded_fails {ws : List String} {ts : List Token} (h : Filling ws ts)
    (hne : ws ≠ []) {s : List Char} (hs : Ends s) : (commanded (body ws ts ++ s)).result = none := by
  refine Reading.commanded_fails ?_
  intro w hw _
  cases h with
  | nil => exact absurd rfl hne
  | @term t ws ts ht h =>
    rw [body_term, word_fails_display] at hw
    cases hw
  | @word v ws ts hv hp h =>
    rw [(Filling.word_reads hv h hp hs).2]
    by_cases hws : ws = []
    · rw [if_pos hws]
      exact fun hc => (isOpening_of_end (hs.head_drop hc)).2 rfl
    · rw [if_neg hws]
      obtain ⟨c, cs, hc, hf⟩ := h.head_body hws s
      rw [hc]
      intro he
      cases he
      exact (isSeparator_of_first hf).2.2 rfl

theorem Filling.unmarked_reads {ws : List String} {ts : List Token} (h : Filling ws ts)
    (hne : ws ≠ []) {s : List Char} (hs : Ends s) :
    ∃ rest, (unmarked (body ws ts ++ s)).Reads ⟨ws, ts, false⟩ rest ∧
      skipSeparators rest = skipSeparators s := by
  obtain ⟨rest, hr, hrest⟩ := simple_reads hne (h.piecesRead hne hs)
  exact ⟨rest, .orElse_of_fails (h.commanded_fails hne hs) hr, hrest⟩

theorem statement_marked {s r rest : List Char} {st : Statement} (hs : skipSpaces s = '!' :: r)
    (h : (unmarked (skipSpaces r)).Reads st rest) :
    (statement s).Reads (st.withNegated true) rest := by
  unfold statement
  rw [hs]
  simp only [h.1]
  exact ⟨rfl, h.2⟩

theorem statement_unmarked {s rest : List Char} {st : Statement}
    (hm : (skipSpaces s).head? ≠ some '!') (h : (unmarked (skipSpaces s)).Reads st rest) :
    (statement s).Reads (st.withNegated false) rest := by
  unfold statement
  split
  · rename_i hs
    exact absurd (by rw [hs]; rfl) hm
  · simp only [Attempt.after, h.1]
    exact ⟨rfl, h.2⟩

theorem statement_fails_marked {s r : List Char} (hs : skipSpaces s = '!' :: r)
    (h : (unmarked (skipSpaces r)).result = none) : (statement s).result = none := by
  unfold statement
  rw [hs]
  simp only [h]
  rfl

theorem statement_fails_unmarked {s : List Char} (hm : (skipSpaces s).head? ≠ some '!')
    (h : (unmarked (skipSpaces s)).result = none) : (statement s).result = none := by
  unfold statement
  split
  · rename_i hs
    exact absurd (by rw [hs]; rfl) hm
  · simp only [Attempt.after, h]
    rfl

end Reading

namespace Statement.WellFormed

open Reading

variable {st : Statement}

theorem filling (h : st.WellFormed) : Filling st.words st.tokens :=
  filling_of_placed h.placed h.barewords h.apart h.terms

theorem words_ne_nil (h : st.WellFormed) : st.words ≠ [] := by
  intro hw
  have hp := h.placed
  rw [hw, List.count_nil] at hp
  have ht : st.tokens = [] := List.length_eq_zero_iff.1 hp.symm
  have he := h.nonempty
  rw [isEmpty, hw, ht] at he
  cases he

theorem display_eq (st : Statement) (s : List Char) :
    st.display.toList ++ s =
      (if st.negated then ['!'] else []) ++ (body st.words st.tokens ++ s) := by
  cases h : st.negated <;> simp [display, body, h]

/-- The text of a statement begins with the mark of denial, a bareword or a term. -/
theorem head_display (h : st.WellFormed) (s : List Char) :
    ∃ c cs, st.display.toList ++ s = c :: cs ∧ isSeparator c = false := by
  rw [display_eq]
  cases hn : st.negated with
  | true => exact ⟨'!', _, rfl, rfl⟩
  | false =>
    obtain ⟨c, cs, hc, hf⟩ := h.filling.head_body h.words_ne_nil s
    exact ⟨c, cs, hc, (isSeparator_of_first hf).1⟩

theorem skipSeparators_display (h : st.WellFormed) (s : List Char) :
    skipSeparators (st.display.toList ++ s) = st.display.toList ++ s := by
  obtain ⟨c, cs, hc, hsep⟩ := h.head_display s
  rw [hc]
  exact List.dropWhile_cons_of_neg (by simp [hsep])

/-- A statement does not begin with the word `if`. -/
theorem not_atIf (h : st.WellFormed) {s : List Char} (hs : Ends s) :
    atIf (st.display.toList ++ s) = false := by
  rw [display_eq]
  cases hn : st.negated with
  | true => exact atIf_of_head (forall_head rfl ⟨rfl, by decide⟩)
  | false => exact h.filling.not_atIf h.words_ne_nil hs

/-- **A statement is read back.** -/
theorem statement_reads (h : st.WellFormed) {s : List Char} (hs : Ends s) :
    ∃ rest, (statement (st.display.toList ++ s)).Reads st rest ∧
      skipSeparators rest = skipSeparators s := by
  obtain ⟨rest, hr, hrest⟩ := h.filling.unmarked_reads h.words_ne_nil hs
  obtain ⟨c, cs, hc, hf⟩ := h.filling.head_body h.words_ne_nil s
  have hsp := h.filling.skipSpaces_body h.words_ne_nil s
  refine ⟨rest, ?_, hrest⟩
  obtain ⟨ws, ts, negated⟩ := st
  rw [display_eq]
  cases negated with
  | true =>
    refine statement_marked (r := body ws ts ++ s) ?_ (by rwa [hsp])
    exact skipSpaces_eq_of_head (forall_head rfl rfl)
  | false =>
    show (statement (body ws ts ++ s)).Reads _ rest
    refine statement_unmarked ?_ (by rwa [hsp])
    rw [hsp, hc]
    intro he
    cases he
    exact (isSeparator_of_first hf).2.1 rfl

/-- **A command about a statement is read back**, with a space after the colon. -/
theorem commanded_reads (h : st.WellFormed) (hpos : st.negated = false) {command : String}
    (hc : IsBareword command) {s : List Char} (hs : Ends s) :
    ∃ rest, (statement (command.toList ++ ':' :: ' ' :: (st.display.toList ++ s))).Reads
        (st.commanded command) rest ∧ skipSeparators rest = skipSeparators s := by
  obtain ⟨ws, ts, negated⟩ := st
  obtain rfl : negated = false := hpos
  have hbody : (⟨ws, ts, false⟩ : Statement).display.toList ++ s = body ws ts ++ s := display_eq _ s
  obtain ⟨rest, hsimple, hrest⟩ := simple_reads h.words_ne_nil
    ((h.filling.piecesRead h.words_ne_nil hs).space (h.filling.not_atIf h.words_ne_nil hs))
  have hword : (word (command.toList ++ ':' :: ' ' :: (body ws ts ++ s))).Reads command
      (':' :: ' ' :: (body ws ts ++ s)) :=
    hc.word_reads (forall_head rfl rfl) (by simp [wordRun, isWordChar])
  have hread : (Reading.commanded (command.toList ++ ':' :: ' ' :: (body ws ts ++ s))).Reads
      (Statement.commanded ⟨ws, ts, false⟩ command) rest := by
    rw [commanded_eq hword hc.nonempty, hsimple.1]
    exact ⟨rfl, hsimple.2⟩
  obtain ⟨c, cs, hcs, hfirst⟩ := hc.exists_first
  have hskip : skipSpaces (command.toList ++ ':' :: ' ' :: (body ws ts ++ s)) =
      command.toList ++ ':' :: ' ' :: (body ws ts ++ s) := by
    rw [hcs]
    exact skipSpaces_eq_of_head (forall_head rfl (isSpace_of_isWordChar hfirst))
  rw [hbody]
  refine ⟨rest, ?_, hrest⟩
  show (statement _).Reads ((Statement.commanded ⟨ws, ts, false⟩ command).withNegated false) rest
  refine statement_unmarked ?_ (by rw [hskip]; exact hread.orElse)
  rw [hskip, hcs]
  intro he
  cases he
  exact absurd hfirst (by decide)

end Statement.WellFormed

end PassageLogic
