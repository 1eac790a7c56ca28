import PassageLogic.Proofs.Statement.Statements

/-! # Lines read back

**A well-formed line is read back from each of its texts**, with any terminators after it
(`read_written`). The statements of a line are read one after the other; no statement begins with the
word `if` or with a separator, so that the text after the head tells a rule from a conjunction. -/

namespace PassageLogic

namespace Reading

/-! ### What may follow a statement -/

theorem ends_closing {s : List Char} (h : ∀ c ∈ s, isTerminator c = true) : Ends s where
  head c hc := isWordChar_of_isTerminator (h c (List.mem_of_mem_head? hc))
  after := .inr fun c hc => h c ((List.dropWhile_sublist _).subset (List.mem_of_mem_head? hc))

theorem ends_if (s : List Char) : Ends (" if ".toList ++ s) where
  head c hc := by
    cases hc
    rfl
  after := .inl rfl

theorem isTerminator_of_isSeparator {c : Char} (h : isSeparator c = true) :
    isTerminator c = true := by
  rw [isTerminator, h, Bool.or_true]

theorem head_skipSpaces_separator {cs s : List Char} (h : ∀ c ∈ cs, isSeparator c = true)
    (hb : ',' ∈ cs ∨ '\n' ∈ cs) : ∀ c, (skipSpaces (cs ++ s)).head? = some c → isTerminator c = true := by
  induction cs with
  | nil => simp at hb
  | cons d cs ih =>
    by_cases hd : isSpace d = true
    · have hs : skipSpaces (d :: cs ++ s) = skipSpaces (cs ++ s) := List.dropWhile_cons_of_pos hd
      rw [hs]
      refine ih (fun c hc => h c (by simp [hc])) ?_
      rcases hb with hb | hb
      · rcases List.mem_cons.1 hb with rfl | hb
        · cases hd
        · exact .inl hb
      · rcases List.mem_cons.1 hb with rfl | hb
        · cases hd
        · exact .inr hb
    · have hs : skipSpaces (d :: cs ++ s) = d :: cs ++ s := List.dropWhile_cons_of_neg hd
      rw [hs]
      intro c hc
      cases hc
      exact isTerminator_of_isSeparator (h _ (by simp))

theorem ends_separator {separator : String} (h : IsSeparator separator) (s : List Char) :
    Ends (separator.toList ++ s) where
  head c hc := by
    have hne : separator.toList ≠ [] := by
      intro he
      have hb := h.2
      simp [he] at hb
    obtain ⟨d, cs, hd⟩ := List.exists_cons_of_ne_nil hne
    rw [hd] at hc
    cases hc
    exact isWordChar_of_isTerminator (isTerminator_of_isSeparator (h.1 c (by simp [hd])))
  after := .inr (head_skipSpaces_separator h.1 h.2)

/-! ### Statements one after the other -/

theorem statements_nil {s : List Char} (h : (statement (skipSeparators s)).result = none) :
    (statements s).Reads [] (skipSeparators s) := by
  rw [statements]
  split
  · rename_i h'
    rw [h] at h'
    cases h'
  · exact ⟨rfl, rfl⟩

theorem statements_cons {s r rest : List Char} {st : Statement} {sts : List Statement}
    (h : (statement (skipSeparators s)).Reads st r) (hr : (statements r).Reads sts rest) :
    (statements s).Reads (st :: sts) rest := by
  rw [statements]
  obtain ⟨hst, rfl⟩ := h
  split
  · rename_i h'
    rw [hst] at h'
    cases h'
    exact ⟨congrArg _ hr.1, hr.2⟩
  · rename_i h'
    rw [hst] at h'
    cases h'

theorem simple_fails {s : List Char} (h : (piece s).result = none) : (simple s).result = none := by
  have hst : Statement.ofPieces (pieces s).items = ⟨[], [], false⟩ := by
    rw [(pieces_nil h).1]
    rfl
  unfold simple
  simp only [hst]
  rfl

theorem word_fails_of_piece_fails {s : List Char} (h : (piece s).result = none) :
    (word s).result = none := by
  cases hw : (word s).result with
  | none => rfl
  | some w =>
    rw [(piece_reads_word ⟨hw, rfl⟩).1] at h
    cases h

theorem unmarked_fails {s : List Char} (h : (piece s).result = none) : (unmarked s).result = none := by
  refine result_orElse_eq_none (commanded_fails fun w hw => ?_) (simple_fails h)
  rw [word_fails_of_piece_fails h] at hw
  cases hw

/-- There is no statement where there is no piece of it. -/
theorem statement_fails_of_piece {s : List Char} (hm : (skipSpaces s).head? ≠ some '!')
    (h : (piece (skipSpaces s)).result = none) : (statement s).result = none :=
  statement_fails_unmarked hm (unmarked_fails h)

/-- There is no statement before a character that none begins with. -/
theorem statement_fails_of_head {c : Char} {s : List Char} (hw : isWordChar c = false)
    (hs : isSpace c = false) (ho : isOpening c = false) (hm : c ≠ '!') :
    (statement (c :: s)).result = none := by
  have hskip : skipSpaces (c :: s) = c :: s := skipSpaces_eq_of_head (forall_head rfl hs)
  refine statement_fails_of_piece ?_ ?_
  · rw [hskip]
    exact fun hc => hm (Option.some.inj hc)
  · rw [hskip]
    refine piece_fails (word_fails_of_wordRun (wordRun_nil_of_head ?_)) (forall_head rfl ho)
    refine forall_head rfl ⟨hw, fun he => ?_⟩
    rw [he] at hs
    cases hs

/-- After separators there is no statement among terminators. -/
theorem statement_fails {s : List Char} (h : ∀ c, s.head? = some c → c = '.') :
    (statement s).result = none := by
  cases s with
  | nil =>
    refine statement_fails_of_piece (by rintro ⟨⟩) ?_
    exact piece_fails (word_fails_of_wordRun rfl) fun c hc => by cases hc
  | cons c s =>
    obtain rfl := h c rfl
    exact statement_fails_of_head rfl rfl rfl (by decide)

section Closing

variable {s : List Char} (hs : ∀ c ∈ s, isTerminator c = true)
include hs

theorem head_skipSeparators_closing : ∀ c, (skipSeparators s).head? = some c → c = '.' := by
  intro c hc
  have hsep : isSeparator c = false := Text.of_head_dropWhile hc
  have ht := hs c ((List.dropWhile_sublist _).subset (List.mem_of_mem_head? hc))
  simpa [isTerminator, hsep] using ht

theorem statements_closing {r : List Char} (hr : skipSeparators r = skipSeparators s) :
    (statements r).Reads [] (skipSeparators s) := by
  rw [← hr]
  refine statements_nil (statement_fails ?_)
  rw [hr]
  exact head_skipSeparators_closing hs

theorem dropWhile_closing : (skipSeparators s).dropWhile isTerminator = [] := by
  rw [List.dropWhile_eq_nil_iff]
  exact fun c hc => hs c ((List.dropWhile_sublist _).subset hc)

end Closing

theorem skipSeparators_skipSeparators (s : List Char) :
    skipSeparators (skipSeparators s) = skipSeparators s :=
  Text.dropWhile_of_head fun _ hc => Text.of_head_dropWhile hc

theorem skipSeparators_separator {separator : String} (h : IsSeparator separator) (s : List Char) :
    skipSeparators (separator.toList ++ s) = skipSeparators s :=
  List.dropWhile_append_of_pos h.1

/-! ### Lines -/

section Lines

variable {input rest s : List Char} {head : Statement} {sts : List Statement}
  (hh : (statement input).Reads head rest)
include hh

theorem line_of_no_if (hif : atIf (skipSeparators rest) = false)
    (hsts : (statements (skipSeparators rest)).Reads sts s)
    (hs : s.dropWhile isTerminator = []) : line input = .ok (Line.ofStatements (head :: sts)) := by
  have hno : afterIf? (skipSeparators rest) = none := by
    rwa [atIf, Option.isSome_eq_false_iff, Option.isNone_iff_eq_none] at hif
  unfold line
  simp only [hh.1, hh.2, hno]
  unfold conjunction finish
  simp only [hsts.1, hsts.2, hs]

theorem line_of_if {r : List Char} (hif : afterIf? (skipSeparators rest) = some r)
    (hsts : (statements r).Reads sts s) (hne : sts ≠ [])
    (hs : s.dropWhile isTerminator = []) : line input = .ok (.rule head sts) := by
  obtain ⟨st, sts, rfl⟩ := List.exists_cons_of_ne_nil hne
  unfold line
  simp only [hh.1, hh.2, hif, hsts.1]
  unfold finish
  simp only [hsts.2, hs]

end Lines

/-- A statement with nothing but terminators after it is the whole line. -/
theorem line_of_one {input rest s : List Char} {st : Statement} (hst : (statement input).Reads st rest)
    (hs : ∀ c ∈ s, isTerminator c = true) (hrest : skipSeparators rest = skipSeparators s) :
    line input = .ok (.claim st) := by
  have hif : atIf (skipSeparators rest) = false := by
    rw [hrest]
    refine atIf_of_head fun c hc => ?_
    obtain rfl := head_skipSeparators_closing hs c hc
    exact ⟨rfl, by decide⟩
  have hmore : (statements (skipSeparators rest)).Reads [] (skipSeparators s) :=
    statements_closing hs (by rw [hrest, skipSeparators_skipSeparators])
  exact line_of_no_if hst hif hmore (dropWhile_closing hs)

end Reading

open Reading

section Joined

variable {sts : List Statement} {text : String} (h : Joined sts text)
  (hwf : ∀ st ∈ sts, st.WellFormed)
include h hwf

/-- A joined text begins with its first statement. -/
theorem Joined.display_append {s : List Char} (hs : Ends s) :
    ∃ st ∈ sts, ∃ r, text.toList ++ s = st.display.toList ++ r ∧ Ends r := by
  cases h with
  | one st => exact ⟨st, by simp, s, rfl, hs⟩
  | @more st sts separator text hsep h =>
    refine ⟨st, by simp, separator.toList ++ (text.toList ++ s), ?_, ends_separator hsep _⟩
    simp

/-- **Joined statements are read one after the other.** -/
theorem Joined.statements_reads {s r : List Char} (hs : ∀ c ∈ s, isTerminator c = true)
    (hr : skipSeparators r = skipSeparators (text.toList ++ s)) :
    (statements r).Reads sts (skipSeparators s) := by
  induction h generalizing r with
  | one st =>
    have hst := hwf st (by simp)
    obtain ⟨rest, hread, hrest⟩ := hst.statement_reads (ends_closing hs)
    refine statements_cons ?_ (statements_closing hs hrest)
    rwa [hr, hst.skipSeparators_display]
  | @more st sts separator text hsep h ih =>
    have hst := hwf st (by simp)
    obtain ⟨rest, hread, hrest⟩ := hst.statement_reads (ends_separator hsep (text.toList ++ s))
    have hnext : skipSeparators rest = skipSeparators (text.toList ++ s) := by
      rw [hrest, skipSeparators_separator hsep]
    refine statements_cons ?_ (ih (fun u hu => hwf u (by simp [hu])) hnext)
    rw [hr]
    simp only [String.toList_append, List.append_assoc]
    rwa [hst.skipSeparators_display]

end Joined

theorem Line.WellFormed.read_eq {l : Line} (hl : l.WellFormed) {text closing : String}
    (ht : l.Written text) (hc : IsClosing closing) : Line.read (text ++ closing) = .ok l := by
  unfold Line.read
  rw [String.toList_append]
  cases ht with
  | claim st =>
    obtain ⟨rest, hread, hrest⟩ := Statement.WellFormed.statement_reads hl (ends_closing hc)
    exact line_of_one hread hc hrest
  | @rule head body text h =>
    obtain ⟨hhead, hne, hbody⟩ := hl
    obtain ⟨rest, hread, hrest⟩ := hhead.statement_reads (ends_if (text.toList ++ closing.toList))
    have hif : afterIf? (skipSeparators rest) = some (' ' :: (text.toList ++ closing.toList)) := by
      rw [hrest]
      rfl
    have hmore := h.statements_reads hbody (r := ' ' :: (text.toList ++ closing.toList)) hc rfl
    simp only [String.toList_append, List.append_assoc]
    exact line_of_if hread hif hmore hne (dropWhile_closing hc)
  | @conjunction sts text h =>
    obtain ⟨hlen, hwf⟩ := hl
    cases h with
    | one st => simp at hlen
    | @more st sts separator text hsep h =>
      have hst := hwf st (by simp)
      have hsts : ∀ u ∈ sts, u.WellFormed := fun u hu => hwf u (by simp [hu])
      obtain ⟨rest, hread, hrest⟩ :=
        hst.statement_reads (ends_separator hsep (text.toList ++ closing.toList))
      obtain ⟨u, hu, r, hr, hend⟩ := h.display_append hsts (ends_closing hc)
      have hsame : skipSeparators rest = u.display.toList ++ r := by
        rw [hrest, skipSeparators_separator hsep, hr, (hsts u hu).skipSeparators_display]
      have hif : atIf (skipSeparators rest) = false := by
        rw [hsame]
        exact (hsts u hu).not_atIf hend
      have hmore := h.statements_reads hsts (r := skipSeparators rest) hc ?_
      · have hline := line_of_no_if hread hif hmore (dropWhile_closing hc)
        simp only [String.toList_append, List.append_assoc]
        rw [hline]
        cases h <;> rfl
      · rw [hsame, hr]

/-- **A command before the text of a statement is read as a command about it.** -/
theorem Statement.WellFormed.read_command {st : Statement} (h : st.WellFormed)
    (hpos : st.negated = false) {command : String} (hc : IsBareword command) :
    Line.read (command ++ ": " ++ st.display) = .ok (.claim (st.commanded command)) := by
  have hend : ∀ c ∈ ([] : List Char), isTerminator c = true := fun c hc => absurd hc List.not_mem_nil
  obtain ⟨rest, hread, hrest⟩ := h.commanded_reads hpos hc (ends_closing hend)
  have htext : (command ++ ": " ++ st.display).toList =
      command.toList ++ ':' :: ' ' :: (st.display.toList ++ []) := by
    simp
  unfold Line.read
  rw [htext]
  exact line_of_one hread hend hrest

/-- **Printing and then reading is the identity on every well-formed line.** The text that a line is
displayed as is one of its texts, and every text of a line is read as that line, with any terminators
after it. -/
theorem Line.read_written (l : Line) (hl : l.WellFormed) :
    l.Written l.display ∧ ∀ text, l.Written text → ∀ closing, IsClosing closing →
      Line.read (text ++ closing) = .ok l :=
  ⟨hl.written_display, fun _ ht _ hc => hl.read_eq ht hc⟩

/-- A rule with a denied statement in its body. -/
def snackRule : Line :=
  .rule ⟨["gets", "%", "from the iffy shop"], [.const "a \"big\" pie"], false⟩
    [⟨["hungry", "%"], [.var "who"], false⟩, ⟨["%", "is allergic to", "%"],
      [.var "who", .const "it's"], true⟩]

theorem Line.read_written_snackRule : snackRule.WellFormed ∧ IsClosing " .\n" ∧
    Line.read (snackRule.display ++ " .\n") = .ok snackRule := by
  have hwf : snackRule.WellFormed := by decide +kernel
  have hc : IsClosing " .\n" := by
    intro c hc
    have : c = ' ' ∨ c = '.' ∨ c = '\n' := by simpa using hc
    rcases this with rfl | rfl | rfl <;> rfl
  have h := Line.read_written snackRule hwf
  exact ⟨hwf, hc, h.2 _ h.1 _ hc⟩

end PassageLogic
