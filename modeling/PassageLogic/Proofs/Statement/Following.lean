import PassageLogic.Proofs.Statement.Continuations

/-! # Other text after a statement

A statement that was read is read again before other text, and leads where that text does
(`statement_continues`). Pieces at the front of the text become a part of the statement, if this was not
closed by a comma or a newline (`Follows`). -/

namespace PassageLogic.Reading

open Text

variable {F : List Char → Prop} {s t r : List Char} {st : Statement}

/-! ### Statements without a mark -/

theorem piece_fails_of_head {c : Char} (hw : isWordChar c = false) (hs : c ≠ ' ')
    (ho : isOpening c = false) (s : List Char) : (piece (c :: s)).result = none :=
  piece_fails (word_fails_of_wordRun (wordRun_nil_of_head (forall_head rfl
    ⟨hw, fun he => absurd he hs⟩))) (forall_head rfl ho)

theorem skipBreak_cases (s : List Char) :
    (∃ b r, (b = ',' ∨ b = '\n') ∧ s = b :: r ∧ skipBreak s = r) ∨ skipBreak s = s := by
  unfold skipBreak
  split
  · exact .inl ⟨_, _, .inl rfl, rfl, rfl⟩
  · exact .inl ⟨_, _, .inr rfl, rfl, rfl⟩
  · exact .inr rfl

theorem simple_eq (h : Contentful (pieces s).items) : simple s =
    ⟨some (.ofPieces (pieces s).items), skipBreak (pieces s).rest, (pieces s).misses⟩ :=
  if_neg (by rw [h]; decide)

theorem contentful_of_simple (h : (simple s).Reads st r) :
    Contentful (pieces s).items ∧ r = skipBreak (pieces s).rest := by
  have hc : Contentful (pieces s).items := by
    by_contra hno
    have hempty : (Statement.ofPieces (pieces s).items).isEmpty = true := by
      simpa [Contentful] using hno
    have hfail : simple s = .fail s (pieces s).misses := if_pos hempty
    rw [hfail] at h
    cases h.1
  rw [simple_eq hc] at h
  exact ⟨hc, h.2.symm⟩

theorem Arrives.simple (h : Arrives F False s) : (simple s).Meets F := by
  refine ⟨.ofPieces (pieces s).items, _, ?_, h.rest⟩
  rw [simple_eq (h.content.resolve_left id)]
  exact ⟨rfl, rfl⟩

/-- Pieces that arrive are not read as a command: the colon would be left. -/
theorem Arrives.unmarked (hF : IsTarget F) (h : Arrives F False s) : (unmarked s).Meets F := by
  obtain ⟨st, rest, hread, hrest⟩ := h.simple
  refine ⟨st, rest, .orElse_of_fails (commanded_fails fun w hw _ hcolon => ?_) hread, hrest⟩
  obtain ⟨r, hr⟩ := List.head?_eq_some_iff.1 hcolon
  have hstop := pieces_nil (piece_fails_of_head (c := ':') rfl (by decide) rfl r)
  have harrive := h.rest
  rw [(pieces_cons (piece_reads_word ⟨hw, hr⟩) hstop).2] at harrive
  exact hF.not_colon r harrive

/-- After what leaves `s`, the text `t` goes on to the target; if the statement is not closed before `s`,
so that pieces of `t` may become a part of it, then these can go before what went before `s`. -/
structure Follows (F : List Char → Prop) (s t : List Char) : Prop where
  target : F t
  arrives : (piece s).result = none → F (skipBreak (pieces t).rest)
  replaces : (piece s).result = none → Replaces F s t

theorem simple_continues (h : (simple s).Reads st r) : ∃ c, s = c ++ r ∧
    ∀ {F t}, IsTarget F → Follows F r t → Arrives F False (c ++ t) := by
  obtain ⟨hc, rfl⟩ := contentful_of_simple h
  obtain ⟨c, hs, hmore⟩ := pieces_continue s
  have hfail := piece_fails_rest s
  rcases skipBreak_cases (pieces s).rest with ⟨b, r, hb, hrest, hr⟩ | heq
  · have htext : s = c ++ [b] ++ r := by
      rw [List.append_assoc]
      exact hs.trans (congrArg _ hrest)
    refine ⟨c ++ [b], htext.trans (congrArg _ hr.symm), fun {F t} hF ht => ?_⟩
    rw [List.append_assoc]
    refine hmore hF (.of_head hF (by rw [hrest]; rfl)) ⟨?_, .inl (.inr hc)⟩
    rw [hr] at ht
    have hclosed : (piece (b :: t)).result = none := by
      rcases hb with rfl | rfl <;> exact piece_fails_of_head rfl (by decide) rfl t
    have hskip : skipBreak (b :: t) = t := by
      rcases hb with rfl | rfl <;> rfl
    show F (skipBreak (pieces (b :: t)).rest)
    rw [(pieces_nil hclosed).2, hskip]
    exact ht.target
  · rw [heq]
    exact ⟨c, hs, fun hF ht => hmore hF (ht.replaces hfail) ⟨ht.arrives hfail, .inl (.inr hc)⟩⟩

/-! ### Commands -/

/-- A word is read again before a colon. -/
theorem word_before_colon {w : String} (h : (word s).Reads w r) (r' : List Char) :
    (word (wordRun s ++ ':' :: r')).Reads w (':' :: r') := by
  obtain ⟨hat, hne, rfl, hs⟩ := run_of_word h
  have hrun : wordRun (wordRun s ++ r) = wordRun s := by rw [← hs]
  obtain ⟨hrun', hat'⟩ := wordRun_continue (t := ':' :: r') hrun (by simp)
    (atIf_of_head (forall_head rfl (by decide)))
  have hstop : wordRun (':' :: r') = [] :=
    wordRun_nil_of_head (forall_head rfl ⟨rfl, fun he => absurd he (by decide)⟩)
  rw [hstop, List.append_nil] at hrun'
  have hword := word_of_run (hat' (by rw [← hs]; exact hat)) (by rw [hrun']; exact hne)
  rwa [hrun', List.drop_left] at hword

theorem commanded_meets {w : String} (hw : (word s).Reads w (':' :: r)) (hne : w ≠ "")
    (h : (simple r).Meets F) : (commanded s).Meets F := by
  obtain ⟨target, rest, ⟨ht, hr⟩, hF⟩ := h
  refine ⟨target.commanded w, rest, ?_, hF⟩
  have heq := commanded_eq hw hne
  rw [ht] at heq
  rw [heq]
  exact ⟨rfl, hr⟩

theorem Attempt.Meets.orElse {α : Type} {a b : Attempt α} (h : a.Meets F) : (a.orElse b).Meets F := by
  obtain ⟨x, rest, hread, hF⟩ := h
  exact ⟨x, rest, hread.orElse, hF⟩

theorem unmarked_continues (h : (unmarked s).Reads st r) : ∃ c, s = c ++ r ∧
    ∀ {F t}, IsTarget F → Follows F r t → (unmarked (c ++ t)).Meets F := by
  rcases h.of_orElse with hc | hs
  · obtain ⟨w, r', target, hw, hne, ht, rfl, hrest⟩ := exists_of_commanded hc.1
    obtain ⟨-, -, -, hs⟩ := run_of_word hw
    obtain ⟨c, hr, hsimple⟩ := simple_continues (r := r) ⟨ht, hrest.symm.trans hc.2⟩
    refine ⟨wordRun s ++ ':' :: c, ?_, fun {F t} hF hfollows => ?_⟩
    · rw [List.append_assoc, List.cons_append, ← hr]
      exact hs
    · rw [List.append_assoc, List.cons_append]
      exact (commanded_meets (word_before_colon hw _) hne (hsimple hF hfollows).simple).orElse
  · obtain ⟨c, hs, hsimple⟩ := simple_continues hs
    exact ⟨c, hs, fun hF hfollows => (hsimple hF hfollows).unmarked hF⟩

theorem unmarked_shorter (h : (unmarked s).Reads st r) : r.length < s.length := by
  have hlen := orElse_shorter (commanded_shorter s) (simple_shorter s) st h.1
  rwa [← h.2]

/-! ### Statements -/

theorem statement_misses_unmarked {m : Miss} (hm : (skipSpaces s).head? ≠ some '!')
    (h : m ∈ (statement s).misses) :
    m = ⟨skipSpaces s, .literal "!"⟩ ∨ m ∈ (unmarked (skipSpaces s)).misses := by
  unfold statement at h
  split at h
  · rename_i r hr
    exact absurd (by rw [hr]; rfl) hm
  · simp only [] at h
    split at h
    · exact List.mem_cons.1 h
    · exact List.mem_cons.1 h

/-- Spaces before a statement, perhaps with the mark of denial among them. -/
def IsLead (lead : List Char) : Prop :=
  (∀ x ∈ lead, isSpace x = true) ∨ ∃ before after, lead = before ++ '!' :: after ∧
    (∀ x ∈ before, isSpace x = true) ∧ ∀ x ∈ after, isSpace x = true

/-- The statement here is what stands after the lead. -/
structure Led (s lead u : List Char) : Prop where
  text : s = lead ++ u
  lead : IsLead lead
  first : ∀ x, u.head? = some x → isSpace x = false
  reads : ∀ {st rest}, (statement s).Reads st rest → ∃ target, (unmarked u).Reads target rest
  misses : ∀ m ∈ (statement s).misses,
    m = ⟨skipSpaces s, .literal "!"⟩ ∨ m ∈ (unmarked u).misses

theorem exists_led (s : List Char) : ∃ lead u, Led s lead u := by
  have hs : s = s.takeWhile isSpace ++ skipSpaces s := List.takeWhile_append_dropWhile.symm
  have hspace : ∀ s : List Char, ∀ x ∈ s.takeWhile isSpace, isSpace x = true := fun _ _ hx =>
    List.mem_takeWhile_imp hx
  by_cases hm : (skipSpaces s).head? = some '!'
  · obtain ⟨r, hr⟩ := List.head?_eq_some_iff.1 hm
    have hr' : r = r.takeWhile isSpace ++ skipSpaces r := List.takeWhile_append_dropWhile.symm
    refine ⟨s.takeWhile isSpace ++ '!' :: r.takeWhile isSpace, skipSpaces r, ?_, ?_, ?_, ?_, ?_⟩
    · rw [List.append_assoc, List.cons_append, ← hr', ← hr]
      exact hs
    · exact .inr ⟨_, _, rfl, hspace s, hspace r⟩
    · exact fun x hx => isSpace_of_head_skipSpaces hx
    · intro st rest h
      cases hu : (unmarked (skipSpaces r)).result with
      | none =>
        cases (statement_fails_marked hr hu).symm.trans h.1
      | some target =>
        exact ⟨target, hu, (statement_marked hr ⟨hu, rfl⟩).2.symm.trans h.2⟩
    · intro m hm
      unfold statement at hm
      simp only [hr] at hm
      split at hm
      · exact .inr hm
      · exact .inr hm
  · refine ⟨s.takeWhile isSpace, skipSpaces s, hs, .inl (hspace s), ?_, ?_, ?_⟩
    · exact fun x hx => isSpace_of_head_skipSpaces hx
    · intro st rest h
      cases hu : (unmarked (skipSpaces s)).result with
      | none =>
        cases (statement_fails_unmarked hm hu).symm.trans h.1
      | some target =>
        exact ⟨target, hu, (statement_unmarked hm ⟨hu, rfl⟩).2.symm.trans h.2⟩
    · exact fun m hmiss => statement_misses_unmarked hm hmiss

/-- A statement is read after a lead. -/
theorem statement_meets {lead u : List Char} (hl : IsLead lead)
    (hu : ∀ x, u.head? = some x → isSpace x = false) (h : (unmarked u).Meets F) :
    (statement (lead ++ u)).Meets F := by
  obtain ⟨target, rest, hread, hF⟩ := h
  have hskip : ∀ spaces, (∀ x ∈ spaces, isSpace x = true) → skipSpaces (spaces ++ u) = u :=
    fun spaces hs => by
      rw [skipSpaces, List.dropWhile_append_of_pos hs]
      exact skipSpaces_eq_of_head hu
  rcases hl with hs | ⟨before, after, rfl, hb, ha⟩
  · have hm : u.head? ≠ some '!' := by
      intro hm
      obtain ⟨r, rfl⟩ := List.head?_eq_some_iff.1 hm
      have hfails := unmarked_fails (piece_fails_of_head (c := '!') rfl (by decide) rfl r)
      cases hfails.symm.trans hread.1
    have hlead := hskip lead hs
    exact ⟨_, rest, statement_unmarked (by rw [hlead]; exact hm) (by rw [hlead]; exact hread), hF⟩
  · have hmark : skipSpaces (before ++ '!' :: after ++ u) = '!' :: (after ++ u) := by
      rw [List.append_assoc, skipSpaces, List.dropWhile_append_of_pos hb]
      rfl
    exact ⟨_, rest, statement_marked hmark (by rw [hskip after ha]; exact hread), hF⟩

/-- **A statement that was read is read before other text**, and leads where that does. -/
theorem statement_continues (h : (statement s).Reads st r) : ∃ c, s = c ++ r ∧
    ∀ {F t}, IsTarget F → Follows F r t → (statement (c ++ t)).Meets F := by
  obtain ⟨lead, u, hled⟩ := exists_led s
  obtain ⟨target, hu⟩ := hled.reads h
  obtain ⟨c, rfl, hmore⟩ := unmarked_continues hu
  have hne : c ≠ [] := by
    rintro rfl
    exact Nat.lt_irrefl _ (unmarked_shorter hu)
  refine ⟨lead ++ c, by rw [List.append_assoc]; exact hled.text, fun hF ht => ?_⟩
  rw [List.append_assoc]
  refine statement_meets hled.lead (fun x hx => hled.first x ?_) (hmore hF ht)
  rwa [List.head?_append_of_ne_nil _ hne] at hx ⊢

/-! ### Statements in a row -/

/-- Statements lead from here to the end, up to terminators. -/
def Finishes (s : List Char) : Prop := (statements s).rest.dropWhile isTerminator = []

theorem statements_congr (h : skipSeparators s = skipSeparators t) : statements s = statements t := by
  rw [statements, h]
  conv_rhs => rw [statements]

theorem finishes_congr (h : skipSeparators s = skipSeparators t) (hs : Finishes s) : Finishes t := by
  rwa [Finishes, ← statements_congr h]

theorem finishes_cons (hs : skipSeparators s = t) (h : (statement t).Reads st r) :
    Finishes s ↔ Finishes r := by
  subst hs
  unfold Finishes
  rw [(statements_cons h ⟨rfl, rfl⟩).2]

theorem finishes_closing (h : ∀ c ∈ s, isTerminator c = true) : Finishes s := by
  unfold Finishes
  rw [(statements_closing h rfl).2]
  exact dropWhile_closing h

/-- Before a character that is no terminator there must be a statement. -/
theorem statement_of_finishes {c : Char} (hc : isTerminator c = false) (h : Finishes (c :: s)) :
    (statement (c :: s)).result ≠ none := by
  intro hfails
  have hskip : skipSeparators (c :: s) = c :: s := by
    refine List.dropWhile_cons_of_neg ?_
    rw [isTerminator, Bool.or_eq_false_iff] at hc
    simp [hc.2]
  unfold Finishes at h
  rw [(statements_nil (hskip.symm ▸ hfails)).2, hskip, List.dropWhile_cons_of_neg (by simp [hc])] at h
  cases h

theorem isTarget_finishes : IsTarget Finishes where
  congr := finishes_congr
  not_colon _ h := statement_of_finishes rfl h (statement_fails_of_head rfl rfl rfl (by decide))

theorem exists_of_atIf (h : atIf s = true) : ∃ r, skipSpaces s = 'i' :: 'f' :: r ∧
    skipSeparators s = 'i' :: 'f' :: r ∧ ∀ x, r.head? = some x → isWordChar x = false := by
  rw [← atIf_skipSpaces] at h
  cases hs : skipSpaces s with
  | nil =>
    rw [hs] at h
    cases h
  | cons c r =>
    rw [hs] at h
    obtain ⟨r', hif, hr⟩ := head_of_atIf (isSpace_of_head_skipSpaces (by rw [hs]; rfl)) h
    refine ⟨r', hif, ?_, hr⟩
    rw [← skipSeparators_skipSpaces, hs, hif]
    rfl

theorem statement_fails_of_if (hr : ∀ x, r.head? = some x → isWordChar x = false) :
    (statement ('i' :: 'f' :: r)).result = none := by
  have hskip : skipSpaces ('i' :: 'f' :: r) = 'i' :: 'f' :: r := rfl
  refine statement_fails_of_piece (by rw [hskip]; simp) ?_
  exact piece_fails_of_atIf (by rw [hskip]; exact atIf_if hr)

theorem not_finishes_of_atIf (h : atIf s = true) : ¬ Finishes s := by
  intro hs
  obtain ⟨r, -, hskip, hr⟩ := exists_of_atIf h
  refine statement_of_finishes rfl (finishes_congr ?_ hs) (statement_fails_of_if hr)
  rw [hskip]
  rfl

theorem isSpace_of_isOpening {c : Char} (h : isOpening c = true) : isSpace c = false := by
  rcases isOpening_cases h with rfl | rfl | rfl <;> rfl

/-- A statement that begins with a term ends where the pieces do. -/
theorem statement_of_opening {o : Char} (ho : isOpening o = true)
    (hc : Contentful (pieces (o :: s)).items) :
    (statement (o :: s)).Reads ((Statement.ofPieces (pieces (o :: s)).items).withNegated false)
      (skipBreak (pieces (o :: s)).rest) := by
  have hskip : skipSpaces (o :: s) = o :: s :=
    skipSpaces_eq_of_head (forall_head rfl (isSpace_of_isOpening ho))
  have hsimple : (simple (o :: s)).Reads (.ofPieces (pieces (o :: s)).items)
      (skipBreak (pieces (o :: s)).rest) := by
    rw [simple_eq hc]
    exact ⟨rfl, rfl⟩
  have hunmarked : (unmarked (o :: s)).Reads _ _ := hsimple.orElse_of_fails <|
    commanded_fails fun w hw => by
      rw [word_fails_of_wordRun (wordRun_opening ho s)] at hw
      cases hw
  refine statement_unmarked ?_ (hskip.symm ▸ hunmarked)
  rw [hskip]
  exact fun he => (isSeparator_of_first (.inr ho)).2.1 (Option.some.inj he)

/-- Where there is no piece and not the word `if`, there is no bareword either. -/
theorem head_of_piece_fails (hp : (piece s).result = none) (hat : atIf s = false) :
    ∀ x, s.head? = some x → isWordChar x = false ∧ x ≠ ' ' := by
  have hrun : wordRun s = [] := by
    by_contra hno
    rw [(piece_reads_word (word_of_run hat hno)).1] at hp
    cases hp
  refine fun x hx => ⟨head_of_wordRun_nil hrun x hx, ?_⟩
  rintro rfl
  obtain ⟨r, rfl⟩ := List.head?_eq_some_iff.1 hx
  rw [wordRun, hat, if_pos (by decide)] at hrun
  cases hrun

/-- Text that begins with a term or a mark finishes after the pieces at its front. -/
theorem finishes_pieces (h : Finishes s)
    (hs : ∀ x, s.head? = some x → isWordChar x = false ∧ x ≠ ' ') :
    Finishes (skipBreak (pieces s).rest) := by
  cases hp : (piece s).result with
  | none =>
    rw [(pieces_nil hp).2]
    exact isTarget_finishes.skipBreak h
  | some p =>
    have hrun : wordRun s = [] := wordRun_nil_of_head fun x hx => ⟨(hs x hx).1, fun he =>
      absurd he (hs x hx).2⟩
    rcases piece_cases ⟨hp, rfl⟩ with ⟨-, hne, -⟩ | ⟨o, cs, d, t, x, henc, rfl, -, rfl⟩
    · exact absurd hrun hne
    · -- the pieces are the first statement
      have ho := isOpening_of_closing? henc.closes
      have hcontent : Contentful (pieces (o :: (cs ++ d :: t))).items := by
        have hitems := (pieces_cons ⟨hp, rfl⟩
          (⟨rfl, rfl⟩ : (pieces (piece (o :: (cs ++ d :: t))).rest).Reads _ _)).1
        rw [hitems, contentful_cons]
        exact .inl (by simp)
      have hskip : skipSeparators (o :: (cs ++ d :: t)) = o :: (cs ++ d :: t) :=
        List.dropWhile_cons_of_neg (by simp [(isSeparator_of_first (.inr ho)).1])
      exact (finishes_cons hskip (statement_of_opening ho hcontent)).1 h

/-- Separators at the front make no difference for where pieces lead. -/
theorem pieces_separators (hF : IsTarget F) {separators : List Char}
    (hs : ∀ x ∈ separators, isSeparator x = true) (ht : F t) (h : F (skipBreak (pieces t).rest)) :
    F (skipBreak (pieces (separators ++ t)).rest) := by
  induction separators with
  | nil => exact h
  | cons x separators ih =>
    obtain ⟨hx, hmore⟩ := List.forall_mem_cons.1 hs
    by_cases hspace : x = ' '
    · subst hspace
      exact (pieces_space hF).2 (ih hmore)
    · have hterm := isTerminator_of_isSeparator hx
      rw [List.cons_append, (pieces_nil (piece_fails_of_head (isWordChar_of_isTerminator hterm) hspace
        (isOpening_of_end (.inr hterm)).1 _)).2]
      refine hF.skipBreak (hF.congr ?_ ht)
      rw [← List.cons_append]
      exact (List.dropWhile_append_of_pos hs).symm

/-! ### Lines -/

/-- A statement that leads to other statements up to the end makes a line. -/
theorem line_of_finishes (h : (statement s).Meets Finishes) : ∃ l, line s = .ok l := by
  obtain ⟨st, rest, hread, hrest⟩ := h
  have hskip : statements (skipSeparators rest) = statements rest :=
    statements_congr (skipSeparators_skipSeparators rest)
  have hif : atIf (skipSeparators rest) = false := by
    by_contra hno
    refine not_finishes_of_atIf (by simpa using hno) ?_
    rwa [Finishes, hskip]
  exact ⟨_, line_of_no_if hread hif ⟨rfl, rfl⟩ (by rw [hskip]; exact hrest)⟩

/-- The word `if` and this text stand here after separators. -/
def IfBefore (r : List Char) (s : List Char) : Prop := skipSeparators s = 'i' :: 'f' :: r

theorem isTarget_ifBefore (r : List Char) : IsTarget (IfBefore r) where
  congr h hs := h.symm.trans hs
  not_colon s h := by cases h

/-- A statement that leads to the word `if` and statements up to the end makes a rule. -/
theorem line_of_ifBefore (h : (statement s).Meets (IfBefore r))
    (hr : ∀ x, r.head? = some x → isWordChar x = false) (hne : (statements r).items ≠ [])
    (hfin : Finishes r) : ∃ l, line s = .ok l := by
  obtain ⟨st, rest, hread, hrest⟩ := h
  have hif : afterIf? (skipSeparators rest) = some r := by
    have hskip : skipSpaces (skipSeparators rest) = 'i' :: 'f' :: r := by
      rw [hrest]
      rfl
    have hany : r.head?.any isWordChar = false := by
      cases hx : r.head? with
      | none => rfl
      | some x => exact hr x hx
    rw [afterIf?_of_if hskip, hany]
    rfl
  exact ⟨_, line_of_if hread hif ⟨rfl, rfl⟩ hne hfin⟩

end PassageLogic.Reading
