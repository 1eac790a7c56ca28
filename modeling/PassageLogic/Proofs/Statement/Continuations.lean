import PassageLogic.Proofs.Statement.Spelling
import PassageLogic.Proofs.Statement.RoundTrip

/-! # Other text after what was read

What was taken as pieces is taken again before other text, but not always the same of it: a bareword goes
on into letters and spaces, and loses its last spaces before the word `if`. So what is kept is not the
characters that are left but the place that they lead to (`pieces_continue`). -/

namespace PassageLogic.Reading

open Text

/-- A property of what is left after a statement: separators in front do not matter for it, and no colon
has it. -/
structure IsTarget (F : List Char → Prop) : Prop where
  congr : ∀ {s t}, skipSeparators s = skipSeparators t → F s → F t
  not_colon : ∀ s, ¬ F (':' :: s)

/-- There is a term or a bareword that is not blank. -/
def Contentful (ps : List Piece) : Prop := (Statement.ofPieces ps).isEmpty = false

/-- The pieces that stand here arrive at the target, and have some content if nothing was said before. -/
structure Arrives (F : List Char → Prop) (said : Prop) (s : List Char) : Prop where
  rest : F (skipBreak (pieces s).rest)
  content : said ∨ Contentful (pieces s).items

/-- The reader takes something and leaves the target. -/
def Attempt.Meets {α : Type} (F : List Char → Prop) (a : Attempt α) : Prop :=
  ∃ x rest, a.Reads x rest ∧ F rest

namespace Attempt.Reads

variable {α β : Type} {a b : Attempt α} {x : α} {rest : List Char}

theorem of_map {f : α → β} {y : β} (h : (a.map f).Reads y rest) : ∃ x, a.Reads x rest ∧ f x = y := by
  obtain ⟨x, hx, hy⟩ := result_map_eq_some h.1
  exact ⟨x, ⟨hx, h.2⟩, hy⟩

theorem of_orElse (h : (a.orElse b).Reads x rest) : a.Reads x rest ∨ b.Reads x rest := by
  unfold Attempt.orElse at h
  split at h
  · exact .inl h
  · exact .inr h

end Attempt.Reads

theorem reads_of_term {s rest : List Char} {x : Token} (h : (term s).Reads x rest) :
    ∃ r, ((variableTerm s).orElse (constantTerm s)).Reads x r ∧ rest = skipSpaces r := by
  obtain ⟨hx, rfl⟩ := h
  unfold term at hx ⊢
  cases hr : ((variableTerm s).orElse (constantTerm s)).result with
  | none => simp [hr] at hx
  | some y =>
    simp only [hr] at hx ⊢
    exact ⟨_, ⟨hr.trans hx, rfl⟩, rfl⟩

variable {F : List Char → Prop} {said : Prop} {s t r c : List Char}

/-! ### Content -/

theorem contentful_cons {p : Piece} {ps : List Piece} :
    Contentful (p :: ps) ↔ p ≠ .word "" ∨ Contentful ps := by
  cases p with
  | term t => simp [Contentful, Statement.ofPieces, Statement.isEmpty, Piece.word?, Piece.token?]
  | word w =>
    by_cases hw : w = "" <;>
      simp [Contentful, Statement.ofPieces, Statement.isEmpty, Piece.word?, Piece.token?, hw]

theorem not_contentful_nil : ¬ Contentful [] := by
  intro h
  cases h

theorem exists_not_blank {cs : List Char} (h : trim cs ≠ []) : ∃ c ∈ cs, isBlank c = false := by
  obtain ⟨c, ds, hc⟩ := List.exists_cons_of_ne_nil h
  exact ⟨c, trim_subset cs (by simp [hc]), (isTrimmed_trim cs).1 c (by simp [hc])⟩

theorem trim_ne_nil {cs : List Char} {c : Char} (hc : c ∈ cs) (hb : isBlank c = false) :
    trim cs ≠ [] := by
  intro h
  obtain ⟨as, bs, hblank, he⟩ := exists_append_trim cs
  rw [h, List.nil_append] at he
  rw [hblank c (he ▸ hc)] at hb
  cases hb

/-- A part of a text that is not blank makes the text one. -/
theorem trim_ne_nil_of_subset {cs ds : List Char} (hcs : cs ⊆ ds) (h : trim cs ≠ []) : trim ds ≠ [] := by
  obtain ⟨c, hc, hb⟩ := exists_not_blank h
  exact trim_ne_nil (hcs hc) hb

/-! ### Barewords -/

theorem head_of_wordRun_nil (h : wordRun s = []) : ∀ x, s.head? = some x → isWordChar x = false := by
  intro x hx
  obtain ⟨r, rfl⟩ := List.head?_eq_some_iff.1 hx
  rcases wordRun_cases x r with ⟨-, hr⟩ | ⟨-, -, hr⟩ | ⟨hx, -⟩
  · rw [hr] at h
    cases h
  · rw [hr] at h
    cases h
  · exact hx

theorem atIf_if (h : ∀ x, s.head? = some x → isWordChar x = false) : atIf ('i' :: 'f' :: s) = true := by
  have hany : s.head?.any isWordChar = false := by
    cases hs : s.head? with
    | none => rfl
    | some x => exact h x hs
  unfold atIf
  rw [afterIf?_of_if rfl, hany]
  rfl

/-- The word `if` does not come to stand before a run when other text follows, unless that begins with
an `f`. -/
theorem atIf_continue {x : Char} (hx : isWordChar x = true) (hrun : wordRun (c ++ s) = c)
    (hif : atIf (x :: (c ++ s)) = false) (ht : t.head? ≠ some 'f') :
    atIf (x :: (c ++ t)) = false := by
  by_contra hno
  obtain ⟨r, he, hr⟩ := head_of_atIf (isSpace_of_isWordChar hx) (by simpa using hno)
  rcases c with _ | ⟨y, _ | ⟨z, c⟩⟩
  · cases he
    exact ht rfl
  · cases he
    -- the run ended after `if`, so that the word stood there
    have hs : wordRun s = [] := by
      rcases wordRun_cases 'f' s with ⟨-, hw⟩ | ⟨hw, -⟩ | ⟨hw, -⟩
      · exact (List.cons.inj (hw.symm.trans hrun)).2
      · cases hw
      · cases hw
    rw [List.cons_append, List.nil_append, atIf_if (head_of_wordRun_nil hs)] at hif
    cases hif
  · cases he
    rw [List.cons_append, List.cons_append, atIf_if (forall_head rfl (hr z rfl))] at hif
    cases hif

/-- A run before other text goes on into it. -/
theorem wordRun_continue (hrun : wordRun (c ++ s) = c) (ht : t.head? ≠ some 'f')
    (hat : atIf t = false) :
    wordRun (c ++ t) = c ++ wordRun t ∧ (atIf (c ++ s) = false → atIf (c ++ t) = false) := by
  induction c with
  | nil => exact ⟨rfl, fun _ => hat⟩
  | cons x c ih =>
    rw [List.cons_append] at hrun
    rcases wordRun_cases x (c ++ s) with ⟨hx, hr⟩ | ⟨rfl, hif, hr⟩ | ⟨-, hr⟩
    · have hc := (List.cons.inj (hr.symm.trans hrun)).2
      refine ⟨?_, fun hif => atIf_continue hx hc hif ht⟩
      rw [List.cons_append, wordRun, hx, Bool.true_or, if_pos rfl, (ih hc).1, List.cons_append]
    · have hc := (List.cons.inj (hr.symm.trans hrun)).2
      obtain ⟨hrun', hat'⟩ := ih hc
      refine ⟨?_, fun _ => ?_⟩
      · rw [List.cons_append, wordRun, atIf_space rfl, hat' hif, if_pos (by decide), hrun',
          List.cons_append]
      · rw [List.cons_append, atIf_space rfl]
        exact hat' hif
    · cases hr.symm.trans hrun

/-- A run before the word `if` goes on into it, or loses the spaces at its end, and is none if it only has
spaces. -/
theorem wordRun_stop (hrun : wordRun (c ++ s) = c) (ht : t.head? ≠ some 'f') (hat : atIf t = true) :
    ∃ c' spaces, c = c' ++ spaces ∧ (∀ x ∈ spaces, x = ' ') ∧
      (spaces = [] ∧ wordRun (c ++ t) = c ++ wordRun t ∨ spaces ≠ [] ∧ wordRun (c ++ t) = c') ∧
        (atIf (c ++ s) = false → (atIf (c ++ t) = true ↔ c' = [])) := by
  induction c with
  | nil => exact ⟨[], [], rfl, by simp, .inl ⟨rfl, rfl⟩, fun _ => by simp [hat]⟩
  | cons x c ih =>
    rw [List.cons_append] at hrun
    rcases wordRun_cases x (c ++ s) with ⟨hx, hr⟩ | ⟨rfl, hif, hr⟩ | ⟨-, hr⟩
    · have hc := (List.cons.inj (hr.symm.trans hrun)).2
      obtain ⟨c', spaces, hsplit, hspaces, hrun', -⟩ := ih hc
      have hgo : wordRun (x :: (c ++ t)) = x :: wordRun (c ++ t) := by
        rw [wordRun, hx, Bool.true_or, if_pos rfl]
      refine ⟨x :: c', spaces, by rw [hsplit, List.cons_append], hspaces, ?_, fun hif => ?_⟩
      · rw [List.cons_append, List.cons_append, hgo]
        exact hrun'.imp (.imp_right (congrArg _)) (.imp_right (congrArg _))
      · rw [List.cons_append, atIf_continue hx hc hif ht]
        simp
    · have hc := (List.cons.inj (hr.symm.trans hrun)).2
      obtain ⟨c', spaces, hsplit, hspaces, hrun', hiff⟩ := ih hc
      replace hiff := hiff hif
      have hstop : atIf (' ' :: (c ++ t)) = atIf (c ++ t) := atIf_space rfl _
      rcases eq_or_ne c' [] with rfl | hne
      · refine ⟨[], ' ' :: spaces, by rw [hsplit, List.nil_append, List.nil_append],
          List.forall_mem_cons.2 ⟨rfl, hspaces⟩, .inr ⟨List.cons_ne_nil _ _, ?_⟩, fun _ => ?_⟩
        · rw [List.cons_append, wordRun, hstop, hiff.2 rfl, if_neg (by decide)]
        · rw [List.cons_append, hstop, hiff]
      · have hno : atIf (c ++ t) = false := by
          rw [Bool.eq_false_iff]
          exact fun h => hne (hiff.1 h)
        have hgo : wordRun (' ' :: (c ++ t)) = ' ' :: wordRun (c ++ t) := by
          rw [wordRun, hstop, hno, if_pos (by decide)]
        refine ⟨' ' :: c', spaces, by rw [hsplit, List.cons_append], hspaces, ?_, fun _ => ?_⟩
        · rw [List.cons_append, List.cons_append, hgo]
          exact hrun'.imp (.imp_right (congrArg _)) (.imp_right (congrArg _))
        · rw [List.cons_append, hstop, hno]
          simp
    · cases hr.symm.trans hrun

/-- No letter or digit stands after a run. -/
theorem head_of_run (hrun : wordRun (c ++ s) = c) :
    ∀ x, s.head? = some x → isWordChar x = false := by
  refine head_of_wordRun_nil ?_
  have hdrop := wordRun_drop (c ++ s)
  rwa [hrun, List.drop_left] at hdrop

/-- A bareword was read from a run. -/
theorem run_of_word {w : String} (h : (word s).Reads w r) : atIf s = false ∧ wordRun s ≠ [] ∧
    w = String.ofList (trim (wordRun s)) ∧ s = wordRun s ++ r := by
  obtain ⟨hw, hr⟩ := h
  have hrest := rest_word hw
  unfold word at hw
  split_ifs at hw with hat
  · cases hw
  · split at hw
    · cases hw
    · refine ⟨by simpa using hat, ‹_›, (Option.some.inj hw).symm, ?_⟩
      rw [← hr, hrest, wordRun_prefix]

theorem word_of_run (hat : atIf s = false) (hne : wordRun s ≠ []) :
    (word s).Reads (String.ofList (trim (wordRun s))) (s.drop (wordRun s).length) := by
  unfold word
  rw [hat, if_neg (by decide)]
  split
  · exact absurd ‹_› hne
  · exact ⟨rfl, rfl⟩

/-- What is left of a run leads to the same place. -/
theorem pieces_drop_run (hat : atIf s = false) :
    (pieces (s.drop (wordRun s).length)).rest = (pieces s).rest ∧
      (Contentful (pieces s).items → trim (wordRun s) ≠ [] ∨
        Contentful (pieces (s.drop (wordRun s).length)).items) := by
  rcases eq_or_ne (wordRun s) [] with hnil | hne
  · rw [hnil]
    exact ⟨rfl, .inr⟩
  · obtain ⟨hitems, hrest⟩ := pieces_cons (piece_reads_word (word_of_run hat hne)) ⟨rfl, rfl⟩
    refine ⟨hrest.symm, fun h => ?_⟩
    rw [hitems, contentful_cons] at h
    refine h.imp_left fun hw he => hw ?_
    rw [he]

theorem piece_fails_of_atIf (h : atIf s = true) : (piece s).result = none := by
  refine piece_fails (word_fails_of_atIf h) fun c hc => ?_
  obtain ⟨r, rfl⟩ := List.head?_eq_some_iff.1 hc
  by_contra ho
  rw [atIf_opening (by simpa using ho)] at h
  cases h

/-! ### Pieces -/

theorem IsTarget.skipBreak (hF : IsTarget F) (h : F s) : F (skipBreak s) :=
  hF.congr (skipSeparators_skipBreak s).symm h

theorem skipSeparators_space (s : List Char) : skipSeparators (' ' :: s) = skipSeparators s :=
  List.dropWhile_cons_of_pos rfl

theorem skipSeparators_spaces {spaces : List Char} (h : ∀ x ∈ spaces, x = ' ') (s : List Char) :
    skipSeparators (spaces ++ s) = skipSeparators s :=
  List.dropWhile_append_of_pos fun x hx => by rw [h x hx]; rfl

theorem atIf_spaces {spaces : List Char} (h : ∀ x ∈ spaces, x = ' ') (s : List Char) :
    atIf (spaces ++ s) = atIf s := by
  induction spaces with
  | nil => rfl
  | cons x spaces ih =>
    obtain ⟨rfl, hspaces⟩ := List.forall_mem_cons.1 h
    rw [List.cons_append, atIf_space rfl, ih hspaces]

/-- Spaces at the front make no difference for where pieces lead. -/
theorem pieces_space (hF : IsTarget F) :
    F (skipBreak (pieces (' ' :: s)).rest) ↔ F (skipBreak (pieces s).rest) := by
  cases hat : atIf s with
  | true =>
    have hat' : atIf (' ' :: s) = true := (atIf_space rfl s).trans hat
    rw [(pieces_nil (piece_fails_of_atIf hat)).2, (pieces_nil (piece_fails_of_atIf hat')).2]
    constructor
    · refine hF.congr ?_
      rw [skipSeparators_skipBreak, skipSeparators_skipBreak, skipSeparators_space]
    · refine hF.congr ?_
      rw [skipSeparators_skipBreak, skipSeparators_skipBreak, skipSeparators_space]
  | false =>
    have hat' : atIf (' ' :: s) = false := (atIf_space rfl s).trans hat
    have hrun : wordRun (' ' :: s) = ' ' :: wordRun s := by
      rw [wordRun, hat', if_pos (by decide)]
    rw [← (pieces_drop_run hat).1, ← (pieces_drop_run hat').1, hrun, List.length_cons,
      List.drop_succ_cons]

namespace Arrives

/-- A bareword that goes on as far as it can. -/
theorem of_run (hne : c ≠ []) (hif : atIf (c ++ t) = false) (hrun : wordRun (c ++ t) = c ++ wordRun t)
    (hrest : F (skipBreak (pieces (t.drop (wordRun t).length)).rest))
    (hcontent : said ∨ trim (c ++ wordRun t) ≠ [] ∨
      Contentful (pieces (t.drop (wordRun t).length)).items) : Arrives F said (c ++ t) := by
  have hdrop : (c ++ t).drop (c ++ wordRun t).length = t.drop (wordRun t).length := by
    rw [List.length_append, List.drop_append, List.drop_eq_nil_of_le (by omega),
      Nat.add_sub_cancel_left, List.nil_append]
  have hword := word_of_run hif (by rw [hrun]; simp [hne])
  rw [hrun, hdrop] at hword
  obtain ⟨hitems, hleft⟩ := pieces_cons (piece_reads_word hword) ⟨rfl, rfl⟩
  refine ⟨by rw [hleft]; exact hrest, ?_⟩
  rw [hitems, contentful_cons]
  refine hcontent.imp_right (.imp_left fun hc he => hc ?_)
  exact String.ofList_eq_empty_iff.1 (Piece.word.inj he)

/-- **A bareword goes before other text**, if what the word `if` leaves when it becomes a part of the
bareword leads there as well. -/
theorem word (hF : IsTarget F) (hne : c ≠ []) (hrun : wordRun (c ++ s) = c)
    (hif : atIf (c ++ s) = false) (ht : t.head? ≠ some 'f')
    (hglue : atIf t = true → wordRun t ≠ [] → F (skipBreak (pieces (t.drop (wordRun t).length)).rest))
    (h : Arrives F (said ∨ trim c ≠ []) t) : Arrives F said (c ++ t) := by
  have hfront : trim c ≠ [] → trim (c ++ wordRun t) ≠ [] :=
    trim_ne_nil_of_subset (List.subset_append_left _ _)
  have hback : trim (wordRun t) ≠ [] → trim (c ++ wordRun t) ≠ [] :=
    trim_ne_nil_of_subset (List.subset_append_right _ _)
  cases hat : atIf t with
  | false =>
    obtain ⟨hrun', hat'⟩ := wordRun_continue hrun ht hat
    obtain ⟨hleft, hcontent⟩ := pieces_drop_run hat
    refine .of_run hne (hat' hif) hrun' (by rw [hleft]; exact h.rest) ?_
    rcases h.content with (hsaid | hc) | hitems
    · exact .inl hsaid
    · exact .inr (.inl (hfront hc))
    · exact .inr ((hcontent hitems).imp_left hback)
  | true =>
    obtain ⟨hitems, hrest⟩ := pieces_nil (piece_fails_of_atIf hat)
    have hsaid : said ∨ trim c ≠ [] := h.content.resolve_right fun hno => by
      rw [hitems] at hno
      exact not_contentful_nil hno
    obtain ⟨c', spaces, hsplit, hspaces, hrun', hiff⟩ := wordRun_stop hrun ht hat
    replace hiff := hiff hif
    rcases hrun' with ⟨rfl, hrun'⟩ | ⟨-, hrun'⟩
    · rw [List.append_nil] at hsplit
      have hat' : atIf (c ++ t) = false := by
        rw [Bool.eq_false_iff]
        exact fun hat' => hne (hsplit.trans (hiff.1 hat'))
      refine .of_run hne hat' hrun' ?_ (hsaid.imp_right fun hc => .inl (hfront hc))
      rcases eq_or_ne (wordRun t) [] with hnil | hrun
      · rw [hnil]
        exact h.rest
      · exact hglue hat hrun
    · -- the spaces at the end of the bareword are left as well
      subst hsplit
      have hat' : atIf (spaces ++ t) = true := (atIf_spaces hspaces t).trans hat
      obtain ⟨hitems', hrest'⟩ := pieces_nil (piece_fails_of_atIf hat')
      have htarget : F (skipBreak (spaces ++ t)) := by
        have hleft := h.rest
        rw [hrest] at hleft
        refine hF.congr ?_ hleft
        rw [skipSeparators_skipBreak, skipSeparators_skipBreak, skipSeparators_spaces hspaces]
      have hcontent : said ∨ trim c' ≠ [] := hsaid.imp_right fun hc => by
        obtain ⟨x, hx, hb⟩ := exists_not_blank hc
        refine trim_ne_nil ((List.mem_append.1 hx).resolve_right fun hx => ?_) hb
        rw [hspaces x hx] at hb
        cases hb
      rw [List.append_assoc] at hrun' hiff ⊢
      rcases eq_or_ne c' [] with rfl | hne'
      · exact ⟨by rw [List.nil_append, hrest']; exact htarget,
          .inl (hcontent.resolve_right fun h => h rfl)⟩
      · have hno : atIf (c' ++ (spaces ++ t)) = false := by
          rw [Bool.eq_false_iff]
          exact fun h => hne' (hiff.1 h)
        have hword := word_of_run hno (by rw [hrun']; exact hne')
        rw [hrun', List.drop_left] at hword
        obtain ⟨hitems'', hrest''⟩ := pieces_cons (piece_reads_word hword) ⟨hitems', hrest'⟩
        refine ⟨by rw [hrest'']; exact htarget, hcontent.imp_right fun hc => ?_⟩
        rw [hitems'', contentful_cons]
        exact .inl fun he => hc (String.ofList_eq_empty_iff.1 (Piece.word.inj he))

end Arrives

/-! ### Terms -/

/-- Delimiters, and text that makes a term between them. -/
structure Encloses (o : Char) (cs : List Char) (d : Char) : Prop where
  closes : closing? o = some d
  closed : d ∉ cs
  opened : o = '(' → '(' ∉ cs

theorem Encloses.term_reads {o d : Char} {cs : List Char} (h : Encloses o cs d) (s : List Char) :
    ∃ x, (term (o :: (cs ++ d :: s))).Reads x (skipSpaces s) := by
  rcases closing?_cases h.closes with ⟨rfl, rfl⟩ | ⟨rfl, rfl⟩ | ⟨rfl, rfl⟩
  · exact ⟨_, variable_closed h.closed (h.opened rfl) s⟩
  · exact ⟨_, constant_closed (.inl rfl) h.closed s⟩
  · exact ⟨_, constant_closed (.inr rfl) h.closed s⟩

/-- A term was read between delimiters, with the spaces after it. -/
theorem exists_of_term {x : Token} (h : (term s).Reads x r) :
    ∃ o cs d t, Encloses o cs d ∧ s = o :: (cs ++ d :: t) ∧ r = skipSpaces t := by
  obtain ⟨t, ht, rfl⟩ := reads_of_term h
  rcases ht.of_orElse with hv | hc
  · obtain ⟨text, hd, -⟩ := hv.of_map
    obtain ⟨cs, hclosed, hbarred, hs, -⟩ := exists_of_delimited hd.1
    rw [hd.2] at hs
    exact ⟨_, cs, _, t, ⟨rfl, hclosed, fun _ => hbarred _ (by simp)⟩, hs, rfl⟩
  · obtain ⟨text, hd, -⟩ := hc.of_map
    rcases hd.of_orElse with hd | hd
    · obtain ⟨cs, hclosed, -, hs, -⟩ := exists_of_delimited hd.1
      rw [hd.2] at hs
      exact ⟨_, cs, _, t, ⟨rfl, hclosed, fun ho => absurd ho (by decide)⟩, hs, rfl⟩
    · obtain ⟨cs, hclosed, -, hs, -⟩ := exists_of_delimited hd.1
      rw [hd.2] at hs
      exact ⟨_, cs, _, t, ⟨rfl, hclosed, fun ho => absurd ho (by decide)⟩, hs, rfl⟩

/-- A piece was read as a bareword or as a term. -/
theorem piece_cases {p : Piece} (h : (piece s).Reads p r) :
    (atIf s = false ∧ wordRun s ≠ [] ∧ s = wordRun s ++ r ∧
      p = .word (String.ofList (trim (wordRun s)))) ∨
        ∃ o cs d t x, Encloses o cs d ∧ s = o :: (cs ++ d :: t) ∧ r = skipSpaces t ∧ p = .term x := by
  rcases h.of_orElse with hw | ht
  · obtain ⟨w, hword, rfl⟩ := hw.of_map
    obtain ⟨hat, hne, rfl, hs⟩ := run_of_word hword
    exact .inl ⟨hat, hne, hs, rfl⟩
  · obtain ⟨x, hterm, rfl⟩ := ht.of_map
    obtain ⟨o, cs, d, t, henc, hs, hr⟩ := exists_of_term hterm
    exact .inr ⟨o, cs, d, t, x, henc, hs, hr, rfl⟩

/-- **A term goes before other text.** -/
theorem Arrives.term {o d : Char} {cs : List Char} (h : Encloses o cs d)
    (ht : F (skipBreak (pieces (skipSpaces t)).rest)) : Arrives F said (o :: (cs ++ d :: t)) := by
  obtain ⟨x, hx⟩ := h.term_reads t
  have hw : (Reading.word (o :: (cs ++ d :: t))).result = none :=
    word_fails_of_wordRun (wordRun_opening (isOpening_of_closing? h.closes) _)
  obtain ⟨hitems, hrest⟩ := pieces_cons (piece_reads_term hw hx) ⟨rfl, rfl⟩
  refine ⟨by rw [hrest]; exact ht, .inr ?_⟩
  rw [hitems, contentful_cons]
  exact .inl (by simp)

/-! ### Pieces -/

/-- Pieces can go before `t` that went before `s`. -/
structure Replaces (F : List Char → Prop) (s t : List Char) : Prop where
  word : ∀ {c said}, c ≠ [] → wordRun (c ++ s) = c → atIf (c ++ s) = false →
    Arrives F (said ∨ trim c ≠ []) t → Arrives F said (c ++ t)
  term : (∀ x, s.head? = some x → isSpace x = false) → ∀ x, t.head? = some x → isSpace x = false

/-- Text that begins with the same character may stand there. -/
theorem Replaces.of_head (hF : IsTarget F) (h : t.head? = s.head?) : Replaces F s t where
  word hne hrun hif ha := by
    have ht : ∀ x, t.head? = some x → isWordChar x = false := fun x hx => head_of_run hrun x (h ▸ hx)
    refine ha.word hF hne hrun hif (fun hf => absurd (ht 'f' hf) (by decide)) fun hat hword => ?_
    exact absurd (wordRun_nil_of_head fun x hx => ⟨ht x hx, fun _ => hat⟩) hword
  term hs x hx := hs x (h ▸ hx)

/-- The end may stand there, and text that does not begin with a space or as the word `if` does. -/
theorem Replaces.of_start (hF : IsTarget F)
    (h : ∀ x, t.head? = some x → isSpace x = false ∧ x ≠ 'i' ∧ x ≠ 'f') : Replaces F s t where
  word hne hrun hif ha := by
    refine ha.word hF hne hrun hif (fun hf => (h 'f' hf).2.2 rfl) fun hat => ?_
    rw [atIf_of_head fun x hx => ⟨(h x hx).1, (h x hx).2.1⟩] at hat
    cases hat
  term _ x hx := (h x hx).1

/-- What was taken as a piece is taken before other text. -/
theorem piece_continues {p : Piece} (h : (piece s).Reads p r) : ∃ c, c ≠ [] ∧ s = c ++ r ∧
    ∀ {F said t}, Replaces F r t → Arrives F (said ∨ p ≠ .word "") t → Arrives F said (c ++ t) := by
  rcases piece_cases h with ⟨hat, hne, hs, rfl⟩ | ⟨o, cs, d, t₀, -, henc, rfl, rfl, -⟩
  · refine ⟨wordRun s, hne, hs, fun hr ha => ?_⟩
    have hsame : wordRun s ++ r = s := hs.symm
    refine hr.word hne (by rw [hsame]) (by rw [hsame]; exact hat) ⟨ha.rest, ha.content.imp_left ?_⟩
    refine .imp_right fun hp htrim => hp ?_
    rw [htrim]
  · have hblank := List.takeWhile_append_dropWhile (p := isSpace) (l := t₀)
    refine ⟨o :: (cs ++ d :: t₀.takeWhile isSpace), List.cons_ne_nil _ _, ?_, fun {F said t} hr ha => ?_⟩
    · conv_lhs => rw [← hblank]
      simp [skipSpaces]
    · have htext : o :: (cs ++ d :: t₀.takeWhile isSpace) ++ t =
          o :: (cs ++ d :: (t₀.takeWhile isSpace ++ t)) := by simp
      have hskip : skipSpaces (t₀.takeWhile isSpace ++ t) = t := by
        rw [skipSpaces, List.dropWhile_append_of_pos fun x hx => List.mem_takeWhile_imp hx]
        exact skipSpaces_eq_of_head (hr.term fun x hx => isSpace_of_head_skipSpaces hx)
      rw [htext]
      refine .term henc ?_
      rw [hskip]
      exact ha.rest

/-- There is no piece after the pieces. -/
theorem piece_fails_rest (s : List Char) : (piece (pieces s).rest).result = none := by
  fun_induction pieces s with
  | case1 s p h more ih => exact ih
  | case2 s h => exact h

/-- **What was taken as pieces is taken before other text**, and leads where that does. -/
theorem pieces_continue (s : List Char) : ∃ c, s = c ++ (pieces s).rest ∧
    ∀ {F said t}, IsTarget F → Replaces F (pieces s).rest t →
      Arrives F (said ∨ Contentful (pieces s).items) t → Arrives F said (c ++ t) := by
  fun_induction pieces s with
  | case1 s p h more ih =>
    obtain ⟨c, -, hs, hpiece⟩ := piece_continues (p := p) ⟨h, rfl⟩
    obtain ⟨c', hr, hmore⟩ := ih
    refine ⟨c ++ c', by rw [List.append_assoc]; exact hr ▸ hs, fun {F said t} hF ht ha => ?_⟩
    have hfirst : Replaces F (piece s).rest (c' ++ t) := by
      rcases eq_or_ne c' [] with rfl | hne
      · rw [hr]
        exact ht
      · rw [hr]
        exact .of_head hF (by rw [List.head?_append_of_ne_nil _ hne, List.head?_append_of_ne_nil _ hne])
    rw [List.append_assoc]
    refine hpiece hfirst (hmore hF ht ⟨ha.rest, ?_⟩)
    rw [contentful_cons] at ha
    simpa only [or_assoc] using ha.content
  | case2 s h =>
    refine ⟨[], rfl, fun _ _ ha => ⟨ha.rest, ha.content.imp_left ?_⟩⟩
    exact fun hsaid => hsaid.resolve_right not_contentful_nil

end PassageLogic.Reading
