import PassageLogic.Proofs.Statement.Following

/-! # What was expected can be put in

Wherever a reader missed something, there is text that begins as expected and makes statements of what was
read before (`statements_mendable`). It has nothing open at its end, and what was read before goes on into
it (`Follows`). This holds at each place that the reader tried, and not only at the farthest one. -/

namespace PassageLogic

/-- The text begins with what was expected, or is empty if the end was. -/
def Expectation.MetBy : Expectation → List Char → Prop
  | .literal text, w => text.toList <+: w
  | .charClass name, w => name = Reading.wordClass ∧
      ∃ c, w.head? = some c ∧ (Reading.isWordChar c = true ∨ c = ' ')
  | .ending, w => w = []

namespace Reading

open Text

/-! ### Text that is put in -/

/-- A piece to put in where none was read before. -/
inductive FirstPiece (e : Expectation) : List Char → Prop where
  | letter : e = .charClass wordClass → FirstPiece e ['a']
  | term {o d : Char} : closing? o = some d → FirstPiece e [o, d]

/-- A statement to put in where none was read before, or nothing where the end was expected. -/
inductive Starter (e : Expectation) : List Char → Prop where
  | piece {w : List Char} : FirstPiece e w → Starter e w
  | denied : Starter e ['!', 'a']
  | ending : e = .ending → Starter e []

/-- The text `w` in the place of the miss makes good what was read before it, which is `u`. -/
structure Mends (Start : Expectation → List Char → Prop) (Good : List Char → Prop) (s : List Char)
    (m : Miss) (u w : List Char) : Prop where
  text : s = u ++ m.rest
  met : m.expected.MetBy w
  start : (∀ x ∈ u, isSeparator x = true) → Start m.expected w
  good : Good (u ++ w)

/-- There is text that makes good what was read before the miss. -/
def Mendable (Start : Expectation → List Char → Prop) (Good : List Char → Prop) (s : List Char)
    (m : Miss) : Prop :=
  ∃ u w, Mends Start Good s m u w

variable {F : List Char → Prop} {said : Prop} {s t r u w : List Char} {m : Miss} {e : Expectation}

theorem Mends.prepend {Start Start' : Expectation → List Char → Prop} {Good Good' : List Char → Prop}
    {c : List Char} (h : Mends Start Good r m u w) (hs : s = c ++ r)
    (hstart : Start m.expected w → Start' m.expected w) (hgood : Good' (c ++ (u ++ w))) :
    Mends Start' Good' s m (c ++ u) w where
  text := by rw [hs, h.text, List.append_assoc]
  met := h.met
  start hu := hstart (h.start fun x hx => hu x (List.mem_append_right _ hx))
  good := by rwa [List.append_assoc]

theorem pieces_end : (pieces []).Reads [] [] :=
  pieces_nil (piece_fails (word_fails_of_wordRun rfl) fun _ hc => by cases hc)

theorem FirstPiece.arrives (hF : IsTarget F) (hend : F []) (h : FirstPiece e w) : Arrives F said w := by
  have hnil : F (skipBreak (pieces []).rest) := by
    rw [pieces_end.2]
    exact hend
  cases h with
  | letter =>
    exact .word hF (c := ['a']) (s := []) (t := []) (by simp) rfl rfl (by simp)
      (fun hat => by cases hat) ⟨hnil, .inl (.inr (by decide))⟩
  | @term o d ho => exact .term ⟨ho, List.not_mem_nil, fun _ => List.not_mem_nil⟩ hnil

theorem FirstPiece.head (h : FirstPiece e w) :
    ∀ c, w.head? = some c → isSeparator c = false ∧ c ≠ 'i' ∧ c ≠ 'f' := by
  cases h with
  | letter => exact forall_head rfl ⟨rfl, by decide, by decide⟩
  | @term o d ho =>
    refine forall_head rfl ?_
    rcases closing?_cases ho with ⟨rfl, -⟩ | ⟨rfl, -⟩ | ⟨rfl, -⟩ <;> exact ⟨rfl, by decide, by decide⟩

theorem Starter.head (h : Starter e w) :
    ∀ c, w.head? = some c → isSeparator c = false ∧ c ≠ 'i' ∧ c ≠ 'f' := by
  cases h with
  | piece h => exact h.head
  | denied => exact forall_head rfl ⟨rfl, by decide, by decide⟩
  | ending => exact fun c hc => by cases hc

theorem isSpace_of_isSeparator {c : Char} (h : isSeparator c = false) : isSpace c = false := by
  by_contra hno
  rw [isSeparator_of_isSpace (by simpa using hno)] at h
  cases h

/-- Text may be put in place of other text after what was read. -/
theorem replaces_append (hF : IsTarget F) (h : u = [] → ∀ c, w.head? = some c →
    isSeparator c = false ∧ c ≠ 'i' ∧ c ≠ 'f') : Replaces F (u ++ r) (u ++ w) := by
  rcases eq_or_ne u [] with rfl | hne
  · exact .of_start hF fun c hc => (h rfl c hc).imp_left isSpace_of_isSeparator
  · refine .of_head hF ?_
    rw [List.head?_append_of_ne_nil _ hne, List.head?_append_of_ne_nil _ hne]

/-! ### Pieces -/

theorem mem_misses_orElse {α : Type} {a b : Attempt α} (h : m ∈ (a.orElse b).misses) :
    m ∈ a.misses ∨ m ∈ b.misses := by
  unfold Attempt.orElse at h
  split at h
  · exact .inl h
  · exact List.mem_append.1 h

theorem word_misses (h : m ∈ (word s).misses) : m = ⟨s, .charClass wordClass⟩ := by
  unfold word at h
  split at h
  · cases h
  · split at h
    · exact List.mem_singleton.1 h
    · cases h

/-- Delimited text was expected to begin here, or to end after what stands here. -/
theorem delimited_misses {o d : Char} {b : List Char} (h : m ∈ (delimited o d b s).misses) :
    m = ⟨s, .literal (String.singleton o)⟩ ∨ ∃ cs r, s = o :: (cs ++ r) ∧
      (∀ c ∈ cs, c ≠ d ∧ c ∉ b) ∧ m = ⟨r, .literal (String.singleton d)⟩ := by
  unfold delimited at h
  split at h
  · exact .inl (List.mem_singleton.1 h)
  · rename_i c r
    split at h
    · subst c
      simp only [] at h
      have hsplit := List.takeWhile_append_dropWhile (p := fun c => !(c == d || b.contains c)) (l := r)
      have hin : ∀ c ∈ r.takeWhile fun c => !(c == d || b.contains c), c ≠ d ∧ c ∉ b := by
        intro c hc
        simpa using List.mem_takeWhile_imp hc
      refine .inr ⟨_, _, congrArg _ hsplit.symm, hin, ?_⟩
      split at h
      · rename_i e rest hrest
        split at h
        · cases h
        · rw [hrest]
          exact List.mem_singleton.1 h
      · rename_i hrest
        rw [hrest]
        exact List.mem_singleton.1 h
    · exact .inl (List.mem_singleton.1 h)

/-- A term was expected to begin here, or to end after what stands here. -/
theorem term_misses (h : m ∈ (term s).misses) : ∃ o d, closing? o = some d ∧
    (m = ⟨s, .literal (String.singleton o)⟩ ∨ ∃ cs r, s = o :: (cs ++ r) ∧ Encloses o cs d ∧
      m = ⟨r, .literal (String.singleton d)⟩) := by
  have h' : m ∈ ((variableTerm s).orElse (constantTerm s)).misses := by
    unfold term at h
    simp only [] at h
    split at h
    · exact h
    · exact h
  have hquoted : ∀ q, closing? q = some q → q ≠ '(' → m ∈ (delimited q q [] s).misses →
      ∃ o d, closing? o = some d ∧ (m = ⟨s, .literal (String.singleton o)⟩ ∨ ∃ cs r,
        s = o :: (cs ++ r) ∧ Encloses o cs d ∧ m = ⟨r, .literal (String.singleton d)⟩) := by
    intro q hq hne hm
    refine ⟨q, q, hq, (delimited_misses hm).imp_right ?_⟩
    rintro ⟨cs, r, hs, hin, he⟩
    exact ⟨cs, r, hs, ⟨hq, fun hc => (hin q hc).1 rfl, fun ho => absurd ho hne⟩, he⟩
  rcases mem_misses_orElse h' with hv | hc
  · refine ⟨'(', ')', rfl, (delimited_misses hv).imp_right ?_⟩
    rintro ⟨cs, r, hs, hin, he⟩
    exact ⟨cs, r, hs, ⟨rfl, fun hc => (hin _ hc).1 rfl, fun _ hc => (hin _ hc).2 (by simp)⟩, he⟩
  · have hc' : m ∈ ((delimited '"' '"' [] s).orElse (delimited '\'' '\'' [] s)).misses := hc
    rcases mem_misses_orElse hc' with hd | hd
    · exact hquoted '"' rfl (by decide) hd
    · exact hquoted '\'' rfl (by decide) hd

theorem Mendable.imp {Start Start' : Expectation → List Char → Prop} {Good Good' : List Char → Prop}
    (h : Mendable Start Good s m) (hstart : ∀ w, Start m.expected w → Start' m.expected w)
    (hgood : ∀ t, Good t → Good' t) : Mendable Start' Good' s m := by
  obtain ⟨u, w, hmend⟩ := h
  exact ⟨u, w, hmend.text, hmend.met, fun hu => hstart w (hmend.start hu), hgood _ hmend.good⟩

theorem finishes_nil : Finishes [] := finishes_closing fun _ hc => absurd hc List.not_mem_nil

theorem word_mendable (h : m ∈ (word s).misses) :
    Mendable FirstPiece (Arrives Finishes False) s m := by
  obtain rfl := word_misses h
  have hfirst : FirstPiece (.charClass wordClass) ['a'] := .letter rfl
  exact ⟨[], ['a'], rfl, ⟨rfl, 'a', rfl, .inl rfl⟩, fun _ => hfirst,
    hfirst.arrives isTarget_finishes finishes_nil⟩

/-- A piece can be put in where one was expected. -/
theorem piece_mendable (h : m ∈ (piece s).misses) :
    Mendable FirstPiece (Arrives Finishes False) s m := by
  rcases mem_misses_orElse h with hw | ht
  · exact word_mendable hw
  · obtain ⟨o, d, ho, rfl | ⟨cs, r, rfl, henc, rfl⟩⟩ := term_misses ht
    · have hfirst : FirstPiece (.literal (String.singleton o)) [o, d] := .term ho
      exact ⟨[], [o, d], rfl, by simp [Expectation.MetBy], fun _ => hfirst,
        hfirst.arrives isTarget_finishes finishes_nil⟩
    · refine ⟨o :: cs, [d], rfl, by simp [Expectation.MetBy], fun hsep => ?_, ?_⟩
      · have ho := hsep o List.mem_cons_self
        rw [(isSeparator_of_first (.inr (isOpening_of_closing? henc.closes))).1] at ho
        cases ho
      · refine .term henc ?_
        show Finishes (skipBreak (pieces []).rest)
        rw [pieces_end.2]
        exact finishes_nil

/-- **Every piece that was expected can be put in** after the pieces before it. -/
theorem pieces_mendable (s : List Char) :
    ∀ m ∈ (pieces s).misses, Mendable FirstPiece (Arrives Finishes False) s m := by
  fun_induction pieces s with
  | case1 s p h more ih =>
    intro m hm
    rcases List.mem_append.1 hm with hm | hm
    · exact piece_mendable hm
    · obtain ⟨c, hne, hs, hcont⟩ := piece_continues (p := p) ⟨h, rfl⟩
      obtain ⟨u, w, hmend⟩ := ih m hm
      have hreplaces : Replaces Finishes (piece s).rest (u ++ w) := by
        rw [hmend.text]
        exact replaces_append isTarget_finishes fun hu => (hmend.start (by simp [hu])).head
      exact ⟨c ++ u, w, hmend.prepend hs id
        (hcont hreplaces ⟨hmend.good.rest, hmend.good.content.imp_left False.elim⟩)⟩
  | case2 s h => exact fun m hm => piece_mendable hm

/-! ### Statements -/

theorem simple_misses (s : List Char) : (simple s).misses = (pieces s).misses := by
  unfold simple
  simp only []
  split <;> rfl

theorem commanded_mendable (h : m ∈ (commanded s).misses) :
    Mendable FirstPiece (fun t => (unmarked t).Meets Finishes) s m := by
  unfold commanded at h
  simp only [] at h
  split at h
  · exact (word_mendable h).imp (fun _ => id) fun _ ha => ha.unmarked isTarget_finishes
  · rename_i command hw
    obtain ⟨-, -, hcommand, hs⟩ := run_of_word ⟨hw, rfl⟩
    split at h
    · cases h
    · rename_i hne
      split at h
      · rename_i r hr
        have hm : m ∈ (pieces r).misses := by
          rw [← simple_misses]
          split at h
          · exact h
          · exact h
        obtain ⟨u, w, hmend⟩ := pieces_mendable r m hm
        refine ⟨wordRun s ++ ':' :: u, w, ?_, hmend.met, fun hsep => ?_, ?_⟩
        · rw [List.append_assoc, List.cons_append, ← hmend.text, ← hr]
          exact hs
        · cases hsep ':' (by simp)
        · rw [List.append_assoc, List.cons_append]
          exact (commanded_meets (word_before_colon ⟨hw, rfl⟩ _) hne hmend.good.simple).orElse
      · obtain rfl := List.mem_singleton.1 h
        refine ⟨wordRun s, [':', 'a'], hs, by simp [Expectation.MetBy], fun hsep => ?_, ?_⟩
        · have htrim : trim (wordRun s) ≠ [] := by
            intro he
            rw [he] at hcommand
            exact hne hcommand
          obtain ⟨c, hc, hb⟩ := exists_not_blank htrim
          have hword : isWordChar c = true := by
            refine (plain_of_mem_wordRun c hc).resolve_right ?_
            rintro rfl
            cases hb
          have hno := (isSeparator_of_first (.inl hword)).1
          rw [hsep c hc] at hno
          cases hno
        · have hfirst : FirstPiece (.charClass wordClass) ['a'] := .letter rfl
          exact (commanded_meets (word_before_colon ⟨hw, rfl⟩ ['a']) hne
            (hfirst.arrives isTarget_finishes finishes_nil).simple).orElse

theorem unmarked_mendable (h : m ∈ (unmarked s).misses) :
    Mendable FirstPiece (fun t => (unmarked t).Meets Finishes) s m := by
  rcases mem_misses_orElse h with hc | hs
  · exact commanded_mendable hc
  · rw [simple_misses] at hs
    exact (pieces_mendable s m hs).imp (fun _ => id) fun _ ha => ha.unmarked isTarget_finishes

/-- **Everything that was expected of a statement can be put in**, so that it is one. -/
theorem statement_mendable (h : m ∈ (statement s).misses) :
    Mendable Starter (fun t => (statement t).Meets Finishes) s m := by
  obtain ⟨lead, u₀, hled⟩ := exists_led s
  rcases hled.misses m h with rfl | hm
  · have hspace : ∀ x ∈ s.takeWhile isSpace, isSpace x = true := fun _ hx =>
      List.mem_takeWhile_imp hx
    have hfirst : FirstPiece (.charClass wordClass) ['a'] := .letter rfl
    refine ⟨s.takeWhile isSpace, ['!', 'a'], List.takeWhile_append_dropWhile.symm,
      by simp [Expectation.MetBy], fun _ => .denied, ?_⟩
    have hmeets := statement_meets (u := ['a']) (.inr ⟨_, [], rfl, hspace, by simp⟩)
      (forall_head rfl rfl) ((hfirst.arrives isTarget_finishes finishes_nil).unmarked isTarget_finishes)
    rwa [List.append_assoc] at hmeets
  · obtain ⟨u, w, hmend⟩ := unmarked_mendable hm
    have hfirst : ∀ x, (u ++ w).head? = some x → isSpace x = false := fun x hx => by
      rcases eq_or_ne u [] with rfl | hne
      · exact isSpace_of_isSeparator ((hmend.start (by simp)).head x hx).1
      · refine hled.first x ?_
        rw [hmend.text]
        rwa [List.head?_append_of_ne_nil _ hne] at hx ⊢
    exact ⟨lead ++ u, w, hmend.prepend hled.text .piece (statement_meets hled.lead hfirst hmend.good)⟩

/-! ### Statements in a row -/

/-- Only separators stand before what separators lead to. -/
theorem separators_of_append (h : s = u ++ skipSeparators s) : ∀ x ∈ u, isSeparator x = true := by
  have hu : u = s.takeWhile isSeparator := by
    refine List.append_cancel_right (h.symm.trans ?_)
    exact List.takeWhile_append_dropWhile.symm
  rw [hu]
  exact fun x hx => List.mem_takeWhile_imp hx

/-- There are statements up to the end, up to terminators. -/
def ReadAll (s : List Char) : Prop := (statements s).items ≠ [] ∧ Finishes s

theorem readAll_of_statement (hs : skipSeparators s = t) (h : (statement t).Meets Finishes) :
    ReadAll s := by
  obtain ⟨st, rest, hread, hrest⟩ := h
  refine ⟨?_, (finishes_cons hs hread).2 hrest⟩
  subst hs
  rw [(statements_cons hread ⟨rfl, rfl⟩).1]
  exact List.cons_ne_nil _ _

/-- Text that finishes may follow a statement in place of other text after what was read, unless more than
separators was read before the word `if`. -/
theorem follows_of_finishes (hs : s = u ++ r)
    (hstart : (∀ x ∈ u, isSeparator x = true) → Starter e w)
    (hif : atIf s = true → r = skipSeparators s) (h : Finishes (u ++ w)) :
    Follows Finishes s (u ++ w) where
  target := h
  replaces _ := by
    rw [hs]
    exact replaces_append isTarget_finishes fun hu => (hstart (by simp [hu])).head
  arrives hp := by
    by_cases hu : ∀ x ∈ u, isSeparator x = true
    · have hw : Finishes w := finishes_congr (List.dropWhile_append_of_pos hu) h
      refine pieces_separators isTarget_finishes hu hw ?_
      cases hstart hu with
      | piece hfirst =>
        have harrives : Arrives Finishes False w := hfirst.arrives isTarget_finishes finishes_nil
        exact harrives.rest
      | denied => exact finishes_pieces hw (forall_head rfl ⟨rfl, by decide⟩)
      | ending =>
        rw [pieces_end.2]
        exact hw
    · -- the text begins as the one that it replaces, which no piece does
      have hne : u ≠ [] := by
        rintro rfl
        simp at hu
      have hat : atIf s = false := by
        by_contra hat
        rw [hif (by simpa using hat)] at hs
        exact hu (separators_of_append hs)
      refine finishes_pieces h fun x hx => head_of_piece_fails hp hat x ?_
      rw [hs]
      rwa [List.head?_append_of_ne_nil _ hne] at hx ⊢

theorem statements_misses_nil (h : (statement (skipSeparators s)).result = none) :
    (statements s).misses = (statement (skipSeparators s)).misses := by
  rw [statements]
  split
  · rename_i h'
    rw [h] at h'
    cases h'
  · rfl

/-- Before the word `if` no reader goes on to expect something else. -/
theorem unmarked_misses_of_if (hr : ∀ x, r.head? = some x → isWordChar x = false)
    (h : m ∈ (unmarked ('i' :: 'f' :: r)).misses) : m.rest = 'i' :: 'f' :: r := by
  have hword : word ('i' :: 'f' :: r) = .fail ('i' :: 'f' :: r) [] := if_pos (atIf_if hr)
  have hfails : (piece ('i' :: 'f' :: r)).result = none := piece_fails_of_atIf (atIf_if hr)
  have hm : m ∈ (piece ('i' :: 'f' :: r)).misses := by
    rcases mem_misses_orElse h with hc | hs
    · simp only [commanded, hword, Attempt.fail, List.not_mem_nil] at hc
    · rw [simple_misses, pieces] at hs
      split at hs
      · rename_i h'
        rw [hfails] at h'
        cases h'
      · exact hs
  rcases mem_misses_orElse hm with hw | ht
  · rw [word_misses hw]
  · obtain ⟨o, d, ho, rfl | ⟨cs, r, hs, -⟩⟩ := term_misses ht
    · rfl
    · obtain ⟨rfl, -⟩ := List.cons.inj hs
      cases ho

theorem misses_of_atIf (hat : atIf s = true) (h : m ∈ (statements s).misses) :
    m.rest = skipSeparators s := by
  obtain ⟨r, -, hskip, hr⟩ := exists_of_atIf hat
  rw [statements_misses_nil (by rw [hskip]; exact statement_fails_of_if hr), hskip] at h
  have hspaces : skipSpaces ('i' :: 'f' :: r) = 'i' :: 'f' :: r := rfl
  rcases statement_misses_unmarked (by rw [hspaces]; simp) h with rfl | hm
  · exact hspaces.trans hskip.symm
  · rw [hspaces] at hm
    exact (unmarked_misses_of_if hr hm).trans hskip.symm

/-- What makes a statement after the separators makes statements in a row. -/
theorem Mends.readAll
    (h : Mends Starter (fun t => (statement t).Meets Finishes) (skipSeparators s) m u w) :
    Mends Starter ReadAll s m (s.takeWhile isSeparator ++ u) w := by
  refine h.prepend List.takeWhile_append_dropWhile.symm id (readAll_of_statement ?_ h.good)
  rw [skipSeparators, List.dropWhile_append_of_pos fun x hx => List.mem_takeWhile_imp hx]
  refine dropWhile_of_head fun x hx => ?_
  rcases eq_or_ne u [] with rfl | hne
  · exact ((h.start (by simp)).head x hx).1
  · rw [List.head?_append_of_ne_nil _ hne] at hx
    refine of_head_dropWhile (s := s) ?_
    rw [← skipSeparators, h.text, List.head?_append_of_ne_nil _ hne, hx]

/-- What was expected after a statement can be put in after it. -/
theorem Mends.follows (h : Mends Starter ReadAll s m u w) (hm : m ∈ (statements s).misses) :
    Follows Finishes s (u ++ w) :=
  follows_of_finishes h.text h.start (fun hat => misses_of_atIf hat hm) h.good.2

/-- **Everything that was expected in a row of statements can be put in**, so that nothing is left. -/
theorem statements_mendable (s : List Char) :
    ∀ m ∈ (statements s).misses, Mendable Starter ReadAll s m := by
  fun_induction statements s with
  | case1 s st h more ih =>
    intro m hm
    rcases List.mem_append.1 hm with hm | hm
    · obtain ⟨u, w, hmend⟩ := statement_mendable hm
      exact ⟨_, w, hmend.readAll⟩
    · obtain ⟨c, hs, hcont⟩ := statement_continues ⟨h, rfl⟩
      obtain ⟨u, w, hmend⟩ := ih m hm
      have hfirst : Mends Starter (fun t => (statement t).Meets Finishes) (skipSeparators s) m (c ++ u) w :=
        hmend.prepend hs id (hcont isTarget_finishes (hmend.follows hm))
      exact ⟨_, w, hfirst.readAll⟩
  | case2 s h =>
    intro m hm
    obtain ⟨u, w, hmend⟩ := statement_mendable hm
    exact ⟨_, w, hmend.readAll⟩

theorem rest_of_atIf (hat : atIf s = true) :
    (statements s).rest.dropWhile isTerminator = skipSeparators s := by
  obtain ⟨r, -, hskip, hr⟩ := exists_of_atIf hat
  rw [(statements_nil (by rw [hskip]; exact statement_fails_of_if hr)).2, hskip]
  rfl

/-- Nothing has to stand after what was read up to a character that is no terminator. -/
theorem follows_cut (hs : s = u ++ (statements s).rest.dropWhile isTerminator) (h : Finishes u) :
    Follows Finishes s u := by
  have hfollows := follows_of_finishes (e := .ending) (w := []) hs (fun _ => .ending rfl) rest_of_atIf
    (by rwa [List.append_nil])
  rwa [List.append_nil] at hfollows

/-- **What was read up to a character that is no terminator can be all**, with as many statements. -/
theorem statements_cut (s : List Char) : ∃ u, s = u ++ (statements s).rest.dropWhile isTerminator ∧
    Finishes u ∧ ((statements s).items ≠ [] → (statements u).items ≠ []) := by
  fun_induction statements s with
  | case1 s st h more ih =>
    obtain ⟨c, hs, hcont⟩ := statement_continues ⟨h, rfl⟩
    obtain ⟨u, hr, hfin, -⟩ := ih
    have hmend : Mends Starter (fun t => (statement t).Meets Finishes) (skipSeparators s)
        ⟨more.rest.dropWhile isTerminator, .ending⟩ (c ++ u) [] := by
      refine ⟨?_, rfl, fun _ => .ending rfl, ?_⟩
      · rw [List.append_assoc, ← hr]
        exact hs
      · rw [List.append_nil]
        exact hcont isTarget_finishes (follows_cut hr hfin)
    obtain ⟨hne, hfin'⟩ := hmend.readAll.good
    rw [List.append_nil] at hne hfin'
    exact ⟨_, hmend.readAll.text, hfin', fun _ => hne⟩
  | case2 s h =>
    refine ⟨s.takeWhile isSeparator ++ (skipSeparators s).takeWhile isTerminator, ?_, ?_, ?_⟩
    · rw [List.append_assoc, List.takeWhile_append_dropWhile]
      exact List.takeWhile_append_dropWhile.symm
    · refine finishes_closing fun x hx => ?_
      rcases List.mem_append.1 hx with hx | hx
      · exact isTerminator_of_isSeparator (List.mem_takeWhile_imp hx)
      · exact List.mem_takeWhile_imp hx
    · exact fun hne => absurd rfl hne

end Reading
end PassageLogic
