import PassageLogic.Proofs.Statement.Expectations

/-! # What was expected makes a line

Each expectation that was not met on the way to a failure is viable: what was read before goes on to a line
with it (`line_error`). In the head and in further statements the line becomes a claim or a conjunction, in
the body of a rule it becomes a rule. -/

namespace PassageLogic.Reading

open Text

variable {F : List Char → Prop} {s t r u w : List Char} {m : Miss} {e : Expectation}

/-! ### Lines -/

/-- What was read before the miss goes on to a line with text that begins as expected. -/
def Viable (s : List Char) (m : Miss) : Prop :=
  ∃ u w, s = u ++ m.rest ∧ m.expected.MetBy w ∧ ∃ l, line (u ++ w) = .ok l

theorem viable_first (h : m ∈ (statement s).misses) : Viable s m := by
  obtain ⟨u, w, hmend⟩ := statement_mendable h
  exact ⟨u, w, hmend.text, hmend.met, line_of_finishes hmend.good⟩

theorem readAll_congr (h : skipSeparators s = skipSeparators t) (hs : ReadAll s) : ReadAll t := by
  rwa [ReadAll, Finishes, ← statements_congr h]

theorem FirstPiece.readAll (h : FirstPiece e w) : ReadAll w := by
  have hmeets : (statement ([] ++ w)).Meets Finishes :=
    statement_meets (.inl (by simp)) (fun x hx => isSpace_of_isSeparator (h.head x hx).1)
      ((h.arrives isTarget_finishes finishes_nil).unmarked isTarget_finishes)
  exact readAll_of_statement (dropWhile_of_head fun x hx => (h.head x hx).1) hmeets

/-- What was expected in the body of a rule can be put in so that the word `if` still ends before it. -/
theorem Mends.after_if (h : Mends Starter ReadAll s m u w)
    (hs : ∀ x, s.head? = some x → isWordChar x = false) :
    ∃ w', m.expected.MetBy w' ∧ ReadAll (u ++ w') ∧
      ∀ x, (u ++ w').head? = some x → isWordChar x = false := by
  rcases eq_or_ne u [] with rfl | hne
  · have hgood := h.good
    have hmet := h.met
    cases h.start (by simp) with
    | piece hfirst =>
      cases hfirst with
      | letter he =>
        refine ⟨[' ', 'a'], ?_, readAll_congr (s := ['a']) rfl hgood, forall_head rfl rfl⟩
        rw [he]
        exact ⟨rfl, ' ', rfl, .inr rfl⟩
      | term ho =>
        exact ⟨_, hmet, hgood, forall_head rfl (isWordChar_of_isOpening (isOpening_of_closing? ho))⟩
    | denied => exact ⟨_, hmet, hgood, forall_head rfl rfl⟩
    | ending => exact ⟨_, hmet, hgood, fun x hx => by cases hx⟩
  · refine ⟨w, h.met, h.good, fun x hx => hs x ?_⟩
    rw [h.text]
    rwa [List.head?_append_of_ne_nil _ hne] at hx ⊢

/-- Other text may follow the separators after a statement. -/
theorem follows_separators (hF : IsTarget F) (ht : F t) (hp : F (skipBreak (pieces t).rest))
    (hr : r.takeWhile isSeparator = [] → Replaces F r t) :
    Follows F r (r.takeWhile isSeparator ++ t) where
  target := by
    refine hF.congr ?_ ht
    exact (List.dropWhile_append_of_pos fun x hx => List.mem_takeWhile_imp hx).symm
  arrives _ := pieces_separators hF (fun _ hx => List.mem_takeWhile_imp hx) ht hp
  replaces _ := by
    have hsplit := List.takeWhile_append_dropWhile (p := isSeparator) (l := r)
    cases hs : r.takeWhile isSeparator with
    | nil => exact hr hs
    | cons x xs =>
      refine .of_head hF ?_
      rw [← hsplit, hs]
      rfl

/-- The word `if` and this text stand here after separators, or there is nothing after them. -/
def IfOrEnd (r s : List Char) : Prop := IfBefore r s ∨ skipSeparators s = []

theorem isTarget_ifOrEnd (r : List Char) : IsTarget (IfOrEnd r) where
  congr h := .imp ((isTarget_ifBefore r).congr h) h.symm.trans
  not_colon s h := by
    rcases h with h | h
    · exact (isTarget_ifBefore r).not_colon s h
    · cases h

section Continued

variable {st : Statement} (hread : (statement s).Reads st r)
include hread

theorem viable_more (hm : m ∈ (statements r).misses) : Viable s m := by
  obtain ⟨c, hs, hcont⟩ := statement_continues hread
  obtain ⟨u, w, hmend⟩ := statements_mendable r m hm
  refine ⟨c ++ u, w, ?_, hmend.met, ?_⟩
  · rw [List.append_assoc, ← hmend.text]
    exact hs
  · rw [List.append_assoc]
    exact line_of_finishes (hcont isTarget_finishes (hmend.follows hm))

theorem viable_end : Viable s ⟨(statements r).rest.dropWhile isTerminator, .ending⟩ := by
  obtain ⟨c, hs, hcont⟩ := statement_continues hread
  obtain ⟨u, hr, hfin, -⟩ := statements_cut r
  refine ⟨c ++ u, [], ?_, rfl, ?_⟩
  · rw [List.append_assoc, ← hr]
    exact hs
  · rw [List.append_nil]
    exact line_of_finishes (hcont isTarget_finishes (follows_cut hr hfin))

/-- The word `if` with a body after it makes a rule. -/
theorem line_with_body {r' : List Char} (hskip : skipSeparators r = 'i' :: 'f' :: r') :
    ∃ c, s = c ++ 'i' :: 'f' :: r' ∧ ∀ v, (∀ x, v.head? = some x → isWordChar x = false) → ReadAll v →
      ∃ l, line (c ++ 'i' :: 'f' :: v) = .ok l := by
  obtain ⟨c, hs, hcont⟩ := statement_continues hread
  have hr : r.takeWhile isSeparator ++ 'i' :: 'f' :: r' = r := by
    rw [← hskip]
    exact List.takeWhile_append_dropWhile
  refine ⟨c ++ r.takeWhile isSeparator, ?_, fun v hv hall => ?_⟩
  · rw [List.append_assoc, hr]
    exact hs
  · have hif : IfBefore v ('i' :: 'f' :: v) := rfl
    have hpieces : (pieces ('i' :: 'f' :: v)).rest = 'i' :: 'f' :: v :=
      (pieces_nil (piece_fails_of_atIf (atIf_if hv))).2
    have hfollows : Follows (IfBefore v) r (r.takeWhile isSeparator ++ 'i' :: 'f' :: v) := by
      refine follows_separators (isTarget_ifBefore v) hif (by rw [hpieces]; exact hif) fun hnil => ?_
      rw [hnil] at hr
      rw [← hr]
      exact .of_head (isTarget_ifBefore v) rfl
    rw [List.append_assoc]
    exact line_of_ifBefore (hcont (isTarget_ifBefore v) hfollows) hv hall.1 hall.2

section Body

variable {r' : List Char} (hskip : skipSeparators r = 'i' :: 'f' :: r')
  (hr' : ∀ x, r'.head? = some x → isWordChar x = false)
include hskip hr'

theorem viable_body (hm : m ∈ (statements r').misses) : Viable s m := by
  obtain ⟨c, hs, hbody⟩ := line_with_body hread hskip
  obtain ⟨u, w, hmend⟩ := statements_mendable r' m hm
  obtain ⟨w', hmet, hall, hhead⟩ := hmend.after_if hr'
  refine ⟨c ++ 'i' :: 'f' :: u, w', ?_, hmet, ?_⟩
  · rw [hs, hmend.text]
    simp
  · rw [List.append_assoc]
    exact hbody _ hhead hall

theorem viable_body_end (hne : (statements r').items ≠ []) :
    Viable s ⟨(statements r').rest.dropWhile isTerminator, .ending⟩ := by
  obtain ⟨c, hs, hbody⟩ := line_with_body hread hskip
  obtain ⟨u, hr, hfin, hitems⟩ := statements_cut r'
  refine ⟨c ++ 'i' :: 'f' :: u, [], ?_, rfl, ?_⟩
  · rw [hs, List.append_assoc]
    exact congrArg (c ++ 'i' :: 'f' :: ·) hr
  · rw [List.append_nil]
    refine hbody u (fun x hx => hr' x ?_) ⟨hitems hne, hfin⟩
    rw [hr]
    cases u with
    | nil => cases hx
    | cons y u => exact hx

end Body

/-- The word `if` can stand where it was expected: a rule follows, or it becomes a part of a bareword. -/
theorem viable_if : Viable s ⟨skipSeparators r, .literal "if"⟩ := by
  obtain ⟨c, hs, hcont⟩ := statement_continues hread
  have hbody : FirstPiece .ending ['(', ')'] := .term rfl
  have hhead : ∀ x, ['(', ')'].head? = some x → isWordChar x = false := forall_head rfl rfl
  have hif : IfOrEnd ['(', ')'] ['i', 'f', '(', ')'] := .inl rfl
  have hpieces : (pieces ['i', 'f', '(', ')']).rest = ['i', 'f', '(', ')'] :=
    (pieces_nil (piece_fails_of_atIf (atIf_if hhead))).2
  have hfollows : Follows (IfOrEnd ['(', ')']) r
      (r.takeWhile isSeparator ++ ['i', 'f', '(', ')']) := by
    refine follows_separators (isTarget_ifOrEnd _) hif (by rw [hpieces]; exact hif) fun _ => ⟨?_, ?_⟩
    · intro c said hne hrun hat ha
      have harrives : Arrives (IfOrEnd ['(', ')']) False ['(', ')'] :=
        hbody.arrives (isTarget_ifOrEnd _) (.inr rfl)
      exact ha.word (isTarget_ifOrEnd _) hne hrun hat (by simp) fun _ _ => harrives.rest
    · exact fun _ => forall_head rfl rfl
  refine ⟨c ++ r.takeWhile isSeparator, ['i', 'f', '(', ')'], ?_, ⟨['(', ')'], rfl⟩, ?_⟩
  · rw [List.append_assoc]
    exact hs.trans (congrArg _ List.takeWhile_append_dropWhile.symm)
  · rw [List.append_assoc]
    obtain ⟨st, rest, hread, hrest⟩ := hcont (isTarget_ifOrEnd _) hfollows
    rcases hrest with hrest | hrest
    · exact line_of_ifBefore ⟨st, rest, hread, hrest⟩ hhead hbody.readAll.1 hbody.readAll.2
    · exact line_of_finishes ⟨st, rest, hread, finishes_congr (s := []) hrest.symm finishes_nil⟩

end Continued

/-! ### A reader that fails has missed something -/

theorem fails_of_orElse {α : Type} {a b : Attempt α} (h : (a.orElse b).result = none) :
    a.result = none ∧ b.result = none := by
  unfold Attempt.orElse at h
  split at h
  · rename_i ha
    rw [ha] at h
    cases h
  · exact ⟨‹_›, h⟩

theorem mem_misses_of_fails {α : Type} {a b : Attempt α} (ha : a.result = none)
    (h : m ∈ a.misses ∨ m ∈ b.misses) : m ∈ (a.orElse b).misses := by
  have heq : a.orElse b = b.after a.misses := by simp [Attempt.orElse, ha]
  rw [heq]
  exact List.mem_append.2 h

theorem exists_delimited_miss {o d : Char} {b : List Char} (h : (delimited o d b s).result = none) :
    ∃ m, m ∈ (delimited o d b s).misses := by
  refine List.exists_mem_of_ne_nil _ fun hno => ?_
  unfold delimited at h hno
  split at hno
  · cases hno
  · simp only [] at h hno
    split_ifs at h hno
    · split at hno
      · rename_i hrest
        rw [hrest] at h
        simp only [] at h
        split_ifs at h hno
        · cases h
        · cases hno
      · cases hno
    · cases hno

theorem exists_piece_miss (h : (piece s).result = none) : ∃ m, m ∈ (piece s).misses := by
  obtain ⟨hw, ht⟩ := fails_of_orElse h
  have hterm : (term s).misses = ((variableTerm s).orElse (constantTerm s)).misses := by
    unfold term
    simp only []
    split <;> rfl
  have hv : (variableTerm s).result = none := by
    by_contra hno
    obtain ⟨x, hx⟩ := Option.ne_none_iff_exists'.1 hno
    have hread := term_of_reads (s := s) (.orElse ⟨hx, rfl⟩)
    rw [(hread.map Piece.term).1] at ht
    cases ht
  obtain ⟨m, hm⟩ := exists_delimited_miss (o := '(') (d := ')') (b := ['(']) (s := s)
    (Option.map_eq_none_iff.1 hv)
  refine ⟨m, mem_misses_of_fails hw (.inr ?_)⟩
  show m ∈ (term s).misses
  rw [hterm]
  exact mem_misses_of_fails hv (.inl hm)

theorem exists_pieces_miss (s : List Char) : ∃ m, m ∈ (pieces s).misses := by
  fun_induction pieces s with
  | case1 s p h more ih =>
    obtain ⟨m, hm⟩ := ih
    exact ⟨m, List.mem_append_right _ hm⟩
  | case2 s h => exact exists_piece_miss h

theorem exists_statement_miss (h : (statement s).result = none) : ∃ m, m ∈ (statement s).misses := by
  by_cases hm : (skipSpaces s).head? = some '!'
  · obtain ⟨r, hr⟩ := List.head?_eq_some_iff.1 hm
    cases hu : (unmarked (skipSpaces r)).result with
    | some st => cases h.symm.trans (statement_marked hr ⟨hu, rfl⟩).1
    | none =>
      obtain ⟨m, hm⟩ := exists_pieces_miss (skipSpaces r)
      rw [← simple_misses] at hm
      refine ⟨m, ?_⟩
      unfold statement
      simp only [hr, hu]
      exact mem_misses_of_fails (fails_of_orElse hu).1 (.inr hm)
  · refine ⟨⟨skipSpaces s, .literal "!"⟩, ?_⟩
    unfold statement
    split
    · rename_i r hr
      exact absurd (by rw [hr]; rfl) hm
    · simp only []
      split <;> exact List.mem_cons_self

/-! ### Reports -/

theorem finish_error {input rest : List Char} {l : Line} {misses : List Miss} {e : Misreading}
    (h : finish input l rest misses = .error e) :
    e = report input (misses ++ [⟨rest.dropWhile isTerminator, .ending⟩]) := by
  unfold finish at h
  split at h
  · cases h
  · exact (Except.error.inj h).symm

theorem of_afterIf? (h : afterIf? s = some r) :
    skipSeparators s = 'i' :: 'f' :: r ∧ ∀ x, r.head? = some x → isWordChar x = false := by
  have hat : atIf s = true := by rw [atIf, h]; rfl
  obtain ⟨r', hspaces, hskip, hr⟩ := exists_of_atIf hat
  rw [afterIf?_of_if hspaces] at h
  split_ifs at h
  obtain rfl := Option.some.inj h
  exact ⟨hskip, hr⟩

/-- **The report on a line that was not read names misses that are all viable**, and there are some. -/
theorem line_error {e : Misreading} (h : line s = .error e) :
    ∃ misses, misses ≠ [] ∧ e = report s misses ∧ ∀ m ∈ misses, Viable s m := by
  unfold line at h
  simp only [] at h
  split at h
  · rename_i hfails
    obtain ⟨m, hm⟩ := exists_statement_miss hfails
    exact ⟨_, List.ne_nil_of_mem hm, (Except.error.inj h).symm, fun m hm => viable_first hm⟩
  · rename_i first hfirst
    have hread : (statement s).Reads first (statement s).rest := ⟨hfirst, rfl⟩
    have hmore : statements (skipSeparators (statement s).rest) = statements (statement s).rest :=
      statements_congr (skipSeparators_skipSeparators _)
    have hconjunction : ∀ {misses}, (∀ m ∈ misses, Viable s m) →
        conjunction s first (skipSeparators (statement s).rest) misses = .error e →
          ∃ misses, misses ≠ [] ∧ e = report s misses ∧ ∀ m ∈ misses, Viable s m := by
      intro misses hmisses hc
      unfold conjunction at hc
      simp only [hmore] at hc
      refine ⟨_, by simp, finish_error hc, ?_⟩
      simp only [List.forall_mem_append, List.forall_mem_singleton]
      exact ⟨⟨hmisses, fun m hm => viable_more hread hm⟩, viable_end hread⟩
    split at h
    · refine hconjunction ?_ h
      simp only [List.forall_mem_append, List.forall_mem_singleton]
      exact ⟨fun m hm => viable_first hm, viable_if hread⟩
    · rename_i r hr
      obtain ⟨hskip, hhead⟩ := of_afterIf? hr
      rw [skipSeparators_skipSeparators] at hskip
      have hbody : ∀ m ∈ (statement s).misses ++ (statements r).misses, Viable s m :=
        List.forall_mem_append.2 ⟨fun m hm => viable_first hm,
          fun m hm => viable_body hread hskip hhead hm⟩
      split at h
      · exact hconjunction hbody h
      · rename_i hne
        refine ⟨_, by simp, finish_error h, ?_⟩
        refine List.forall_mem_append.2 ⟨hbody, List.forall_mem_singleton.2 ?_⟩
        exact viable_body_end hread hskip hhead hne

end PassageLogic.Reading
