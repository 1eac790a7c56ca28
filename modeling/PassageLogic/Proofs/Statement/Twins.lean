import PassageLogic.Proofs.Statement.Grammatical

/-! # Texts that differ in quoted values

Two texts are twins if they are the same up to values that stand in them as quoted constants, one value
in the one where another value is in the other. Everything that is read from twins is the same up to
these values (`line_twin`), since each reader takes as much of the one as of the other: a bareword and
the word `if` hold no delimiter, and a quoted value is taken as a whole.

What follows delimiters that are never closed, or parentheses in which another one opens, is not read at
all. It may be the same text, or any text, so that such texts are twins as well. -/

namespace PassageLogic

/-! ### Statements and lines -/

/-- The same term, or the constants of two values for one place. -/
inductive Token.Twin (V : String → String → Prop) : Token → Token → Prop where
  | same (t : Token) : Twin V t t
  | value {v w : String} : V v w → Twin V (.const (Text.trimmed v)) (.const (Text.trimmed w))

/-- The statements differ in the constants of values at most. -/
structure Statement.Twin (V : String → String → Prop) (st st' : Statement) : Prop where
  words : st.words = st'.words
  negated : st.negated = st'.negated
  tokens : List.Forall₂ (Token.Twin V) st.tokens st'.tokens

/-- The lines are of one kind, and their statements differ in the constants of values at most. -/
inductive Line.Twin (V : String → String → Prop) : Line → Line → Prop where
  | claim {st st' : Statement} : st.Twin V st' → Twin V (.claim st) (.claim st')
  | rule {head head' : Statement} {body body' : List Statement} : head.Twin V head' →
      List.Forall₂ (Statement.Twin V) body body' → Twin V (.rule head body) (.rule head' body')
  | conjunction {sts sts' : List Statement} : List.Forall₂ (Statement.Twin V) sts sts' →
      Twin V (.conjunction sts) (.conjunction sts')

/-- Neither is a line, or both are and differ in the constants of values at most. -/
inductive Line.ReadTwin (V : String → String → Prop) :
    Except Misreading Line → Except Misreading Line → Prop where
  | misread (m m' : Misreading) : ReadTwin V (.error m) (.error m')
  | read {l l' : Line} : l.Twin V l' → ReadTwin V (.ok l) (.ok l')

/-- The value does not contain quotes of both kinds. -/
def IsQuotable (v : String) : Prop := ¬ ('"' ∈ v.toList ∧ '\'' ∈ v.toList)

instance (v : String) : Decidable (IsQuotable v) :=
  inferInstanceAs (Decidable (¬ ('"' ∈ v.toList ∧ '\'' ∈ v.toList)))

section
variable {V : String → String → Prop} {st st' : Statement}

theorem Statement.Twin.withNegated (h : st.Twin V st') (negated : Bool) :
    (st.withNegated negated).Twin V (st'.withNegated negated) :=
  ⟨h.words, rfl, h.tokens⟩

theorem Statement.Twin.commanded (h : st.Twin V st') (command : String) :
    (st.commanded command).Twin V (st'.commanded command) := by
  refine ⟨?_, h.negated, .cons (.same _) (.cons ?_ h.tokens)⟩
  · show commandWord :: List.replicate (st.tokens.length + 2) placeholder = _
    rw [h.tokens.length_eq]
    rfl
  · rw [predicate, h.words]
    exact .same _

theorem Statement.Twin.isEmpty_eq (h : st.Twin V st') : st.isEmpty = st'.isEmpty := by
  have htokens : st.tokens.isEmpty = st'.tokens.isEmpty := by
    rw [Bool.eq_iff_iff, List.isEmpty_iff_length_eq_zero, List.isEmpty_iff_length_eq_zero,
      h.tokens.length_eq]
  rw [isEmpty, isEmpty, h.words, htokens]

theorem Line.Twin.ofStatements {sts sts' : List Statement}
    (h : List.Forall₂ (Statement.Twin V) sts sts') :
    Line.Twin V (.ofStatements sts) (.ofStatements sts') := by
  cases h with
  | nil => exact .conjunction .nil
  | cons hst hsts =>
    cases hsts with
    | nil => exact .claim hst
    | cons hst' hsts => exact .conjunction (.cons hst (.cons hst' hsts))

end

namespace Reading

open Text

/-! ### Texts -/

/-- The delimiter that closes a term which begins with this one. -/
def closing? (c : Char) : Option Char :=
  if c = '(' then some ')' else if c = '"' ∨ c = '\'' then some c else none

theorem closing?_cases {o d : Char} (h : closing? o = some d) :
    (o = '(' ∧ d = ')') ∨ (o = '"' ∧ d = '"') ∨ (o = '\'' ∧ d = '\'') := by
  unfold closing? at h
  split_ifs at h with ho hq
  · exact .inl ⟨ho, (Option.some.inj h).symm⟩
  · obtain rfl := Option.some.inj h
    exact .inr (hq.imp (fun he => ⟨he, he⟩) fun he => ⟨he, he⟩)

theorem isOpening_of_closing? {o d : Char} (h : closing? o = some d) : isOpening o = true := by
  rcases closing?_cases h with ⟨rfl, -⟩ | ⟨rfl, -⟩ | ⟨rfl, -⟩ <;> rfl

theorem not_isOpening_of_closing? {c : Char} (h : closing? c = none) : isOpening c = false := by
  by_contra hc
  rcases isOpening_cases (by simpa using hc) with rfl | rfl | rfl <;> cases h

theorem isWordChar_of_isOpening {c : Char} (h : isOpening c = true) : isWordChar c = false := by
  rcases isOpening_cases h with rfl | rfl | rfl <;> decide

theorem afterIf?_of_if {s r : List Char} (h : skipSpaces s = 'i' :: 'f' :: r) :
    afterIf? s = if r.head?.any isWordChar then none else some r := by
  unfold afterIf?
  rw [h]
  cases r <;> rfl

theorem afterIf?_of_ne {s : List Char} (h : ∀ r, skipSpaces s ≠ 'i' :: 'f' :: r) :
    afterIf? s = none := by
  unfold afterIf?
  split
  · rename_i r hr
    exact absurd hr (h r)
  · rfl

theorem skipBreak_cons (c : Char) (s : List Char) :
    skipBreak (c :: s) = if c = ',' ∨ c = '\n' then s else c :: s := by
  unfold skipBreak
  split
  · rename_i he
    cases he
    rfl
  · rename_i he
    cases he
    rfl
  · rename_i hcomma hnewline
    rw [if_neg]
    rintro (rfl | rfl)
    · exact hcomma s rfl
    · exact hnewline s rfl

/-- The texts are the same up to quoted values. -/
inductive Twin (V : String → String → Prop) : List Char → List Char → Prop where
  | refl (s : List Char) : Twin V s s
  | char {c : Char} {s s' : List Char} : isOpening c = false → Twin V s s' →
      Twin V (c :: s) (c :: s')
  | term {o d : Char} {cs s s' : List Char} : closing? o = some d → d ∉ cs →
      (o = '(' → '(' ∉ cs) → Twin V s s' → Twin V (o :: (cs ++ d :: s)) (o :: (cs ++ d :: s'))
  | value {v w : String} {s s' : List Char} : V v w → IsQuotable v → IsQuotable w → Twin V s s' →
      Twin V ((Token.const v).display.toList ++ s) ((Token.const w).display.toList ++ s')
  | broken {cs s s' : List Char} : ')' ∉ cs → '(' ∉ cs →
      Twin V ('(' :: (cs ++ '(' :: s)) ('(' :: (cs ++ '(' :: s'))

/-- How twins begin. -/
inductive Front (V : String → String → Prop) : List Char → List Char → Prop where
  | ending : Front V [] []
  | char {c : Char} {s s' : List Char} : isOpening c = false → Twin V s s' →
      Front V (c :: s) (c :: s')
  | opening {c c' : Char} {s s' : List Char} : isOpening c = true → isOpening c' = true →
      Front V (c :: s) (c' :: s')

variable {V : String → String → Prop} {s s' : List Char}

namespace Twin

/-- What stands between delimiters may be any text without the closing one. -/
theorem delimited {o d : Char} {cs : List Char} (ho : closing? o = some d) (hd : d ∉ cs)
    (h : Twin V s s') : Twin V (o :: (cs ++ d :: s)) (o :: (cs ++ d :: s')) := by
  by_cases hopening : o = '(' ∧ '(' ∈ cs
  · obtain ⟨rfl, hmem⟩ := hopening
    obtain ⟨as, bs, rfl, has⟩ := List.eq_append_cons_of_mem hmem
    obtain rfl : d = ')' := (Option.some.inj ho).symm
    rw [List.append_assoc, List.append_assoc]
    exact .broken (fun hc => hd (List.mem_append_left _ hc)) has
  · exact .term ho hd (fun hc hmem => hopening ⟨hc, hmem⟩) h

theorem front (h : Twin V s s') : Front V s s' := by
  cases h with
  | refl =>
    cases s with
    | nil => exact .ending
    | cons c s =>
      cases hc : isOpening c with
      | false => exact .char hc (.refl s)
      | true => exact .opening hc hc
  | char hc h => exact .char hc h
  | @term o d cs s s' ho _ _ _ =>
    exact .opening (isOpening_of_closing? ho) (isOpening_of_closing? ho)
  | @value v w s s' _ _ _ _ =>
    obtain ⟨c, cs, hc, ho⟩ := head_display (.const v)
    obtain ⟨c', cs', hc', ho'⟩ := head_display (.const w)
    rw [hc, hc']
    exact .opening ho ho'
  | broken => exact .opening rfl rfl

/-- Skips that stop at delimiters leave twins. -/
theorem dropWhile {p : Char → Bool} (hp : ∀ c, isOpening c = true → p c = false) (h : Twin V s s') :
    Twin V (s.dropWhile p) (s'.dropWhile p) := by
  induction s generalizing s' with
  | nil =>
    cases h.front
    exact h
  | cons c s ih =>
    cases h.front with
    | char hc ht =>
      by_cases hpc : p c = true
      · rw [List.dropWhile_cons_of_pos hpc, List.dropWhile_cons_of_pos hpc]
        exact ih ht
      · rw [List.dropWhile_cons_of_neg hpc, List.dropWhile_cons_of_neg hpc]
        exact h
    | opening ho ho' =>
      rw [List.dropWhile_cons_of_neg (by simp [hp _ ho]),
        List.dropWhile_cons_of_neg (by simp [hp _ ho'])]
      exact h

theorem skipSpaces (h : Twin V s s') : Twin V (skipSpaces s) (skipSpaces s') :=
  h.dropWhile fun c hc => by rcases isOpening_cases hc with rfl | rfl | rfl <;> rfl

theorem skipSeparators (h : Twin V s s') : Twin V (skipSeparators s) (skipSeparators s') :=
  h.dropWhile fun c hc => by rcases isOpening_cases hc with rfl | rfl | rfl <;> rfl

theorem skipTerminators (h : Twin V s s') :
    Twin V (s.dropWhile isTerminator) (s'.dropWhile isTerminator) :=
  h.dropWhile fun c hc => by rcases isOpening_cases hc with rfl | rfl | rfl <;> rfl

theorem skipBreak (h : Twin V s s') : Twin V (skipBreak s) (skipBreak s') := by
  cases h.front with
  | ending => exact h
  | @char c s s' hc ht =>
    rw [skipBreak_cons, skipBreak_cons]
    split_ifs
    · exact ht
    · exact h
  | opening ho ho' =>
    rcases isOpening_cases ho with rfl | rfl | rfl <;>
      rcases isOpening_cases ho' with rfl | rfl | rfl <;> exact h

/-- A character that is no delimiter stands at the front of both texts or of neither. -/
theorem tail (h : Twin V s s') {c : Char} (hc : isOpening c = false) :
    (∃ t t', s = c :: t ∧ s' = c :: t' ∧ Twin V t t') ∨
      s.head? ≠ some c ∧ s'.head? ≠ some c := by
  cases h.front with
  | ending => simp
  | @char d s s' hd ht =>
    by_cases hdc : d = c
    · subst hdc
      exact .inl ⟨s, s', rfl, rfl, ht⟩
    · simp [hdc]
  | @opening d d' s s' ho ho' =>
    have hne : ∀ e, isOpening e = true → some e ≠ some c := by
      rintro e he ⟨⟩
      rw [he] at hc
      cases hc
    exact .inr ⟨hne d ho, hne d' ho'⟩

theorem head_isWordChar (h : Twin V s s') :
    (s.head?.any isWordChar) = s'.head?.any isWordChar := by
  cases h.front with
  | ending => rfl
  | char hc ht => rfl
  | opening ho ho' =>
    show isWordChar _ = isWordChar _
    rw [isWordChar_of_isOpening ho, isWordChar_of_isOpening ho']

/-- The word `if` stands in both texts or in neither. -/
theorem afterIf? (h : Twin V s s') : (afterIf? s = none ∧ afterIf? s' = none) ∨
    ∃ r r', afterIf? s = some r ∧ afterIf? s' = some r' ∧ Twin V r r' := by
  rcases h.skipSpaces.tail (c := 'i') rfl with ⟨t, t', ht, ht', htt⟩ | ⟨hi, hi'⟩
  · rcases htt.tail (c := 'f') rfl with ⟨r, r', rfl, rfl, hrr⟩ | ⟨hf, hf'⟩
    · rw [afterIf?_of_if ht, afterIf?_of_if ht', hrr.head_isWordChar]
      split_ifs
      · exact .inl ⟨rfl, rfl⟩
      · exact .inr ⟨r, r', rfl, rfl, hrr⟩
    · refine .inl ⟨afterIf?_of_ne fun r hr => hf ?_, afterIf?_of_ne fun r hr => hf' ?_⟩
      · rw [(List.cons.inj (ht.symm.trans hr)).2, List.head?_cons]
      · rw [(List.cons.inj (ht'.symm.trans hr)).2, List.head?_cons]
  · refine .inl ⟨afterIf?_of_ne fun r hr => hi ?_, afterIf?_of_ne fun r hr => hi' ?_⟩
    · rw [hr, List.head?_cons]
    · rw [hr, List.head?_cons]

theorem atIf_eq (h : Twin V s s') : atIf s = atIf s' := by
  unfold atIf
  rcases h.afterIf? with ⟨hn, hn'⟩ | ⟨r, r', hr, hr', -⟩
  · rw [hn, hn']
  · rw [hr, hr']
    rfl

/-- A bareword takes the same characters of twins, and leaves twins. -/
theorem wordRun (h : Twin V s s') : wordRun s = wordRun s' ∧
    Twin V (s.drop (Reading.wordRun s).length) (s'.drop (Reading.wordRun s').length) := by
  induction s generalizing s' with
  | nil =>
    cases h.front
    exact ⟨rfl, h⟩
  | cons c s ih =>
    have hat := h.atIf_eq
    cases h.front with
    | char hc ht =>
      obtain ⟨hrun, hrest⟩ := ih ht
      rw [Reading.wordRun, Reading.wordRun, hat]
      split_ifs
      · exact ⟨congrArg _ hrun, hrest⟩
      · exact ⟨rfl, h⟩
    | opening ho ho' =>
      rw [wordRun_opening ho, wordRun_opening ho']
      exact ⟨rfl, h⟩

end Twin

/-! ### Readings -/

/-- Both readings fail, or they read what is related and leave twins. -/
inductive Attempt.Alike {α : Type} (V : String → String → Prop) (R : α → α → Prop)
    (a a' : Attempt α) : Prop where
  | fails : a.result = none → a'.result = none → Alike V R a a'
  | reads {x x' : α} {rest rest' : List Char} : a.Reads x rest → a'.Reads x' rest' → R x x' →
      Twin V rest rest' → Alike V R a a'

/-- The runs hold what is related and leave twins. -/
structure Run.Alike {α : Type} (V : String → String → Prop) (R : α → α → Prop) (r r' : Run α) :
    Prop where
  items : List.Forall₂ R r.items r'.items
  rest : Twin V r.rest r'.rest

namespace Attempt.Alike

variable {α β : Type} {R : α → α → Prop} {Q : β → β → Prop} {a a' b b' : Attempt α}

theorem refl (hR : ∀ x, R x x) (a : Attempt α) : Alike V R a a := by
  cases h : a.result with
  | none => exact .fails h h
  | some x => exact .reads ⟨h, rfl⟩ ⟨h, rfl⟩ (hR x) (.refl _)

theorem map {f : α → β} (hf : ∀ x x', R x x' → Q (f x) (f x')) (h : Alike V R a a') :
    Alike V Q (a.map f) (a'.map f) := by
  cases h with
  | fails h h' => exact .fails (result_map_eq_none f h) (result_map_eq_none f h')
  | reads h h' hx hr => exact .reads (h.map f) (h'.map f) (hf _ _ hx) hr

theorem orElse (ha : Alike V R a a') (hb : Alike V R b b') :
    Alike V R (a.orElse b) (a'.orElse b') := by
  cases ha with
  | reads h h' hx hr => exact .reads h.orElse h'.orElse hx hr
  | fails h h' =>
    cases hb with
    | fails hb hb' => exact .fails (result_orElse_eq_none h hb) (result_orElse_eq_none h' hb')
    | reads hb hb' hx hr => exact .reads (hb.orElse_of_fails h) (hb'.orElse_of_fails h') hx hr

end Attempt.Alike

theorem word_alike (h : Twin V s s') : (word s).Alike V Eq (word s') := by
  obtain ⟨hrun, hrest⟩ := h.wordRun
  unfold word
  rw [h.atIf_eq]
  split_ifs
  · exact .fails rfl rfl
  · rw [hrun] at hrest ⊢
    split
    · exact .fails rfl rfl
    · exact .reads ⟨rfl, rfl⟩ ⟨rfl, rfl⟩ rfl hrest

/-! ### Terms -/

theorem variable_closed {cs : List Char} (hclosing : ')' ∉ cs) (hopening : '(' ∉ cs) (s : List Char) :
    (term ('(' :: (cs ++ ')' :: s))).Reads (.var (String.ofList (trim cs))) (skipSpaces s) := by
  refine term_of_reads (((delimited_closed fun c hc => ⟨?_, ?_⟩).map Token.var).orElse)
  · exact fun he => hclosing (he ▸ hc)
  · rw [List.mem_singleton]
    exact fun he => hopening (he ▸ hc)

theorem constant_closed {o : Char} (ho : o = '"' ∨ o = '\'') {cs : List Char} (hcs : o ∉ cs)
    (s : List Char) :
    (term (o :: (cs ++ o :: s))).Reads (.const (String.ofList (trim cs))) (skipSpaces s) := by
  have hin : ∀ c ∈ cs, c ≠ o ∧ c ∉ ([] : List Char) := fun c hc =>
    ⟨fun he => hcs (he ▸ hc), List.not_mem_nil⟩
  have hread := delimited_closed (o := o) (b := []) (s := s) hin
  refine term_of_reads (.orElse_of_fails (result_map_eq_none _ (delimited_fails ?_)) (.map _ ?_))
  · rcases ho with rfl | rfl <;> simp
  · rcases ho with rfl | rfl
    · exact hread.orElse
    · exact .orElse_of_fails (delimited_fails (by simp)) hread

/-- A quotable value is read as its constant. -/
theorem value_reads {v : String} (hv : IsQuotable v) (s : List Char) :
    (term ((Token.const v).display.toList ++ s)).Reads (.const (trimmed v)) (skipSpaces s) := by
  by_cases hd : '"' ∈ v.toList
  · have hs : (Token.const v).display.toList ++ s = '\'' :: (v.toList ++ '\'' :: s) := by
      simp [Token.display, hd]
    rw [hs]
    exact constant_closed (.inr rfl) (fun hq => hv ⟨hd, hq⟩) s
  · have hs : (Token.const v).display.toList ++ s = '"' :: (v.toList ++ '"' :: s) := by
      simp [Token.display, hd]
    rw [hs]
    exact constant_closed (.inl rfl) hd s

/-- There is no term where another parenthesis opens in the first one. -/
theorem term_fails_broken {cs : List Char} (hclosing : ')' ∉ cs) (hopening : '(' ∉ cs)
    (s : List Char) : (term ('(' :: (cs ++ '(' :: s))).result = none := by
  have hall : ∀ c ∈ cs, (!(c == ')' || ['('].contains c)) = true := by
    intro c hc
    have h1 : c ≠ ')' := fun he => hclosing (he ▸ hc)
    have h2 : c ≠ '(' := fun he => hopening (he ▸ hc)
    simp [h1, h2]
  have hvar : (delimited '(' ')' ['('] ('(' :: (cs ++ '(' :: s))).result = none := by
    unfold delimited
    simp only [if_true]
    rw [List.dropWhile_append_of_pos hall]
    rfl
  have hf : ((variableTerm ('(' :: (cs ++ '(' :: s))).orElse
      (constantTerm ('(' :: (cs ++ '(' :: s)))).result = none :=
    result_orElse_eq_none (result_map_eq_none _ hvar) (result_map_eq_none _
      (result_orElse_eq_none (delimited_fails (by simp)) (delimited_fails (by simp))))
  unfold term
  simp only [hf]

theorem term_alike (h : Twin V s s') : (term s).Alike V (Token.Twin V) (term s') := by
  cases h with
  | refl => exact .refl .same _
  | char hc _ =>
    exact .fails (term_fails (forall_head rfl hc)) (term_fails (forall_head rfl hc))
  | @term o d cs s s' ho hd hopening hs =>
    rcases closing?_cases ho with ⟨rfl, rfl⟩ | ⟨rfl, rfl⟩ | ⟨rfl, rfl⟩
    · exact .reads (variable_closed hd (hopening rfl) s) (variable_closed hd (hopening rfl) s')
        (.same _) hs.skipSpaces
    · exact .reads (constant_closed (.inl rfl) hd s) (constant_closed (.inl rfl) hd s') (.same _)
        hs.skipSpaces
    · exact .reads (constant_closed (.inr rfl) hd s) (constant_closed (.inr rfl) hd s') (.same _)
        hs.skipSpaces
  | value hv hq hq' hs => exact .reads (value_reads hq _) (value_reads hq' _) (.value hv) hs.skipSpaces
  | broken hclosing hopening =>
    exact .fails (term_fails_broken hclosing hopening _) (term_fails_broken hclosing hopening _)

/-! ### Statements -/

end Reading

/-- The same bareword, or terms that are twins. -/
inductive Piece.Twin (V : String → String → Prop) : Piece → Piece → Prop where
  | word (text : String) : Twin V (.word text) (.word text)
  | term {t t' : Token} : t.Twin V t' → Twin V (.term t) (.term t')

/-- Twin pieces make twin statements. -/
theorem Statement.Twin.ofPieces {V : String → String → Prop} {ps ps' : List Piece}
    (h : List.Forall₂ (Piece.Twin V) ps ps') : (Statement.ofPieces ps).Twin V (.ofPieces ps') := by
  induction h with
  | nil => exact ⟨rfl, rfl, .nil⟩
  | @cons p p' ps ps' hp _ ih =>
    obtain ⟨hwords, -, htokens⟩ := ih
    replace hwords : ps.filterMap Piece.word? = ps'.filterMap Piece.word? := hwords
    cases hp with
    | word text =>
      refine ⟨?_, rfl, htokens⟩
      show (Piece.word text :: ps).filterMap Piece.word? = (Piece.word text :: ps').filterMap Piece.word?
      rw [List.filterMap_cons, List.filterMap_cons, hwords]
    | term ht => exact ⟨congrArg (placeholder :: ·) hwords, rfl, .cons ht htokens⟩

namespace Reading

variable {V : String → String → Prop} {s s' : List Char}

theorem piece_alike (h : Twin V s s') : (piece s).Alike V (Piece.Twin V) (piece s') := by
  refine ((word_alike h).map ?_).orElse ((term_alike h).map fun _ _ => .term)
  rintro w _ rfl
  exact .word w

theorem pieces_alike (h : Twin V s s') : (pieces s).Alike V (Piece.Twin V) (pieces s') := by
  fun_induction pieces s generalizing s' with
  | case1 s p hp more =>
    rename_i ih
    cases piece_alike h with
    | fails hno _ =>
      rw [hp] at hno
      cases hno
    | @reads x p' rest rest' hread hread' hpp hrest =>
      obtain rfl : x = p := Option.some.inj (hread.1.symm.trans hp)
      obtain ⟨hitems, hleft⟩ := ih (hread.2 ▸ hrest)
      obtain ⟨hitems', hleft'⟩ := pieces_cons hread' (⟨rfl, rfl⟩ : (pieces rest').Reads _ _)
      exact ⟨hitems' ▸ .cons hpp hitems, hleft' ▸ hleft⟩
  | case2 s hp =>
    cases piece_alike h with
    | fails _ hno' =>
      obtain ⟨hitems', hleft'⟩ := pieces_nil hno'
      exact ⟨by rw [hitems']; exact .nil, by rw [hleft']; exact h⟩
    | reads hread _ _ _ =>
      rw [hread.1] at hp
      cases hp

theorem simple_alike (h : Twin V s s') : (simple s).Alike V (Statement.Twin V) (simple s') := by
  obtain ⟨hitems, hrest⟩ := pieces_alike h
  have hst := Statement.Twin.ofPieces hitems
  unfold simple
  simp only [hst.isEmpty_eq]
  split_ifs
  · exact .fails rfl rfl
  · exact .reads ⟨rfl, rfl⟩ ⟨rfl, rfl⟩ hst hrest.skipBreak

theorem commanded_alike (h : Twin V s s') :
    (commanded s).Alike V (Statement.Twin V) (commanded s') := by
  cases word_alike h with
  | fails hno hno' =>
    exact .fails (commanded_fails fun w hw => by rw [hno] at hw; cases hw)
      (commanded_fails fun w hw => by rw [hno'] at hw; cases hw)
  | @reads w w' rest rest' hread hread' hw hrest =>
    subst hw
    have hcolon : ∀ {t r}, (word t).Reads w r → (w ≠ "" → r.head? ≠ some ':') →
        (commanded t).result = none := by
      rintro t _ ⟨hx, rfl⟩ hr
      refine commanded_fails fun v hv hne => ?_
      obtain rfl : w = v := Option.some.inj (hx.symm.trans hv)
      exact hr hne
    by_cases hne : w = ""
    · exact .fails (hcolon hread fun h => absurd hne h) (hcolon hread' fun h => absurd hne h)
    · rcases hrest.tail (c := ':') rfl with ⟨r, r', rfl, rfl, hr⟩ | ⟨hno, hno'⟩
      · rw [commanded_eq hread hne, commanded_eq hread' hne]
        cases simple_alike hr with
        | fails hs hs' =>
          rw [hs, hs']
          exact .fails rfl rfl
        | reads hs hs' hst hrest =>
          rw [hs.1, hs'.1]
          exact .reads ⟨rfl, hs.2⟩ ⟨rfl, hs'.2⟩ (hst.commanded w) hrest
      · exact .fails (hcolon hread fun _ => hno) (hcolon hread' fun _ => hno')

theorem unmarked_alike (h : Twin V s s') : (unmarked s).Alike V (Statement.Twin V) (unmarked s') :=
  (commanded_alike h).orElse (simple_alike h)

theorem statement_alike (h : Twin V s s') :
    (statement s).Alike V (Statement.Twin V) (statement s') := by
  rcases h.skipSpaces.tail (c := '!') rfl with ⟨r, r', hr, hr', hrr⟩ | ⟨hno, hno'⟩
  · cases unmarked_alike hrr.skipSpaces with
    | fails hu hu' => exact .fails (statement_fails_marked hr hu) (statement_fails_marked hr' hu')
    | reads hu hu' hst hrest =>
      exact .reads (statement_marked hr hu) (statement_marked hr' hu') (hst.withNegated true) hrest
  · cases unmarked_alike h.skipSpaces with
    | fails hu hu' =>
      exact .fails (statement_fails_unmarked hno hu) (statement_fails_unmarked hno' hu')
    | reads hu hu' hst hrest =>
      exact .reads (statement_unmarked hno hu) (statement_unmarked hno' hu') (hst.withNegated false)
        hrest

theorem statements_alike (h : Twin V s s') :
    (statements s).Alike V (Statement.Twin V) (statements s') := by
  fun_induction statements s generalizing s' with
  | case1 s st hst more =>
    rename_i ih
    cases statement_alike h.skipSeparators with
    | fails hno _ =>
      rw [hst] at hno
      cases hno
    | @reads x st' rest rest' hread hread' hstst hrest =>
      obtain rfl : x = st := Option.some.inj (hread.1.symm.trans hst)
      obtain ⟨hitems, hleft⟩ := ih (hread.2 ▸ hrest)
      obtain ⟨hitems', hleft'⟩ := statements_cons hread' (⟨rfl, rfl⟩ : (statements rest').Reads _ _)
      exact ⟨hitems' ▸ .cons hstst hitems, hleft' ▸ hleft⟩
  | case2 s hst =>
    cases statement_alike h.skipSeparators with
    | fails _ hno' =>
      obtain ⟨hitems', hleft'⟩ := statements_nil hno'
      exact ⟨by rw [hitems']; exact .nil, by rw [hleft']; exact h.skipSeparators⟩
    | reads hread _ _ _ =>
      rw [hread.1] at hst
      cases hst

/-! ### Lines -/

theorem finish_twin {input input' : List Char} {l l' : Line} {misses misses' : List Miss}
    (hl : l.Twin V l') (h : Twin V s s') :
    Line.ReadTwin V (finish input l s misses) (finish input' l' s' misses') := by
  have hskip := h.skipTerminators
  unfold finish
  generalize s.dropWhile isTerminator = r at hskip
  generalize s'.dropWhile isTerminator = r' at hskip
  cases hskip.front with
  | ending => exact .read hl
  | char => exact .misread _ _
  | opening => exact .misread _ _

theorem conjunction_twin {input input' : List Char} {head head' : Statement}
    {misses misses' : List Miss} (hhead : head.Twin V head') (h : Twin V s s') :
    Line.ReadTwin V (conjunction input head s misses) (conjunction input' head' s' misses') := by
  obtain ⟨hitems, hrest⟩ := statements_alike h
  exact finish_twin (.ofStatements (.cons hhead hitems)) hrest

/-- **What is read from twins is the same up to the values in them.** -/
theorem line_twin (h : Twin V s s') : Line.ReadTwin V (line s) (line s') := by
  unfold line
  cases statement_alike h with
  | fails hno hno' =>
    simp only [hno, hno']
    exact .misread _ _
  | @reads head head' rest rest' hread hread' hhead hrest =>
    obtain ⟨hst, rfl⟩ := hread
    obtain ⟨hst', rfl⟩ := hread'
    simp only [hst, hst']
    have hnext := hrest.skipSeparators
    rcases hnext.afterIf? with ⟨hif, hif'⟩ | ⟨r, r', hif, hif', hr⟩
    · simp only [hif, hif']
      exact conjunction_twin hhead hnext
    · simp only [hif, hif']
      obtain ⟨hitems, hleft⟩ := statements_alike hr
      cases hbody : (statements r).items with
      | nil =>
        rw [hbody] at hitems
        cases hbody' : (statements r').items with
        | nil => exact conjunction_twin hhead hnext
        | cons => rw [hbody'] at hitems; cases hitems
      | cons st sts =>
        rw [hbody] at hitems
        cases hbody' : (statements r').items with
        | nil => rw [hbody'] at hitems; cases hitems
        | cons st' sts' =>
          rw [hbody'] at hitems
          exact finish_twin (.rule hhead hitems) hleft

end Reading
end PassageLogic
