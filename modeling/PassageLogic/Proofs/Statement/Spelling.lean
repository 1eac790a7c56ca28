import PassageLogic.Proofs.Statement.Twins

/-! # Variables are spelled out

A variable of a line stands between parentheses in the text of the line (`Line.spells_of_read`).
`Spells inside s` says where a reader can find it: quoted text is passed over as a whole, and so is what
stands between other parentheses. No reader begins inside such a text, so that each variable that it reads
is spelled in what it was given, and what is spelled in the rest was spelled before (`Taken`). -/

namespace PassageLogic

namespace Reading

open Text

/-- These characters stand between parentheses in the text, outside of other delimiters. -/
inductive Spells (inside : List Char) : List Char → Prop where
  | char {c : Char} {s : List Char} : closing? c = none → Spells inside s → Spells inside (c :: s)
  | here {s : List Char} : ')' ∉ inside → Spells inside ('(' :: (inside ++ ')' :: s))
  | past {o d : Char} {cs s : List Char} : closing? o = some d → d ∉ cs → Spells inside s →
      Spells inside (o :: (cs ++ d :: s))

variable {inside cs s rest : List Char} {c o d : Char}

/-! ### What is spelled in a text -/

/-- A text is split in one way at the first of a character. -/
theorem append_cons_inj_of_not_mem {cs cs' s s' : List Char} (h : d ∉ cs) (h' : d ∉ cs')
    (he : cs ++ d :: s = cs' ++ d :: s') : cs = cs' ∧ s = s' := by
  have hne : ∀ ds : List Char, d ∉ ds → ∀ c ∈ ds, (c != d) = true := fun ds hd c hc =>
    bne_iff_ne.2 fun he => hd (he ▸ hc)
  have htake : ∀ ds t : List Char, d ∉ ds → (ds ++ d :: t).takeWhile (· != d) = ds := by
    intro ds t hd
    rw [List.takeWhile_append_of_pos (hne ds hd), List.takeWhile_cons_of_neg (by simp),
      List.append_nil]
  obtain rfl : cs = cs' := by rw [← htake cs s h, he, htake cs' s' h']
  exact ⟨rfl, (List.cons.inj (List.append_cancel_left he)).2⟩

theorem Spells.append (hcs : ∀ c ∈ cs, closing? c = none) (h : Spells inside s) :
    Spells inside (cs ++ s) := by
  induction cs with
  | nil => exact h
  | cons c cs ih =>
    obtain ⟨hc, hcs⟩ := List.forall_mem_cons.1 hcs
    exact .char hc (ih hcs)

theorem spells_char (hc : closing? c = none) (h : Spells inside (c :: s)) : Spells inside s := by
  cases h with
  | char _ h => exact h
  | here => cases hc
  | past ho => rw [hc] at ho; cases ho

/-- What is spelled in a text that begins with delimited text is this text, or is spelled after it. -/
theorem spells_delimited (ho : closing? o = some d) (hd : d ∉ cs)
    (h : Spells inside (o :: (cs ++ d :: s))) : (o = '(' ∧ inside = cs) ∨ Spells inside s := by
  generalize ht : o :: (cs ++ d :: s) = t at h
  cases h with
  | char hc _ =>
    cases ht
    rw [ho] at hc
    cases hc
  | here hin =>
    obtain ⟨rfl, hrest⟩ := List.cons.inj ht
    obtain rfl : d = ')' := (Option.some.inj ho).symm
    exact .inl ⟨rfl, (append_cons_inj_of_not_mem hd hin hrest).1.symm⟩
  | past ho' hd' h =>
    obtain ⟨rfl, hrest⟩ := List.cons.inj ht
    obtain rfl := Option.some.inj (ho.symm.trans ho')
    rw [(append_cons_inj_of_not_mem hd hd' hrest).2]
    exact .inr h

/-- Nothing is spelled after a delimiter that is not closed. -/
theorem not_spells_unclosed (ho : closing? o = some d) (hd : d ∉ cs) : ¬ Spells inside (o :: cs) := by
  intro h
  generalize ht : o :: cs = t at h
  cases h with
  | char hc _ =>
    cases ht
    rw [ho] at hc
    cases hc
  | here _ =>
    obtain ⟨rfl, rfl⟩ := List.cons.inj ht
    obtain rfl : d = ')' := (Option.some.inj ho).symm
    simp at hd
  | past ho' _ _ =>
    obtain ⟨rfl, rfl⟩ := List.cons.inj ht
    obtain rfl := Option.some.inj (ho.symm.trans ho')
    simp at hd

theorem Spells.dropWhile {p : Char → Bool} (hp : ∀ c, p c = true → closing? c = none)
    (h : Spells inside (s.dropWhile p)) : Spells inside s := by
  rw [← List.takeWhile_append_dropWhile (p := p) (l := s)]
  exact h.append fun c hc => hp c (List.mem_takeWhile_imp hc)

/-- A character that is skipped is no delimiter. -/
theorem closing?_of_isTerminator (h : isTerminator c = true) : closing? c = none := by
  rcases isTerminator_cases h with rfl | rfl | rfl | rfl | rfl | rfl <;> rfl

theorem closing?_of_plain (h : isWordChar c = true ∨ c = ' ') : closing? c = none := by
  rcases h with h | rfl
  · cases ho : closing? c with
    | none => rfl
    | some d =>
      rw [isWordChar_of_isOpening (isOpening_of_closing? ho)] at h
      cases h
  · rfl

namespace Spells

theorem skipSpaces (h : Spells inside (skipSpaces s)) : Spells inside s :=
  h.dropWhile fun _ hc => closing?_of_isTerminator (isTerminator_of_isSpace hc)

theorem skipSeparators (h : Spells inside (skipSeparators s)) : Spells inside s :=
  h.dropWhile fun _ hc => closing?_of_isTerminator (isTerminator_of_isSeparator hc)

theorem skipBreak (h : Spells inside (skipBreak s)) : Spells inside s := by
  unfold Reading.skipBreak at h
  split at h
  · exact .char rfl h
  · exact .char rfl h
  · exact h

theorem afterIf? (hif : afterIf? s = some rest) (h : Spells inside rest) : Spells inside s := by
  refine Spells.skipSpaces ?_
  unfold Reading.afterIf? at hif
  split at hif
  · rename_i r hr
    have hrest : r = rest := by
      split at hif
      · split_ifs at hif
        exact Option.some.inj hif
      · exact Option.some.inj hif
    rw [hr, hrest]
    exact .char rfl (.char rfl h)
  · cases hif

end Spells

/-! ### What readers take -/

/-- The variable is spelled in the text, up to blank characters around it. -/
def SpellsName (x : String) (s : List Char) : Prop :=
  ∃ inside, Spells inside s ∧ x = String.ofList (trim inside)

/-- What the reading has taken from the text: these variables are spelled in it, and what is spelled in
the rest. -/
structure Taken (s : List Char) (names : List String) (rest : List Char) : Prop where
  names : ∀ x ∈ names, SpellsName x s
  rest : ∀ inside, Spells inside rest → Spells inside s

namespace Taken

variable {names names' : List String} {s' : List Char}

theorem of_rest (h : ∀ inside, Spells inside rest → Spells inside s) : Taken s [] rest :=
  ⟨fun _ hx => absurd hx List.not_mem_nil, h⟩

theorem trans (h : Taken s names s') (h' : Taken s' names' rest) : Taken s (names ++ names') rest where
  names := by
    intro x hx
    rcases List.mem_append.1 hx with hx | hx
    · exact h.names x hx
    · obtain ⟨inside, hin, he⟩ := h'.names x hx
      exact ⟨inside, h.rest inside hin, he⟩
  rest inside hin := h.rest inside (h'.rest inside hin)

theorem skip (h : Taken s names s') (hrest : ∀ inside, Spells inside rest → Spells inside s') :
    Taken s names rest :=
  ⟨h.names, fun inside hin => h.rest inside (hrest inside hin)⟩

end Taken

/-- If the attempt reads something, it has taken the variables of that. -/
def Attempt.Takes {α : Type} (names : α → List String) (s : List Char) (a : Attempt α) : Prop :=
  ∀ x, a.result = some x → Taken s (names x) a.rest

namespace Attempt.Takes

variable {α β : Type} {names : β → List String}

theorem map {a : Attempt α} {f : α → β} (h : a.Takes (fun x => names (f x)) s) :
    (a.map f).Takes names s := by
  intro y hy
  obtain ⟨x, hx, rfl⟩ := result_map_eq_some hy
  exact h x hx

theorem orElse {a b : Attempt β} (ha : a.Takes names s) (hb : b.Takes names s) :
    (a.orElse b).Takes names s := by
  intro x hx
  unfold Attempt.orElse at hx ⊢
  split at hx
  · exact ha x hx
  · exact hb x hx

end Attempt.Takes

/-- The names of a term: one if it is a variable. -/
def tokenNames : Token → List String
  | .var x => [x]
  | .const _ => []

theorem word_takes (s : List Char) : (word s).Takes (fun _ => []) s := by
  refine fun w h => .of_rest fun inside hin => ?_
  rw [rest_word h] at hin
  rw [← wordRun_prefix s]
  exact hin.append fun c hc => closing?_of_plain (plain_of_mem_wordRun c hc)

/-- What was read between delimiters stands there. -/
theorem exists_of_delimited {b : List Char} {text : String}
    (h : (delimited o d b s).result = some text) : ∃ inside, d ∉ inside ∧ (∀ c ∈ b, c ∉ inside) ∧
      s = o :: (inside ++ d :: (delimited o d b s).rest) ∧ text = String.ofList (trim inside) := by
  unfold delimited at h ⊢
  cases s with
  | nil => cases h
  | cons c r =>
    simp only at h ⊢
    split_ifs at h ⊢ with hc
    · subst hc
      have hsplit := List.takeWhile_append_dropWhile (p := fun e => !(e == d || b.contains e)) (l := r)
      split at h
      · rename_i e rest hd
        split_ifs at h with he
        · subst he
          cases h
          rw [if_pos rfl]
          rw [hd] at hsplit
          refine ⟨_, fun hm => ?_, fun c hc hm => ?_, congrArg _ hsplit.symm, rfl⟩
          · simpa using List.mem_takeWhile_imp hm
          · have hin := List.mem_takeWhile_imp hm
            simp [hc] at hin
        · cases h
      · cases h
    · cases h

theorem variableTerm_takes (s : List Char) : (variableTerm s).Takes tokenNames s := by
  refine .map fun text h => ?_
  obtain ⟨inside, hin, -, hs, rfl⟩ := exists_of_delimited h
  generalize (delimited '(' ')' ['('] s).rest = rest at hs
  subst hs
  refine ⟨fun x hx => ?_, fun _ hrest => .past rfl hin hrest⟩
  obtain rfl := List.mem_singleton.1 hx
  exact ⟨inside, .here hin, rfl⟩

theorem quoted_takes (hq : closing? c = some c) (s : List Char) :
    (delimited c c [] s).Takes (fun _ => []) s := by
  intro text h
  obtain ⟨inside, hin, -, hs, rfl⟩ := exists_of_delimited h
  generalize (delimited c c [] s).rest = rest at hs
  subst hs
  exact .of_rest fun _ hrest => .past hq hin hrest

/-- A term is taken with its name, if it is a variable. -/
theorem term_takes (s : List Char) : (term s).Takes tokenNames s := by
  have h : ((variableTerm s).orElse (constantTerm s)).Takes tokenNames s :=
    (variableTerm_takes s).orElse (.map ((quoted_takes rfl s).orElse (quoted_takes rfl s)))
  intro t ht
  unfold term at ht ⊢
  cases hr : ((variableTerm s).orElse (constantTerm s)).result with
  | none => simp [hr] at ht
  | some u =>
    simp only [hr] at ht ⊢
    obtain rfl := Option.some.inj ht
    exact (h u hr).skip fun _ hin => hin.skipSpaces

/-- The names of a piece. -/
def pieceNames : Piece → List String
  | .word _ => []
  | .term t => tokenNames t

theorem piece_takes (s : List Char) : (piece s).Takes pieceNames s :=
  .orElse (.map (word_takes s)) (.map (term_takes s))

theorem pieces_taken (s : List Char) :
    Taken s ((pieces s).items.flatMap pieceNames) (pieces s).rest := by
  fun_induction pieces s with
  | case1 s p h more ih => exact (piece_takes s p h).trans ih
  | case2 s h => exact .of_rest fun _ hin => hin

/-! ### Statements and lines -/

/-- The variables of a statement, in order. -/
def statementNames (st : Statement) : List String := st.tokens.flatMap tokenNames

theorem mem_statementNames {st : Statement} {x : String} :
    x ∈ statementNames st ↔ .var x ∈ st.tokens := by
  unfold statementNames
  rw [List.mem_flatMap]
  constructor
  · rintro ⟨t, ht, hx⟩
    cases t with
    | var y =>
      obtain rfl := List.mem_singleton.1 hx
      exact ht
    | const v => cases hx
  · exact fun h => ⟨_, h, List.mem_singleton.2 rfl⟩

theorem statementNames_ofPieces (ps : List Piece) :
    statementNames (.ofPieces ps) = ps.flatMap pieceNames := by
  induction ps with
  | nil => rfl
  | cons p ps ih =>
    cases p with
    | word w => exact ih
    | term t => exact congrArg (tokenNames t ++ ·) ih

theorem simple_takes (s : List Char) : (simple s).Takes statementNames s := by
  intro st h
  unfold simple at h ⊢
  simp only at h ⊢
  split_ifs at h ⊢
  · cases h
  · obtain rfl := Option.some.inj h
    rw [statementNames_ofPieces]
    exact (pieces_taken s).skip fun _ hin => hin.skipBreak

/-- A command was read as a word, a colon and a statement. -/
theorem exists_of_commanded {st : Statement} (h : (commanded s).result = some st) :
    ∃ w r target, (word s).Reads w (':' :: r) ∧ w ≠ "" ∧ (simple r).result = some target ∧
      st = target.commanded w ∧ (commanded s).rest = (simple r).rest := by
  have hfails : ¬ (commanded s).result = none := by simp [h]
  by_contra hno
  refine hfails (commanded_fails fun w hw hne hcolon => hno ?_)
  obtain ⟨r, hr⟩ := List.head?_eq_some_iff.1 hcolon
  have hread : (word s).Reads w (':' :: r) := ⟨hw, hr⟩
  have heq := commanded_eq hread hne
  cases ht : (simple r).result with
  | none =>
    rw [heq, ht] at h
    cases h
  | some target =>
    rw [heq, ht] at h
    refine ⟨w, r, target, hread, hne, ht, (Option.some.inj h).symm, ?_⟩
    rw [heq, ht]

/-- A statement was read after spaces and perhaps the mark of denial. -/
theorem exists_of_statement {st : Statement} (h : (statement s).result = some st) :
    ∃ u target negated, (u = skipSpaces s ∨ ∃ r, skipSpaces s = '!' :: r ∧ u = skipSpaces r) ∧
      (unmarked u).Reads target (statement s).rest ∧ st = target.withNegated negated := by
  by_cases hm : (skipSpaces s).head? = some '!'
  · obtain ⟨r, hr⟩ := List.head?_eq_some_iff.1 hm
    cases hu : (unmarked (skipSpaces r)).result with
    | none =>
      rw [statement_fails_marked hr hu] at h
      cases h
    | some target =>
      obtain ⟨hst, hrest⟩ := statement_marked hr ⟨hu, rfl⟩
      refine ⟨_, target, true, .inr ⟨r, hr, rfl⟩, ⟨hu, hrest.symm⟩, ?_⟩
      exact Option.some.inj (h.symm.trans hst)
  · cases hu : (unmarked (skipSpaces s)).result with
    | none =>
      rw [statement_fails_unmarked hm hu] at h
      cases h
    | some target =>
      obtain ⟨hst, hrest⟩ := statement_unmarked hm ⟨hu, rfl⟩
      refine ⟨_, target, false, .inl rfl, ⟨hu, hrest.symm⟩, ?_⟩
      exact Option.some.inj (h.symm.trans hst)

theorem commanded_takes (s : List Char) : (commanded s).Takes statementNames s := by
  intro st h
  obtain ⟨w, r, target, ⟨hw, hcolon⟩, -, ht, rfl, hrest⟩ := exists_of_commanded h
  have hword := word_takes s w hw
  have htarget := simple_takes r target ht
  rw [hcolon] at hword
  rw [hrest]
  exact (hword.skip fun _ hin => .char rfl hin).trans htarget

theorem unmarked_takes (s : List Char) : (unmarked s).Takes statementNames s :=
  (commanded_takes s).orElse (simple_takes s)

theorem statement_takes (s : List Char) : (statement s).Takes statementNames s := by
  intro st h
  obtain ⟨u, target, negated, hu, ⟨ht, hrest⟩, rfl⟩ := exists_of_statement h
  have htarget := unmarked_takes u target ht
  rw [hrest] at htarget
  have hskip : ∀ inside, Spells inside u → Spells inside s := by
    rcases hu with rfl | ⟨r, hr, rfl⟩
    · exact fun _ hin => hin.skipSpaces
    · intro inside hin
      refine Spells.skipSpaces ?_
      rw [hr]
      exact .char rfl hin.skipSpaces
  exact (Taken.of_rest hskip).trans htarget

theorem statements_taken (s : List Char) :
    Taken s ((statements s).items.flatMap statementNames) (statements s).rest := by
  have hskip : Taken s [] (skipSeparators s) := .of_rest fun _ hin => hin.skipSeparators
  fun_induction statements s with
  | case1 s st h more ih =>
    exact hskip.trans ((statement_takes _ st h).trans (ih (.of_rest fun _ hin => hin.skipSeparators)))
  | case2 s h => exact hskip

/-- Names of statements, if they are all spelled. -/
theorem line_taken {input : List Char} {l : Line} (h : line input = .ok l) :
    ∀ st ∈ l.statements, ∀ x ∈ statementNames st, SpellsName x input := by
  have hall : ∀ {sts : List Statement} {rest : List Char},
      Taken input (sts.flatMap statementNames) rest →
        ∀ st ∈ sts, ∀ x ∈ statementNames st, SpellsName x input :=
    fun ht st hst x hx => ht.names x (List.mem_flatMap.2 ⟨st, hst, hx⟩)
  unfold line at h
  simp only [] at h
  split at h
  · cases h
  · rename_i head hh
    have hhead := statement_takes input head hh
    have hskip : Taken input (statementNames head) (skipSeparators (statement input).rest) :=
      hhead.skip fun _ hin => hin.skipSeparators
    have hconjunction : ∀ {misses}, conjunction input head (skipSeparators (statement input).rest)
        misses = .ok l → ∀ st ∈ l.statements, ∀ x ∈ statementNames st, SpellsName x input := by
      intro misses hc
      rw [finish_eq_ok hc, Line.statements_ofStatements]
      exact hall (hskip.trans (statements_taken _))
    split at h
    · exact hconjunction h
    · rename_i r hr
      split at h
      · exact hconjunction h
      · rename_i sts hsts
        rw [finish_eq_ok h]
        exact hall ((hskip.skip fun _ hin => hin.afterIf? hr).trans (statements_taken r))

end Reading

/-- **The variables of a line are spelled in its text.** -/
theorem Line.spells_of_read {text : String} {l : Line} (h : Line.read text = .ok l) {st : Statement}
    (hst : st ∈ l.statements) {x : String} (hx : .var x ∈ st.tokens) :
    Reading.SpellsName x text.toList :=
  Reading.line_taken h st hst x (Reading.mem_statementNames.2 hx)

end PassageLogic
