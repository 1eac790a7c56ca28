import PassageLogic.Proofs.Statement.RoundTrip

/-! # What the grammar gives

The lines that can be read are the well-formed ones (`Line.exists_read_iff`). Every reader is followed
on the way:

* `isBareword_of_word`: a run of letters, digits and spaces stops before the word `if`, so that no word
  of it is `if` once it is trimmed.
* `term_wellFormed`: what stands between delimiters is trimmed and has none of the closing ones.
* `pieces_filling`: as a run takes all the characters that it can, a term stands between any two
  barewords.

In particular statements that were read have words of letters, digits, spaces and placeholders only, and
no parenthesis opens in the names of their variables (`FromText.grammatical`). The names that are
given to nameless variables and to transient rules are therefore no names of statements. -/

namespace PassageLogic

/-! ### Trimmed text -/

namespace Text

/-- Trimming takes blank characters away at both ends. -/
theorem exists_append_trim (cs : List Char) : ∃ as bs, (∀ c ∈ as ++ bs, isBlank c = true) ∧
    cs = as ++ (trim cs ++ bs) := by
  refine ⟨cs.takeWhile isBlank, ((trimFront cs).reverse.takeWhile isBlank).reverse, ?_, ?_⟩
  · intro c hc
    rcases List.mem_append.1 hc with hc | hc
    · exact List.mem_takeWhile_imp hc
    · exact List.mem_takeWhile_imp (List.mem_reverse.1 hc)
  · rw [trim, trimBack, ← List.reverse_append, List.takeWhile_append_dropWhile, List.reverse_reverse,
      trimFront, List.takeWhile_append_dropWhile]

/-- A trimmed text is what trimming leaves of it between blank characters. -/
theorem IsTrimmed.trim_between {as cs bs : List Char} (h : IsTrimmed cs)
    (hblank : ∀ c ∈ as ++ bs, isBlank c = true) : trim (as ++ (cs ++ bs)) = cs := by
  obtain ⟨hfront, hback⟩ := List.forall_mem_append.1 hblank
  have hdrop : trim (as ++ (cs ++ bs)) = trim (cs ++ bs) := by
    unfold trim trimFront
    rw [List.dropWhile_append_of_pos hfront]
  rw [hdrop, h.trim_append hback]

theorem trim_subset (cs : List Char) : trim cs ⊆ cs := by
  intro c hc
  obtain ⟨as, bs, -, he⟩ := exists_append_trim cs
  rw [he]
  exact List.mem_append_right _ (List.mem_append_left _ hc)

theorem isTrimmed_trim (cs : List Char) : IsTrimmed (trim cs) := by
  constructor
  · intro c hc
    refine of_head_dropWhile (p := isBlank) (s := cs) ?_
    have hpre : trim cs <+: trimFront cs := by
      have h := List.dropWhile_suffix isBlank (l := (trimFront cs).reverse)
      rw [← List.reverse_prefix, List.reverse_reverse] at h
      exact h
    obtain ⟨bs, hbs⟩ := hpre
    show (trimFront cs).head? = some c
    rw [← hbs, List.head?_append, hc]
    rfl
  · intro c hc
    refine of_head_dropWhile (p := isBlank) (s := (trimFront cs).reverse) ?_
    rwa [trim, trimBack, List.getLast?_reverse] at hc

end Text

/-! ### Words and terms that fit together -/

namespace Reading

namespace Filling

variable {ws : List String} {ts : List Token}

theorem placed (h : Filling ws ts) : ws.count placeholder = ts.length := by
  induction h with
  | nil => rfl
  | term _ _ ih => rw [List.count_cons_self, ih, List.length_cons]
  | word hw _ _ ih => rw [List.count_cons_of_ne hw.ne_placeholder, ih]

theorem barewords (h : Filling ws ts) : ∀ w ∈ ws, w ≠ placeholder → IsBareword w := by
  induction h with
  | nil => simp
  | term _ _ ih => exact List.forall_mem_cons.2 ⟨fun hne => absurd rfl hne, ih⟩
  | word hw _ _ ih => exact List.forall_mem_cons.2 ⟨fun _ => hw, ih⟩

theorem apart (h : Filling ws ts) :
    ws.IsChain fun v w => v = placeholder ∨ w = placeholder := by
  induction h with
  | nil => exact .nil
  | term _ _ ih => exact List.isChain_cons.2 ⟨fun _ _ => .inl rfl, ih⟩
  | word _ hv _ ih => exact List.isChain_cons.2 ⟨fun v hmem => .inr (hv v hmem), ih⟩

theorem terms (h : Filling ws ts) : ∀ t ∈ ts, t.WellFormed := by
  induction h with
  | nil => simp
  | term ht _ ih => exact List.forall_mem_cons.2 ⟨ht, ih⟩
  | word _ _ _ ih => exact ih

end Filling

/-- Terms fit their placeholders alone. -/
theorem filling_replicate {ts : List Token} (h : ∀ t ∈ ts, t.WellFormed) :
    Filling (List.replicate ts.length placeholder) ts := by
  induction ts with
  | nil => exact .nil
  | cons t ts ih =>
    obtain ⟨ht, hts⟩ := List.forall_mem_cons.1 h
    exact .term ht (ih hts)

end Reading

/-! ### Plain words -/

/-- A character of the words of statements. -/
def IsPlainChar (c : Char) : Prop := Reading.isWordChar c = true ∨ c = ' ' ∨ c = '%'

namespace Statement

/-- The words are plain, and variables have no opening parenthesis in their names. -/
structure Grammatical (st : Statement) : Prop where
  words : ∀ w ∈ st.words, ∀ c ∈ w.toList, IsPlainChar c
  names : ∀ name, .var name ∈ st.tokens → '(' ∉ name.toList

theorem isPlainChar_joinWith {ws : List String} (h : ∀ w ∈ ws, ∀ c ∈ w.toList, IsPlainChar c) :
    ∀ c ∈ (Text.joinWith " " ws).toList, IsPlainChar c := by
  induction ws with
  | nil => simp
  | cons w ws ih =>
    have hrest := ih fun v hv => h v (List.mem_cons_of_mem _ hv)
    cases ws with
    | nil => simpa using h
    | cons v ws =>
      intro c hc
      simp only [Text.joinWith_cons_cons, String.toList_append, List.mem_append] at hc
      rcases hc with (hc | hc) | hc
      · exact h w (by simp) c hc
      · exact .inr (.inl (by simpa using hc))
      · exact hrest c hc

/-- The predicate of a grammatical statement is plain. -/
theorem Grammatical.predicate {st : Statement} (h : st.Grammatical) :
    ∀ c ∈ st.predicate.toList, IsPlainChar c := by
  intro c hc
  unfold Statement.predicate at hc
  rw [Text.toList_trimmed] at hc
  exact isPlainChar_joinWith h.words c (Text.trim_subset _ hc)

namespace WellFormed

open Reading (Filling filling_replicate)

variable {st : Statement}

theorem grammatical (h : st.WellFormed) : st.Grammatical where
  words w hw c hc := by
    by_cases hp : w = placeholder
    · rw [hp] at hc
      exact .inr (.inr (by simpa [placeholder] using hc))
    · exact ((h.barewords w hw hp).plain c hc).imp_right .inl
  names name hn := (h.terms _ hn).2.1

theorem withNegated (h : st.WellFormed) (negated : Bool) : (st.withNegated negated).WellFormed :=
  ⟨h.nonempty, h.placed, h.barewords, h.apart, h.terms⟩

/-- What fits together is well formed. -/
theorem of_filling (h : Filling st.words st.tokens) (hne : st.isEmpty = false) : st.WellFormed :=
  ⟨hne, h.placed, h.barewords, h.apart, h.terms⟩

/-- A command about a well-formed statement is well formed. -/
theorem commanded (h : st.WellFormed) {command : String} (hc : IsBareword command) :
    (st.commanded command).WellFormed := by
  have hcommand : (Token.const command).WellFormed :=
    ⟨hc.isTrimmed, fun hq => absurd (hc.plain '"' hq.1) (by decide)⟩
  have hpredicate : (Token.const st.predicate).WellFormed := by
    refine ⟨?_, fun hq => absurd (h.grammatical.predicate '"' hq.1) ?_⟩
    · rw [Statement.predicate, Text.toList_trimmed]
      exact Text.isTrimmed_trim _
    · unfold IsPlainChar
      decide
  have hterms : ∀ t ∈ Token.const command :: .const st.predicate :: st.tokens, t.WellFormed :=
    List.forall_mem_cons.2 ⟨hcommand, List.forall_mem_cons.2 ⟨hpredicate, h.terms⟩⟩
  refine .of_filling (.word (by decide) (fun v hv => ?_) (filling_replicate hterms)) rfl
  cases hv
  rfl

end WellFormed

end Statement

namespace Reading

open Text

/-! ### Barewords -/

/-- A run goes on with a letter or digit, or with a space that the word `if` does not follow. -/
theorem wordRun_cases (c : Char) (s : List Char) :
    (isWordChar c = true ∧ wordRun (c :: s) = c :: wordRun s) ∨
      (c = ' ' ∧ atIf s = false ∧ wordRun (c :: s) = c :: wordRun s) ∨
        (isWordChar c = false ∧ wordRun (c :: s) = []) := by
  rw [wordRun]
  by_cases hw : isWordChar c = true
  · simp [hw]
  · by_cases hc : c = ' ' ∧ atIf s = false
    · obtain ⟨rfl, hat⟩ := hc
      simp [atIf_space, isSpace, hat]
    · refine .inr (.inr ⟨by simpa using hw, if_neg ?_⟩)
      simp only [hw, Bool.false_or, Bool.and_eq_true, beq_iff_eq, Bool.not_eq_true', not_and]
      rintro rfl hat
      exact hc ⟨rfl, by rwa [atIf_space rfl] at hat⟩

theorem plain_of_mem_wordRun {s : List Char} : ∀ c ∈ wordRun s, isWordChar c = true ∨ c = ' ' := by
  induction s with
  | nil => simp [wordRun]
  | cons d s ih =>
    rcases wordRun_cases d s with ⟨hd, hr⟩ | ⟨hd, -, hr⟩ | ⟨-, hr⟩
    · exact hr ▸ List.forall_mem_cons.2 ⟨.inl hd, ih⟩
    · exact hr ▸ List.forall_mem_cons.2 ⟨.inr hd, ih⟩
    · simp [hr]

/-- A blank character of a run is a space. -/
theorem eq_space_of_mem_wordRun {s : List Char} {c : Char} (hc : c ∈ wordRun s)
    (hb : isBlank c = true) : c = ' ' := by
  rcases plain_of_mem_wordRun c hc with h | h
  · rw [isBlank_of_isWordChar h] at hb
    cases hb
  · exact h

theorem splitOn_cons_of_isWordChar {c : Char} (hc : isWordChar c = true) (cs : List Char) :
    (c :: cs).splitOn ' ' = (cs.splitOn ' ').modifyHead (c :: ·) := by
  rw [List.splitOn_cons_eq_if_modifyHead, if_neg]
  rw [beq_iff_eq]
  rintro rfl
  exact absurd hc (by decide)

theorem splitOn_space (cs : List Char) : (' ' :: cs).splitOn ' ' = [] :: cs.splitOn ' ' :=
  List.splitOn_append_cons_self [] cs

/-- The first word of a run is what the text begins with. -/
theorem head_splitOn_wordRun (s : List Char) :
    ((wordRun s).splitOn ' ').head? = some (s.takeWhile isWordChar) := by
  induction s with
  | nil => rfl
  | cons c s ih =>
    rcases wordRun_cases c s with ⟨hc, hr⟩ | ⟨rfl, -, hr⟩ | ⟨hc, hr⟩
    · rw [hr, splitOn_cons_of_isWordChar hc, List.head?_modifyHead, ih,
        List.takeWhile_cons_of_pos hc]
      rfl
    · rw [hr, splitOn_space, List.takeWhile_cons_of_neg (by decide)]
      rfl
    · rw [hr, List.takeWhile_cons_of_neg (by simp [hc])]
      rfl

theorem atIf_of_takeWhile {s : List Char} (h : s.takeWhile isWordChar = "if".toList) :
    atIf s = true := by
  have hs : s = 'i' :: 'f' :: s.dropWhile isWordChar := by
    conv_lhs => rw [← List.takeWhile_append_dropWhile (p := isWordChar) (l := s), h]
    rfl
  rw [hs]
  cases hr : s.dropWhile isWordChar with
  | nil => rfl
  | cons c r =>
    have hc : isWordChar c = false := of_head_dropWhile (s := s) (by rw [hr]; rfl)
    simp [atIf, afterIf?, skipSpaces, isSpace, hc]

/-- The word `if` is no word of a run if it does not stand at the front and is no later word. -/
theorem if_not_mem_of_tail {s : List Char} (h : atIf s = false)
    (htail : "if".toList ∉ ((wordRun s).splitOn ' ').tail) :
    "if".toList ∉ (wordRun s).splitOn ' ' := by
  intro hm
  have hhead := head_splitOn_wordRun s
  cases hws : (wordRun s).splitOn ' ' with
  | nil => exact absurd hws (List.splitOn_ne_nil _ _)
  | cons w ws =>
    rw [hws] at hm htail hhead
    rcases List.mem_cons.1 hm with rfl | hm
    · rw [atIf_of_takeWhile (Option.some.inj hhead).symm] at h
      cases h
    · exact htail hm

theorem if_not_mem_tail_wordRun (s : List Char) : "if".toList ∉ ((wordRun s).splitOn ' ').tail := by
  induction s with
  | nil => simp [wordRun]
  | cons c s ih =>
    rcases wordRun_cases c s with ⟨hc, hr⟩ | ⟨rfl, hat, hr⟩ | ⟨-, hr⟩
    · rwa [hr, splitOn_cons_of_isWordChar hc, List.tail_modifyHead]
    · rw [hr, splitOn_space]
      exact if_not_mem_of_tail hat ih
    · simp [hr]

theorem mem_splitOn_append {w as bs cs : List Char} (has : ∀ c ∈ as, c = ' ')
    (hbs : ∀ c ∈ bs, c = ' ') (h : w ∈ cs.splitOn ' ') : w ∈ (as ++ (cs ++ bs)).splitOn ' ' := by
  have hright : w ∈ (cs ++ bs).splitOn ' ' := by
    cases bs with
    | nil => rwa [List.append_nil]
    | cons b bs =>
      rw [hbs b List.mem_cons_self, List.splitOn_append_cons_self]
      exact List.mem_append_left _ h
  induction as with
  | nil => exact hright
  | cons a as ih =>
    rw [has a List.mem_cons_self, List.cons_append, splitOn_space]
    exact List.mem_cons_of_mem _ (ih fun c hc => has c (List.mem_cons_of_mem _ hc))

/-- **A bareword that was read is one**, unless it is blank. -/
theorem isBareword_of_word {s : List Char} {w : String} (h : (word s).result = some w)
    (hne : w ≠ "") : IsBareword w := by
  unfold word at h
  split_ifs at h with hat
  · cases h
  · split at h
    · cases h
    · cases h
      have hplain : ∀ c ∈ trim (wordRun s), isWordChar c = true ∨ c = ' ' := fun c hc =>
        plain_of_mem_wordRun c (trim_subset _ hc)
      have htrimmed := isTrimmed_trim (wordRun s)
      constructor
      · exact hne
      · simpa using hplain
      · rw [String.toList_ofList]
        exact fun hc => absurd (htrimmed.1 ' ' hc) (by decide)
      · rw [String.toList_ofList]
        exact fun hc => absurd (htrimmed.2 ' ' hc) (by decide)
      · rw [String.toList_ofList]
        intro hm
        obtain ⟨as, bs, hblank, he⟩ := exists_append_trim (wordRun s)
        have hspace : ∀ c ∈ as ++ bs, c = ' ' := fun c hc =>
          eq_space_of_mem_wordRun (by rw [he]; simp at hc ⊢; tauto) (hblank c hc)
        refine if_not_mem_of_tail (by simpa using hat) (if_not_mem_tail_wordRun s) ?_
        rw [he]
        exact mem_splitOn_append (fun c hc => hspace c (List.mem_append_left _ hc))
          (fun c hc => hspace c (List.mem_append_right _ hc)) hm

/-- A bareword takes its run. -/
theorem rest_word {s : List Char} {w : String} (h : (word s).result = some w) :
    (word s).rest = s.drop (wordRun s).length := by
  unfold word at h ⊢
  split_ifs at h ⊢
  · cases h
  · split at h
    · cases h
    · rename_i hr
      rfl

/-- After a bareword there is no other one. -/
theorem word_fails_of_word {s : List Char} {w : String} (h : (word s).result = some w) :
    (word (word s).rest).result = none := by
  refine word_fails_of_wordRun ?_
  rw [rest_word h]
  exact wordRun_drop s

/-! ### Terms -/

theorem result_map_eq_some {α β : Type} {a : Attempt α} {f : α → β} {y : β}
    (h : (a.map f).result = some y) : ∃ x, a.result = some x ∧ f x = y :=
  Option.map_eq_some_iff.1 h

theorem result_orElse_eq_some {α : Type} {a b : Attempt α} {x : α}
    (h : (a.orElse b).result = some x) : a.result = some x ∨ b.result = some x := by
  unfold Attempt.orElse at h
  split at h
  · exact .inl h
  · exact .inr h

/-- What was read between delimiters is trimmed, and holds no character that may not stand there. -/
theorem isTrimmed_of_delimited {o c : Char} {b s : List Char} {text : String}
    (h : (delimited o c b s).result = some text) :
    IsTrimmed text.toList ∧ ∀ d ∈ c :: b, d ∉ text.toList := by
  unfold delimited at h
  split at h
  · cases h
  · rename_i e r
    split_ifs at h
    · simp only [] at h
      split at h
      · split_ifs at h
        · cases h
          rw [String.toList_ofList]
          refine ⟨isTrimmed_trim _, fun d hd hm => ?_⟩
          have hin := List.mem_takeWhile_imp (trim_subset _ hm)
          simp only [Bool.not_eq_true', Bool.or_eq_false_iff, beq_eq_false_iff_ne] at hin
          rcases List.mem_cons.1 hd with rfl | hd
          · exact hin.1 rfl
          · simp [hd] at hin
        · cases h
      · cases h
    · cases h

/-- **A term that was read fits between its delimiters.** -/
theorem term_wellFormed {s : List Char} {t : Token} (h : (term s).result = some t) :
    t.WellFormed := by
  have h' : ((variableTerm s).orElse (constantTerm s)).result = some t := by
    unfold term at h
    simp only [] at h
    split at h
    · exact h
    · exact h
  rcases result_orElse_eq_some h' with h' | h'
  · obtain ⟨name, hname, rfl⟩ := result_map_eq_some h'
    obtain ⟨ht, hno⟩ := isTrimmed_of_delimited hname
    exact ⟨ht, hno '(' (by simp), hno ')' (by simp)⟩
  · obtain ⟨value, hvalue, rfl⟩ := result_map_eq_some h'
    rcases result_orElse_eq_some hvalue with hvalue | hvalue
    · obtain ⟨ht, hno⟩ := isTrimmed_of_delimited hvalue
      exact ⟨ht, fun hq => hno '"' (by simp) hq.1⟩
    · obtain ⟨ht, hno⟩ := isTrimmed_of_delimited hvalue
      exact ⟨ht, fun hq => hno '\'' (by simp) hq.2⟩

/-! ### Statements -/

/-- **The pieces of a run fit together**: a term for each placeholder, and no bareword after another
one, nor at the front if none was read there. -/
theorem pieces_filling (s : List Char) :
    Filling ((pieces s).items.filterMap Piece.word?) ((pieces s).items.filterMap Piece.token?) ∧
      ((word s).result = none → ∀ v,
        ((pieces s).items.filterMap Piece.word?).head? = some v → v = placeholder) := by
  fun_induction pieces s with
  | case1 s p h more ih =>
    cases hw : (word s).result with
    | some w =>
      have hpiece : piece s = (word s).map Piece.word := by
        simp [piece, Attempt.orElse, Attempt.map, hw]
      have hp : p = .word w := by
        rw [hpiece] at h
        simpa [Attempt.map, hw] using h.symm
      have hrest : (piece s).rest = (word s).rest := by rw [hpiece]; rfl
      subst hp
      obtain ⟨hfill, hhead⟩ := ih
      refine ⟨?_, fun hno => by cases hno⟩
      by_cases hne : w = ""
      · have hword : (Piece.word w).word? = none := if_pos hne
        rw [List.filterMap_cons_none hword, List.filterMap_cons_none rfl]
        exact hfill
      · have hword : (Piece.word w).word? = some w := if_neg hne
        rw [List.filterMap_cons_some hword, List.filterMap_cons_none rfl]
        exact .word (isBareword_of_word hw hne)
          (hhead (by rw [hrest]; exact word_fails_of_word hw)) hfill
    | none =>
      obtain ⟨t, ht, rfl⟩ : ∃ t, (term s).result = some t ∧ Piece.term t = p := by
        rcases result_orElse_eq_some h with h | h
        · rw [result_map_eq_none _ hw] at h
          cases h
        · exact result_map_eq_some h
      refine ⟨.term (term_wellFormed ht) ih.1, fun _ v hv => ?_⟩
      cases hv
      rfl
  | case2 s h => exact ⟨.nil, fun _ v hv => by cases hv⟩

theorem simple_wellFormed {s : List Char} {st : Statement} (h : (simple s).result = some st) :
    st.WellFormed := by
  unfold simple at h
  simp only [] at h
  split_ifs at h with he
  · cases h
  · cases h
    exact .of_filling (pieces_filling s).1 (by simpa using he)

theorem commanded_wellFormed {s : List Char} {st : Statement}
    (h : (commanded s).result = some st) : st.WellFormed := by
  unfold commanded at h
  simp only [] at h
  split at h
  · cases h
  · rename_i command hcommand
    split_ifs at h with hne
    · cases h
    · split at h
      · split at h
        · rename_i target htarget
          cases h
          exact (simple_wellFormed htarget).commanded (isBareword_of_word hcommand hne)
        · cases h
      · cases h

theorem unmarked_wellFormed {s : List Char} {st : Statement}
    (h : (unmarked s).result = some st) : st.WellFormed := by
  rcases result_orElse_eq_some h with h | h
  · exact commanded_wellFormed h
  · exact simple_wellFormed h

theorem statement_wellFormed {s : List Char} {st : Statement}
    (h : (statement s).result = some st) : st.WellFormed := by
  unfold statement at h
  split at h
  · simp only [] at h
    split at h
    · rename_i target ht
      cases h
      exact (unmarked_wellFormed ht).withNegated true
    · cases h
  · simp only [Attempt.after] at h
    split at h
    · rename_i target ht
      cases h
      exact (unmarked_wellFormed ht).withNegated false
    · cases h

theorem statements_wellFormed (s : List Char) : ∀ st ∈ (statements s).items, st.WellFormed := by
  fun_induction statements s with
  | case1 s st h more ih => exact List.forall_mem_cons.2 ⟨statement_wellFormed h, ih⟩
  | case2 s h => simp

/-! ### Lines -/

theorem finish_eq_ok {input rest : List Char} {l l' : Line} {misses : List Miss}
    (h : finish input l rest misses = .ok l') : l' = l := by
  unfold finish at h
  split at h
  · cases h
    rfl
  · cases h

theorem conjunction_wellFormed {input s : List Char} {head : Statement} {misses : List Miss}
    {l : Line} (hh : head.WellFormed) (h : conjunction input head s misses = .ok l) :
    l.WellFormed := by
  have hsts := statements_wellFormed s
  rw [finish_eq_ok h]
  cases hmore : (statements s).items with
  | nil => exact hh
  | cons st sts => exact ⟨by simp, List.forall_mem_cons.2 ⟨hh, hmore ▸ hsts⟩⟩

theorem line_wellFormed {input : List Char} {l : Line} (h : line input = .ok l) : l.WellFormed := by
  unfold line at h
  simp only [] at h
  split at h
  · cases h
  · rename_i head hh
    have hhead := statement_wellFormed hh
    split at h
    · exact conjunction_wellFormed hhead h
    · rename_i r hr
      split at h
      · exact conjunction_wellFormed hhead h
      · rename_i sts hsts
        rw [finish_eq_ok h]
        exact ⟨hhead, hsts, statements_wellFormed r⟩

end Reading

theorem Line.WellFormed.statements {l : Line} (h : l.WellFormed) :
    ∀ st ∈ l.statements, st.WellFormed := by
  cases l with
  | claim st => exact List.forall_mem_singleton.2 h
  | rule head body => exact List.forall_mem_cons.2 ⟨h.1, h.2.2⟩
  | conjunction sts => exact h.2

/-- **The lines that can be read are the well-formed ones.** -/
theorem Line.exists_read_iff (l : Line) : (∃ text, Line.read text = .ok l) ↔ l.WellFormed := by
  constructor
  · rintro ⟨text, h⟩
    exact Reading.line_wellFormed h
  · intro hl
    exact ⟨l.display ++ "", hl.read_eq hl.written_display fun c hc => by simp at hc⟩

/-! ### Statements that were read -/

/-- Some line of text holds the statement. -/
def Statement.FromText (st : Statement) : Prop :=
  ∃ text l, Line.read text = .ok l ∧ st ∈ l.statements

/-- **Statements that were read are grammatical.** -/
theorem Statement.FromText.grammatical {st : Statement} (h : st.FromText) : st.Grammatical := by
  obtain ⟨text, l, hl, hst⟩ := h
  exact (Line.WellFormed.statements (Reading.line_wellFormed hl) st hst).grammatical

end PassageLogic
