import PassageLogic.Proofs.Statement.WellFormed
import Mathlib.Data.List.TakeWhile

/-! # Pieces read back

A bareword or a term at the front of a text is read as what was written, whatever follows it, as long
as what follows cannot be taken for more of it. A bareword takes the spaces after it as well, except
before the word `if`, and a term takes all spaces and tabs. -/

namespace PassageLogic

/-! ### Trimming -/

namespace Text

theorem dropWhile_of_head {p : Char → Bool} {s : List Char}
    (h : ∀ c, s.head? = some c → p c = false) : s.dropWhile p = s := by
  cases s with
  | nil => rfl
  | cons c s =>
    have hc : ¬ p c = true := by simp [h c rfl]
    exact List.dropWhile_cons_of_neg hc

theorem of_head_dropWhile {p : Char → Bool} {s : List Char} {c : Char}
    (h : (s.dropWhile p).head? = some c) : p c = false := by
  have := List.head?_dropWhile_not p s
  rw [h] at this
  simpa using this

/-- Blank characters after a trimmed text are trimmed away. -/
theorem IsTrimmed.trim_append {cs bs : List Char} (h : IsTrimmed cs)
    (hb : ∀ c ∈ bs, isBlank c = true) : trim (cs ++ bs) = cs := by
  have hback : trimBack (cs ++ bs) = cs := by
    unfold trimBack
    rw [List.reverse_append, List.dropWhile_append_of_pos (by simpa using hb),
      dropWhile_of_head (by simpa [List.head?_reverse] using h.2), List.reverse_reverse]
  unfold trim trimFront
  cases cs with
  | nil =>
    rw [List.nil_append, List.dropWhile_eq_nil_iff.2 hb]
    rfl
  | cons c cs =>
    rw [List.cons_append, List.dropWhile_cons_of_neg (by simp [h.1 c rfl]), ← List.cons_append,
      hback]

theorem IsTrimmed.trim_eq {cs : List Char} (h : IsTrimmed cs) : trim cs = cs := by
  have ht : trim (cs ++ []) = cs := h.trim_append (by simp)
  rwa [List.append_nil] at ht

end Text

namespace Reading

open Text

/-! ### Outcomes -/

/-- The reader takes this and leaves these characters. -/
def Attempt.Reads {α : Type} (a : Attempt α) (x : α) (rest : List Char) : Prop :=
  a.result = some x ∧ a.rest = rest

namespace Attempt.Reads

variable {α β : Type} {a b : Attempt α} {x : α} {rest : List Char}

theorem map (f : α → β) (h : a.Reads x rest) : (a.map f).Reads (f x) rest := by
  obtain ⟨hx, hr⟩ := h
  exact ⟨by simp [Attempt.map, hx], hr⟩

theorem orElse (h : a.Reads x rest) : (a.orElse b).Reads x rest := by
  have : a.orElse b = a := by simp [Attempt.orElse, h.1]
  rwa [this]

theorem orElse_of_fails (ha : a.result = none) (h : b.Reads x rest) : (a.orElse b).Reads x rest := by
  have : a.orElse b = b.after a.misses := by simp [Attempt.orElse, ha]
  rwa [this]

end Attempt.Reads

theorem result_map_eq_none {α β : Type} {a : Attempt α} (f : α → β) (h : a.result = none) :
    (a.map f).result = none := by
  simp [Attempt.map, h]

theorem result_orElse_eq_none {α : Type} {a b : Attempt α} (ha : a.result = none)
    (hb : b.result = none) : (a.orElse b).result = none := by
  have : a.orElse b = b.after a.misses := by simp [Attempt.orElse, ha]
  rwa [this]

/-! ### The word `if` -/

theorem isSpace_of_isWordChar {c : Char} (h : isWordChar c = true) : isSpace c = false := by
  by_contra hs
  have hc : c = ' ' ∨ c = '\t' := by simpa [isSpace, or_iff_not_imp_left] using hs
  rcases hc with rfl | rfl <;> exact absurd h (by decide)

theorem isBlank_of_isWordChar {c : Char} (h : isWordChar c = true) : isBlank c = false := by
  have hc : ((decide (65 ≤ c.val ∧ c.val ≤ 90) || (decide (97 ≤ c.val) && decide (c.val ≤ 122))) ||
      (decide (48 ≤ c.val) && decide (c.val ≤ 57))) = true := h
  simp only [Bool.or_eq_true, Bool.and_eq_true, decide_eq_true_eq, UInt32.le_iff_toNat_le,
    UInt32.reduceToNat] at hc
  simp only [isBlank, Bool.or_eq_false_iff, Bool.and_eq_false_iff, decide_eq_false_iff_not,
    beq_eq_false_iff_ne, ne_eq, UInt32.le_iff_toNat_le, ← UInt32.toNat_inj, UInt32.reduceToNat]
  omega

theorem atIf_space {c : Char} (hc : isSpace c = true) (s : List Char) : atIf (c :: s) = atIf s := by
  unfold atIf afterIf? skipSpaces
  rw [List.dropWhile_cons_of_pos hc]

theorem atIf_of_head {s : List Char}
    (h : ∀ c, s.head? = some c → isSpace c = false ∧ c ≠ 'i') : atIf s = false := by
  unfold atIf afterIf? skipSpaces
  rw [dropWhile_of_head fun c hc => (h c hc).1]
  cases s with
  | nil => rfl
  | cons c s =>
    have := (h c rfl).2
    split
    · rename_i he
      cases he
      exact absurd rfl this
    · rfl

theorem head_of_atIf {c : Char} {s : List Char} (hc : isSpace c = false) (h : atIf (c :: s) = true) :
    ∃ r, c :: s = 'i' :: 'f' :: r ∧ ∀ d, r.head? = some d → isWordChar d = false := by
  unfold atIf afterIf? skipSpaces at h
  rw [List.dropWhile_cons_of_neg (by simp [hc])] at h
  split at h
  · rename_i r he
    refine ⟨r, he, ?_⟩
    intro d hd
    obtain ⟨t, rfl⟩ : ∃ t, r = d :: t := by
      cases r with
      | nil => cases hd
      | cons e t => exact ⟨t, by rw [Option.some.inj hd]⟩
    by_contra hw
    simp [hw] at h
  · cases h

/-- The word `if` does not stand before text that has no such word among its pieces. -/
theorem not_atIf_append {cs s : List Char} (hne : cs ≠ [])
    (hplain : ∀ c ∈ cs, isWordChar c = true ∨ c = ' ') (hback : cs.getLast? ≠ some ' ')
    (hif : "if".toList ∉ cs.splitOn ' ') (hs : ∀ c, s.head? = some c → isWordChar c = false) :
    atIf (cs ++ s) = false := by
  induction cs with
  | nil => exact absurd rfl hne
  | cons c cs ih =>
    rcases hplain c (by simp) with hc | rfl
    · by_contra hat
      obtain ⟨r, he, hr⟩ := head_of_atIf (isSpace_of_isWordChar hc) (by simpa using hat)
      rcases cs with _ | ⟨d, _ | ⟨e, cs⟩⟩
      · cases he
        exact absurd (hs 'f' rfl) (by decide)
      · cases he
        exact hif (by decide)
      · cases he
        rcases hplain e (by simp) with he | rfl
        · exact absurd (hr e rfl) (by simp [he])
        · refine hif ?_
          simp [List.splitOn_cons_eq_if_modifyHead]
    · have hcs : cs ≠ [] := by
        rintro rfl
        exact hback rfl
      rw [List.cons_append, atIf_space rfl]
      refine ih hcs (fun d hd => hplain d (by simp [hd])) ?_ ?_
      · rwa [List.getLast?_cons_of_ne_nil hcs] at hback
      · simp only [List.splitOn_cons_eq_if_modifyHead, beq_self_eq_true, if_true] at hif
        exact fun h => hif (List.mem_cons_of_mem _ h)

/-! ### Barewords -/

theorem wordRun_prefix (s : List Char) : wordRun s ++ s.drop (wordRun s).length = s := by
  induction s with
  | nil => rfl
  | cons c s ih =>
    unfold wordRun
    split
    · simp [ih]
    · rfl

theorem wordRun_append {cs s : List Char}
    (hplain : ∀ c ∈ cs, isWordChar c = true ∨ c = ' ') (hback : cs.getLast? ≠ some ' ')
    (hif : "if".toList ∉ (cs.splitOn ' ').tail) (hs : ∀ c, s.head? = some c → isWordChar c = false) :
    wordRun (cs ++ s) = cs ++ wordRun s := by
  induction cs with
  | nil => rfl
  | cons c cs ih =>
    have hback' : cs.getLast? ≠ some ' ' := by
      intro h
      cases cs with
      | nil => cases h
      | cons d cs => exact hback (by rwa [List.getLast?_cons_cons])
    have hplain' : ∀ d ∈ cs, isWordChar d = true ∨ d = ' ' := fun d hd => hplain d (by simp [hd])
    rw [List.splitOn_cons_eq_if_modifyHead] at hif
    rw [List.cons_append, wordRun]
    rcases hplain c (by simp) with hc | rfl
    · have hne : (c == ' ') = false := by
        refine beq_false_of_ne ?_
        rintro rfl
        exact absurd hc (by decide)
      rw [hne, if_neg (by decide), List.tail_modifyHead] at hif
      rw [hc, Bool.true_or, if_pos rfl, ih hplain' hback' hif, List.cons_append]
    · have hcs : cs ≠ [] := by
        rintro rfl
        exact hback rfl
      have hif' : "if".toList ∉ cs.splitOn ' ' := hif
      have hat : atIf (' ' :: (cs ++ s)) = false := by
        rw [atIf_space rfl]
        exact not_atIf_append hcs hplain' hback' hif' hs
      rw [hat, if_pos (by decide),
        ih hplain' hback' (fun h => hif' (List.mem_of_mem_tail h)), List.cons_append]

end Reading

namespace IsBareword

open Reading Text

variable {w : String}

theorem ne_nil (h : IsBareword w) : w.toList ≠ [] := by
  intro hw
  exact h.nonempty (String.toList_eq_nil_iff.1 hw)

/-- A bareword begins with a letter or a digit. -/
theorem exists_first (h : IsBareword w) : ∃ c cs, w.toList = c :: cs ∧ isWordChar c = true := by
  obtain ⟨c, cs, hc⟩ := List.exists_cons_of_ne_nil h.ne_nil
  refine ⟨c, cs, hc, (h.plain c (by simp [hc])).resolve_right ?_⟩
  rintro rfl
  exact h.front (by rw [hc]; rfl)

theorem ne_placeholder (h : IsBareword w) : w ≠ placeholder := by
  rintro rfl
  exact absurd (h.plain '%' (by decide)) (by decide)

theorem isTrimmed (h : IsBareword w) : IsTrimmed w.toList := by
  constructor
  · intro c hc
    rcases h.plain c (List.mem_of_mem_head? hc) with hw | rfl
    · exact isBlank_of_isWordChar hw
    · exact absurd hc h.front
  · intro c hc
    rcases h.plain c (List.mem_of_mem_getLast? hc) with hw | rfl
    · exact isBlank_of_isWordChar hw
    · exact absurd hc h.back

theorem not_atIf (h : IsBareword w) {s : List Char}
    (hs : ∀ c, s.head? = some c → isWordChar c = false) : atIf (w.toList ++ s) = false :=
  not_atIf_append h.ne_nil h.plain h.back h.notIf hs

/-- **A bareword is read back**, with the spaces after it. -/
theorem word_reads (h : IsBareword w) {s : List Char}
    (hs : ∀ c, s.head? = some c → isWordChar c = false) (hrun : ∀ c ∈ wordRun s, c = ' ') :
    (word (w.toList ++ s)).Reads w (s.drop (wordRun s).length) := by
  have hr : wordRun (w.toList ++ s) = w.toList ++ wordRun s :=
    wordRun_append h.plain h.back (fun hm => h.notIf (List.mem_of_mem_tail hm)) hs
  have ht : trim (w.toList ++ wordRun s) = w.toList :=
    h.isTrimmed.trim_append fun c hc => by rw [hrun c hc]; rfl
  have hw : word (w.toList ++ s) = .ok w (s.drop (wordRun s).length) := by
    unfold word
    rw [h.not_atIf hs, if_neg (by decide), hr]
    split
    · rename_i he
      exact absurd (List.append_eq_nil_iff.1 he).1 h.ne_nil
    · rw [ht, List.length_append, List.drop_append, List.drop_eq_nil_of_le (by omega),
        Nat.add_sub_cancel_left, List.nil_append, String.ofList_toList]
  rw [hw]
  exact ⟨rfl, rfl⟩

end IsBareword

namespace Reading

open Text

/-! ### Terms -/

theorem delimited_fails {o c : Char} {b s : List Char} (h : s.head? ≠ some o) :
    (delimited o c b s).result = none := by
  cases s with
  | nil => rfl
  | cons d s =>
    have hd : d ≠ o := fun he => h (by rw [he]; rfl)
    unfold delimited
    simp only [if_neg hd]
    rfl

/-- Text between two delimiters is read up to the closing one, and trimmed. -/
theorem delimited_closed {o c : Char} {b cs s : List Char} (hin : ∀ d ∈ cs, d ≠ c ∧ d ∉ b) :
    (delimited o c b (o :: (cs ++ c :: s))).Reads (String.ofList (trim cs)) s := by
  have hall : ∀ d ∈ cs, (!(d == c || b.contains d)) = true := by
    intro d hd
    obtain ⟨h1, h2⟩ := hin d hd
    simp [h1, h2]
  have hdrop : (c :: s).dropWhile (fun d => !(d == c || b.contains d)) = c :: s :=
    List.dropWhile_cons_of_neg (by simp)
  have htake : (c :: s).takeWhile (fun d => !(d == c || b.contains d)) = [] :=
    List.takeWhile_cons_of_neg (by simp)
  have hd : delimited o c b (o :: (cs ++ c :: s)) = .ok (String.ofList (trim cs)) s := by
    unfold delimited
    simp only [if_true]
    rw [List.dropWhile_append_of_pos hall, List.takeWhile_append_of_pos hall, hdrop, htake,
      List.append_nil]
    simp only [if_true]
  rw [hd]
  exact ⟨rfl, rfl⟩

/-- **Trimmed text between two delimiters is read back.** -/
theorem delimited_reads {o c : Char} {b cs s : List Char} (ht : IsTrimmed cs)
    (hin : ∀ d ∈ cs, d ≠ c ∧ d ∉ b) :
    (delimited o c b (o :: (cs ++ c :: s))).Reads (String.ofList cs) s := by
  have h := delimited_closed (o := o) (s := s) hin
  rwa [ht.trim_eq] at h

theorem variableTerm_reads {name : String} (h : (Token.var name).WellFormed) (s : List Char) :
    (variableTerm ((Token.var name).display.toList ++ s)).Reads (.var name) s := by
  obtain ⟨ht, ho, hc⟩ := h
  have hs : (Token.var name).display.toList ++ s = '(' :: (name.toList ++ ')' :: s) := by
    simp [Token.display]
  have hin : ∀ d ∈ name.toList, d ≠ ')' ∧ d ∉ ['('] := by
    intro d hd
    refine ⟨fun he => hc (he ▸ hd), ?_⟩
    rw [List.mem_singleton]
    exact fun he => ho (he ▸ hd)
  have hr := (delimited_reads (o := '(') (s := s) ht hin).map Token.var
  rwa [String.ofList_toList, ← hs] at hr

theorem constantTerm_reads {value : String} (h : (Token.const value).WellFormed) (s : List Char) :
    (constantTerm ((Token.const value).display.toList ++ s)).Reads (.const value) s := by
  obtain ⟨ht, hq⟩ := h
  by_cases hd : '"' ∈ value.toList
  · have hs : (Token.const value).display.toList ++ s = '\'' :: (value.toList ++ '\'' :: s) := by
      simp [Token.display, hd]
    have hin : ∀ d ∈ value.toList, d ≠ '\'' ∧ d ∉ ([] : List Char) := by
      intro d hm
      exact ⟨fun he => hq ⟨hd, he ▸ hm⟩, List.not_mem_nil⟩
    have hr := delimited_reads (o := '\'') (s := s) ht hin
    rw [String.ofList_toList, ← hs] at hr
    refine (Attempt.Reads.orElse_of_fails (delimited_fails ?_) hr).map Token.const
    rw [hs]
    simp
  · have hs : (Token.const value).display.toList ++ s = '"' :: (value.toList ++ '"' :: s) := by
      simp [Token.display, hd]
    have hin : ∀ d ∈ value.toList, d ≠ '"' ∧ d ∉ ([] : List Char) := by
      intro d hm
      exact ⟨fun he => hd (he ▸ hm), List.not_mem_nil⟩
    have hr := delimited_reads (o := '"') (s := s) ht hin
    rw [String.ofList_toList, ← hs] at hr
    exact hr.orElse.map Token.const

theorem term_of_reads {s r : List Char} {t : Token}
    (h : ((variableTerm s).orElse (constantTerm s)).Reads t r) : (term s).Reads t (skipSpaces r) := by
  obtain ⟨hx, hrest⟩ := h
  unfold term
  simp only [hx]
  exact ⟨rfl, by rw [hrest]⟩

/-- **A term is read back**, with the spaces and tabs after it. -/
theorem term_reads {t : Token} (h : t.WellFormed) (s : List Char) :
    (term (t.display.toList ++ s)).Reads t (skipSpaces s) := by
  refine term_of_reads ?_
  cases t with
  | var name => exact (variableTerm_reads h s).orElse
  | const value =>
    refine .orElse_of_fails (result_map_eq_none _ (delimited_fails ?_)) (constantTerm_reads h s)
    by_cases hd : '"' ∈ value.toList <;> simp [Token.display, hd]

end Reading
end PassageLogic
