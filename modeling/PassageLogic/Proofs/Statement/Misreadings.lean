import PassageLogic.Proofs.Statement.Viability

/-! # Misreadings are sound

The report on a line that was not read (`Line.misreading_sound`) gives a position in the text, in bytes
and as a line and a column, and the character there. It names at least one expectation, in order and each
once, and the text up to the position goes on to a line with each of them. -/

namespace PassageLogic

/-! ### The order of expectations -/

namespace Expectation

variable {a b c : Expectation}

theorem le_iff : a.le b = true ↔ a.rank < b.rank ∨ a.rank = b.rank ∧ a.label ≤ b.label := by
  simp [le]

theorem le_trans (hab : a.le b = true) (hbc : b.le c = true) : a.le c = true := by
  rw [le_iff] at hab hbc ⊢
  rcases hab with hab | ⟨hab, hl⟩ <;> rcases hbc with hbc | ⟨hbc, hl'⟩
  · exact .inl (hab.trans hbc)
  · exact .inl (hbc ▸ hab)
  · exact .inl (hab ▸ hbc)
  · exact .inr ⟨hab.trans hbc, String.le_trans hl hl'⟩

theorem le_total (a b : Expectation) : (a.le b || b.le a) = true := by
  rw [Bool.or_eq_true, le_iff, le_iff]
  rcases lt_trichotomy a.rank b.rank with h | h | h
  · exact .inl (.inl h)
  · exact (String.le_total a.label b.label).imp (fun hl => .inr ⟨h, hl⟩) fun hl => .inr ⟨h.symm, hl⟩
  · exact .inr (.inl h)

/-- Expectations of one kind with one label are the same. -/
theorem eq_of_rank (h : a.rank = b.rank) (hl : a.label = b.label) : a = b := by
  cases a <;> cases b <;> simp_all [rank, label]

theorem le_antisymm (hab : a.le b = true) (hba : b.le a = true) : a = b := by
  rw [le_iff] at hab hba
  rcases hab with hab | ⟨hab, hl⟩
  · rcases hba with hba | ⟨hba, -⟩ <;> omega
  · refine eq_of_rank hab (String.le_antisymm hl (hba.resolve_left ?_).2)
    omega

/-- One after the other in the order. -/
def Before (a b : Expectation) : Prop := a.le b = true ∧ a ≠ b

theorem Before.trans (hab : Before a b) (hbc : Before b c) : Before a c :=
  ⟨le_trans hab.1 hbc.1, fun he => hab.2 (le_antisymm hab.1 (he ▸ hbc.1))⟩

/-- The scan of ordered expectations keeps the first one, and drops repetitions of what it kept. -/
theorem eraseReps_loop (es : List Expectation) : ∀ e acc, (e :: es).Pairwise (le · ·) →
    ∃ out, List.eraseRepsBy.loop (· == ·) e es acc = acc.reverse ++ e :: out ∧ out ⊆ es ∧
      (e :: out).Pairwise Before := by
  induction es with
  | nil =>
    exact fun e acc _ => ⟨[], by simp [List.eraseRepsBy.loop], List.nil_subset _,
      List.pairwise_singleton _ _⟩
  | cons b es ih =>
    intro a acc h
    obtain ⟨hle, hrest⟩ := List.pairwise_cons.1 h
    by_cases hab : a = b
    · subst hab
      obtain ⟨out, hloop, hsub, hbefore⟩ := ih a acc hrest
      refine ⟨out, ?_, List.subset_cons_of_subset _ hsub, hbefore⟩
      simpa only [List.eraseRepsBy.loop, beq_self_eq_true] using hloop
    · obtain ⟨out, hloop, hsub, hbefore⟩ := ih b (a :: acc) hrest
      have hfirst : Before a b := ⟨hle b List.mem_cons_self, hab⟩
      refine ⟨b :: out, ?_, List.cons_subset_cons _ hsub, List.pairwise_cons.2 ⟨?_, hbefore⟩⟩
      · have hbeq : (a == b) = false := beq_false_of_ne hab
        simpa only [List.eraseRepsBy.loop, hbeq, List.reverse_cons, List.append_assoc,
          List.cons_append, List.nil_append] using hloop
      · refine List.forall_mem_cons.2 ⟨hfirst, fun x hx => ?_⟩
        exact hfirst.trans ((List.pairwise_cons.1 hbefore).1 x hx)

/-- **Sorted expectations are ones that there are, in order and each once.** -/
theorem sorted_spec (es : List Expectation) :
    (sorted es).Pairwise Before ∧ sorted es ⊆ es ∧ (es ≠ [] → sorted es ≠ []) := by
  have hpairwise : (es.mergeSort le).Pairwise (fun a b => a.le b = true) :=
    @List.pairwise_mergeSort _ le (fun _ _ _ => le_trans) le_total es
  have hmem : ∀ e ∈ es.mergeSort le, e ∈ es := fun e he => List.mem_mergeSort.1 he
  cases hes : es.mergeSort le with
  | nil =>
    have hlen : (es.mergeSort le).length = es.length := List.length_mergeSort es
    rw [hes] at hlen
    obtain rfl := List.length_eq_zero_iff.1 hlen.symm
    have hnil : sorted [] = [] := by rw [sorted, hes]; rfl
    rw [hnil]
    exact ⟨.nil, List.nil_subset _, id⟩
  | cons e rest =>
    rw [hes] at hpairwise hmem
    obtain ⟨out, hloop, hsub, hbefore⟩ := eraseReps_loop rest e [] hpairwise
    have hsorted : sorted es = e :: out := by
      rw [sorted, hes]
      exact hloop
    rw [hsorted]
    refine ⟨hbefore, fun x hx => hmem x ?_, fun _ => List.cons_ne_nil _ _⟩
    exact List.cons_subset_cons e hsub hx

end Expectation

/-! ### The report -/

namespace Reading

variable {input : List Char} {misses : List Miss}

/-- The least that is left is what is left at a miss, or `n`. -/
theorem leastLeft_spec (misses : List Miss) : ∀ n,
    (leastLeft n misses = n ∨ ∃ m ∈ misses, m.rest.length = leastLeft n misses) ∧
      leastLeft n misses ≤ n ∧ ∀ m ∈ misses, leastLeft n misses ≤ m.rest.length := by
  induction misses with
  | nil => exact fun n => ⟨.inl rfl, le_rfl, by simp⟩
  | cons m misses ih =>
    intro n
    obtain ⟨hmem, hn, hle⟩ := ih (min n m.rest.length)
    have heq : leastLeft n (m :: misses) = leastLeft (min n m.rest.length) misses := rfl
    rw [heq]
    refine ⟨?_, hn.trans (min_le_left _ _), List.forall_mem_cons.2 ⟨hn.trans (min_le_right _ _), hle⟩⟩
    rcases hmem with hmem | ⟨m', hm', he⟩
    · rcases Nat.le_total n m.rest.length with h | h
      · exact .inl (hmem.trans (min_eq_left h))
      · exact .inr ⟨m, List.mem_cons_self, (hmem.trans (min_eq_right h)).symm⟩
    · exact .inr ⟨m', List.mem_cons_of_mem _ hm', he⟩

/-- **A report names the expectations at one place**, which is that of a miss. -/
theorem report_spec (hne : misses ≠ []) (h : ∀ m ∈ misses, ∃ u, input = u ++ m.rest) :
    ∃ before after, input = before ++ after ∧
      (report input misses).offset = Misreading.byteCount before ∧
      (report input misses).line = Misreading.lineAfter before ∧
      (report input misses).column = Misreading.columnAfter before ∧
      (report input misses).found = after.head? ∧
      (report input misses).expected ≠ [] ∧ (report input misses).expected.Pairwise Expectation.Before ∧
      ∀ e ∈ (report input misses).expected, ∃ m ∈ misses, m.rest = after ∧ m.expected = e := by
  obtain ⟨hmem, -, hle⟩ := leastLeft_spec misses input.length
  have hlen : ∀ m ∈ misses, m.rest.length ≤ input.length := by
    intro m hm
    obtain ⟨u, hu⟩ := h m hm
    rw [hu, List.length_append]
    omega
  obtain ⟨m, hm, hleft⟩ : ∃ m ∈ misses, m.rest.length = leastLeft input.length misses := by
    rcases hmem with hmem | hmem
    · obtain ⟨m, hm⟩ := List.exists_mem_of_ne_nil _ hne
      exact ⟨m, hm, le_antisymm (by rw [hmem]; exact hlen m hm) (hle m hm)⟩
    · exact hmem
  have hrest : ∀ m ∈ misses, m.rest.length = leastLeft input.length misses →
      m.rest = input.drop (input.length - leastLeft input.length misses) := by
    intro m hm hl
    obtain ⟨u, hu⟩ := h m hm
    have hdrop : input.length - leastLeft input.length misses = u.length := by
      rw [← hl, hu, List.length_append, Nat.add_sub_cancel]
    rw [hdrop, hu, List.drop_left]
  obtain ⟨hbefore, hsub, hsome⟩ := Expectation.sorted_spec
    ((misses.filter fun m => m.rest.length == leastLeft input.length misses).map Miss.expected)
  refine ⟨_, _, (List.take_append_drop _ input).symm, rfl, rfl, rfl, rfl, hsome ?_, hbefore, ?_⟩
  · have hhere : m ∈ misses.filter fun m => m.rest.length == leastLeft input.length misses :=
      List.mem_filter.2 ⟨hm, by simp [hleft]⟩
    exact List.ne_nil_of_mem (List.mem_map_of_mem hhere)
  · intro e he
    obtain ⟨m, hm, rfl⟩ := List.mem_map.1 (hsub he)
    obtain ⟨hm, hl⟩ := List.mem_filter.1 hm
    exact ⟨m, hm, hrest m hm (by simpa using hl), rfl⟩

end Reading

/-! ### Misreadings -/

/-- Text that begins as expected goes on to a line after this text. -/
def Expectation.ViableAfter (before : String) : Expectation → Prop
  | .literal text => ∃ more l, Line.read (before ++ text ++ more) = .ok l
  | .charClass name => name = Reading.wordClass ∧ ∃ c, (Reading.isWordChar c = true ∨ c = ' ') ∧
      ∃ more l, Line.read (before ++ String.singleton c ++ more) = .ok l
  | .ending => ∃ l, Line.read before = .ok l

/-- The position of a misreading is between these texts: in bytes, as a line, as a column after the last
newline, and by the character that stands there. -/
structure Misreading.Between (m : Misreading) (before after : String) : Prop where
  offset : m.offset = before.utf8ByteSize
  line : m.line = before.toList.count '\n' + 1
  column : ∃ earlier current, before.toList = earlier ++ current ∧
    (earlier = [] ∨ earlier.getLast? = some '\n') ∧ '\n' ∉ current ∧ m.column = current.length + 1
  found : m.found = after.toList.head?

theorem Misreading.columnAfter_spec (consumed : List Char) : ∃ earlier current,
    consumed = earlier ++ current ∧ (earlier = [] ∨ earlier.getLast? = some '\n') ∧ '\n' ∉ current ∧
      Misreading.columnAfter consumed = current.length + 1 := by
  refine ⟨(consumed.reverse.dropWhile (· ≠ '\n')).reverse,
    (consumed.reverse.takeWhile (· ≠ '\n')).reverse, ?_, ?_, ?_, ?_⟩
  · rw [← List.reverse_append, List.takeWhile_append_dropWhile, List.reverse_reverse]
  · rw [List.reverse_eq_nil_iff, List.getLast?_reverse]
    cases hd : consumed.reverse.dropWhile (· ≠ '\n') with
    | nil => exact .inl rfl
    | cons c r =>
      have hc := Text.of_head_dropWhile (c := c) (by rw [hd]; rfl)
      exact .inr (congrArg some (by simpa using hc))
  · intro h
    simpa using List.mem_takeWhile_imp (List.mem_reverse.1 h)
  · rw [List.length_reverse]
    rfl

theorem Expectation.MetBy.viableAfter {e : Expectation} {u w : List Char} (hmet : e.MetBy w)
    (h : ∃ l, Reading.line (u ++ w) = .ok l) : e.ViableAfter (String.ofList u) := by
  obtain ⟨l, hl⟩ := h
  cases e with
  | literal text =>
    obtain ⟨more, rfl⟩ := hmet
    exact ⟨String.ofList more, l, by simpa [Line.read] using hl⟩
  | charClass name =>
    obtain ⟨hname, c, hc, hclass⟩ := hmet
    obtain ⟨more, rfl⟩ := List.head?_eq_some_iff.1 hc
    exact ⟨hname, c, hclass, String.ofList more, l, by simpa [Line.read] using hl⟩
  | ending =>
    obtain rfl : w = [] := hmet
    exact ⟨l, by simpa [Line.read] using hl⟩

/-- **Every misreading is sound**: it gives a position in the text, and the text before it can be gone on
with whatever was expected there. -/
theorem Line.misreading_sound {text : String} {m : Misreading} (h : Line.read text = .error m) :
    ∃ before after, text = before ++ after ∧ m.Between before after ∧
      m.offset ≤ text.utf8ByteSize ∧ (m.found = none ↔ m.offset = text.utf8ByteSize) ∧
      m.expected ≠ [] ∧ m.expected.Pairwise (fun a b => a.le b = true) ∧ m.expected.Nodup ∧
      ∀ e ∈ m.expected, e.ViableAfter before := by
  obtain ⟨misses, hne, rfl, hviable⟩ := Reading.line_error h
  obtain ⟨before, after, htext, hoffset, hline, hcolumn, hfound, hsome, hbefore, hmiss⟩ :=
    Reading.report_spec hne fun m hm => by
      obtain ⟨u, w, hu, -⟩ := hviable m hm
      exact ⟨u, hu⟩
  have happend : text = String.ofList before ++ String.ofList after := by
    rw [← String.ofList_append, ← htext, String.ofList_toList]
  have hbetween : (Reading.report text.toList misses).Between (String.ofList before)
      (String.ofList after) := by
    refine ⟨hoffset, ?_, ?_, ?_⟩
    · rw [String.toList_ofList]
      exact hline
    · rw [String.toList_ofList, hcolumn]
      exact Misreading.columnAfter_spec before
    · rw [String.toList_ofList]
      exact hfound
  have hsize : text.utf8ByteSize = (Reading.report text.toList misses).offset +
      (String.ofList after).utf8ByteSize := by
    rw [hbetween.offset, happend, String.utf8ByteSize_append]
  refine ⟨_, _, happend, hbetween, by omega, ?_, hsome, hbefore.imp And.left, hbefore.imp And.right,
    fun e he => ?_⟩
  · rw [hfound, List.head?_eq_none_iff]
    have hempty : (String.ofList after).utf8ByteSize = 0 ↔ after = [] := by
      rw [String.utf8ByteSize_eq_zero_iff, String.ofList_eq_empty_iff]
    rw [← hempty]
    omega
  · obtain ⟨m, hm, rfl, rfl⟩ := hmiss e he
    obtain ⟨u, w, hu, hmet, hl⟩ := hviable m hm
    obtain rfl := List.append_cancel_right (htext.symm.trans hu)
    exact hmet.viableAfter hl

theorem Line.misreading_sound_unclosed :
    Line.read "(b\né" = .error ⟨5, 2, 2, [.literal ")"], none⟩ ∧
      ∃ more l, Line.read ("(b\né" ++ ")" ++ more) = .ok l := by
  have hread : Line.read "(b\né" = .error ⟨5, 2, 2, [.literal ")"], none⟩ := by decide +kernel
  obtain ⟨before, after, htext, hbetween, -, -, -, -, -, hviable⟩ := Line.misreading_sound hread
  have hafter : after = "" :=
    String.toList_eq_nil_iff.1 (List.head?_eq_none_iff.1 hbetween.found.symm)
  rw [hafter, String.append_empty] at htext
  subst htext
  exact ⟨hread, hviable (.literal ")") List.mem_cons_self⟩

end PassageLogic
