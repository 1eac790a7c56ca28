import PassageLogic.Proofs.Template.Filling
import Mathlib.Data.List.Infix

/-! # Texts filled twice

What is put in for a parameter is not searched again by one filling, but it is by the next one. Two
fillings are one with both records if no value that the first puts in holds a parameter of the second
(`Placeholder.replace_replace`), and none does that has no opening parenthesis
(`Placeholder.fillParams_fillParams`). What is put in is quoted, so that no placeholder reaches across
its ends (`Placeholder.replace_append_apart`), and what is left of the text has the placeholders that it
had. Blank characters are not filled either, so that a text may be trimmed before or after
(`Placeholder.trimmed_fillParams`). -/

namespace PassageLogic

namespace Placeholder

/-- A parameter begins somewhere in the text. -/
def Holds (known : String → Bool) (cs : List Char) : Prop :=
  ∃ s, s <:+ cs ∧ begins known s = true

theorem holds_iff {known : String → Bool} {cs : List Char} :
    Holds known cs ↔ cs.tails.any (begins known) = true := by
  simp only [Holds, List.any_eq_true, List.mem_tails]

instance (known : String → Bool) (cs : List Char) : Decidable (Holds known cs) :=
  decidable_of_iff _ holds_iff.symm

variable {known : String → Bool} {value : String → Option String} {c d : Char}
  {cs ds name rest : List Char} {p q r : Record}

theorem Holds.suffix (h : Holds known ds) (hs : ds <:+ cs) : Holds known cs := by
  obtain ⟨s, hsuffix, hb⟩ := h
  exact ⟨s, hsuffix.trans hs, hb⟩

/-- A text that holds a parameter has the parenthesis that opens it. -/
theorem Holds.mem_opening (h : Holds known cs) : '(' ∈ cs := by
  obtain ⟨s, hs, hb⟩ := h
  cases s with
  | nil => cases hb
  | cons c s => exact hs.subset ((begins_iff.1 hb).1 ▸ List.mem_cons_self)

theorem holds_name (h : name? ')' cs = some (name, rest)) :
    Holds (fun n => n == String.ofList name) ('(' :: cs) :=
  ⟨_, List.suffix_refl _, begins_iff.2 ⟨rfl, name, rest, h, beq_self_eq_true _⟩⟩

/-! ### Quotes -/

/-- A character that a constant is put between. -/
def IsQuote (c : Char) : Prop := c = '"' ∨ c = '\''

instance (c : Char) : Decidable (IsQuote c) := inferInstanceAs (Decidable (_ ∨ _))

theorem IsQuote.ne_opening (h : IsQuote c) : c ≠ '(' := by
  rintro rfl
  exact absurd h (by decide)

theorem IsQuote.ne_closing (h : IsQuote c) : c ≠ ')' := by
  rintro rfl
  exact absurd h (by decide)

theorem IsQuote.not_isWordChar (h : IsQuote c) : Text.isWordChar c = false := by
  rcases h with rfl | rfl <;> decide

theorem IsQuote.not_isBlank (h : IsQuote c) : Text.isBlank c = false := by
  rcases h with rfl | rfl <;> rfl

theorem display_const (v : String) :
    ∃ c, IsQuote c ∧ (Token.const v).display.toList = c :: (v.toList ++ [c]) := by
  rw [Token.display]
  split_ifs
  · exact ⟨'\'', .inr rfl, by simp⟩
  · exact ⟨'"', .inl rfl, by simp⟩

/-- Word characters come first, up to another one or the end. -/
theorem exists_name (cs : List Char) : ∃ name tail, cs = name ++ tail ∧
    (∀ c ∈ name, Text.isWordChar c = true) ∧
      ∀ c, tail.head? = some c → Text.isWordChar c = false :=
  ⟨cs.takeWhile Text.isWordChar, cs.dropWhile Text.isWordChar,
    List.takeWhile_append_dropWhile.symm, fun _ hc => List.mem_takeWhile_imp hc,
    fun _ hc => Text.of_head_dropWhile hc⟩

/-- No name reaches across a character that is neither of one nor its delimiter. -/
theorem name?_append_apart (hd : Text.isWordChar d = false) (hne : d ≠ ')') :
    name? ')' (cs ++ d :: rest) =
      (name? ')' cs).map fun found => (found.1, found.2 ++ d :: rest) := by
  obtain ⟨name, tail, rfl, hword, hend⟩ := exists_name cs
  cases tail with
  | nil =>
    have hend' : ∀ c, (d :: rest).head? = some c → Text.isWordChar c = false := by
      intro c hc
      cases hc
      exact hd
    rw [List.append_assoc, List.nil_append, name?_append hword hend', name?_append hword hend]
    simp [hne]
  | cons e tail =>
    have hend' : ∀ c, (e :: (tail ++ d :: rest)).head? = some c → Text.isWordChar c = false := hend
    rw [List.append_assoc, List.cons_append, name?_append hword hend, name?_append hword hend',
      apply_ite (Option.map _)]
    rfl

theorem begins_eq_false (h : name? ')' cs = none) : begins known ('(' :: cs) = false := by
  simp [begins, h]

/-- Nor does a placeholder: what stands on the two sides is filled apart. -/
theorem replace_append_apart (hd : Text.isWordChar d = false) (hopen : d ≠ '(') (hclose : d ≠ ')') :
    replace '(' ')' value (cs ++ d :: rest) =
      replace '(' ')' value cs ++ d :: replace '(' ')' value rest := by
  -- one turn takes a placeholder or a character
  induction hn : cs.length using Nat.strong_induction_on generalizing cs with
  | _ n ih =>
  subst hn
  cases cs with
  | nil =>
    rw [List.nil_append, replace_of_ne hopen, replace]
    rfl
  | cons c cs =>
    have hlater : replace '(' ')' value (cs ++ d :: rest) =
        replace '(' ')' value cs ++ d :: replace '(' ')' value rest :=
      ih cs.length (Nat.lt_succ_self _) rfl
    by_cases hc : c = '('
    · subst hc
      have hacross : name? ')' (cs ++ d :: rest) =
          (name? ')' cs).map fun found => (found.1, found.2 ++ d :: rest) :=
        name?_append_apart hd hclose
      cases hname : name? ')' cs with
      | none =>
        rw [hname] at hacross
        rw [List.cons_append, replace_cons (fun _ => rfl) (begins_eq_false hacross),
          replace_cons (fun _ => rfl) (begins_eq_false hname), hlater, List.cons_append]
      | some found =>
        obtain ⟨name, tail⟩ := found
        rw [hname] at hacross
        have hshort : tail.length < ('(' :: cs).length :=
          (name?_shorter hname).trans (Nat.lt_succ_self _)
        rw [List.cons_append, replace_of_name hacross, replace_of_name hname,
          ih tail.length hshort rfl, List.append_assoc]
    · rw [List.cons_append, replace_of_ne hc, replace_of_ne hc, hlater, List.cons_append]

/-- A text that holds no parameter stays. -/
theorem replace_of_not_holds (hvalue : ∀ n, (value n).isSome = known n) (h : ¬ Holds known cs) :
    replace '(' ')' value cs = cs := by
  induction cs with
  | nil => rw [replace]
  | cons c cs ih =>
    have hcs : ¬ Holds known cs := fun hh => h (hh.suffix (List.suffix_cons c cs))
    have hb : begins known (c :: cs) = false :=
      Bool.eq_false_iff.2 fun hb => h ⟨_, List.suffix_refl _, hb⟩
    rw [replace_cons hvalue hb, ih hcs]

/-- A quoted value that holds no parameter is filled with itself. -/
theorem becomes_quoted {v : String} (hvalue : ∀ n, (value n).isSome = known n)
    (h : ¬ Holds known v.toList) :
    Becomes value (Token.const v).display.toList (Token.const v).display.toList := by
  obtain ⟨c, hc, htext⟩ := display_const v
  intro rest
  rw [htext, List.cons_append, List.append_assoc, List.singleton_append,
    replace_of_ne hc.ne_opening,
    replace_append_apart hc.not_isWordChar hc.ne_opening hc.ne_closing,
    replace_of_not_holds hvalue h]
  simp

/-! ### What is left of a text -/

/-- Where a parameter begins, a text between quotes is put in. -/
theorem replace_of_begins (h : begins p.contains (c :: cs) = true) :
    c = '(' ∧ ∃ name rest d inside, cs = name ++ ')' :: rest ∧ IsQuote d ∧
      replace '(' ')' (quoted? p) (c :: cs) =
        d :: (inside ++ d :: replace '(' ')' (quoted? p) rest) := by
  obtain ⟨rfl, name, rest, hname, hknown⟩ := begins_iff.1 h
  obtain ⟨v, hv⟩ := Option.isSome_iff_exists.1 hknown
  obtain ⟨d, hd, htext⟩ := display_const v.display
  refine ⟨rfl, name, rest, d, v.display.toList, (name?_eq_some hname).1, hd, ?_⟩
  rw [replace_of_name hname, quoted?, hv]
  show (Token.const v.display).display.toList ++ _ = _
  rw [htext, List.cons_append, List.append_assoc, List.singleton_append]

/-- A filled text begins as it did, or with a quote for a placeholder. -/
theorem head?_replace (c : Char) (cs : List Char) :
    (replace '(' ')' (quoted? p) (c :: cs)).head? = some c ∨
      c = '(' ∧ ∃ d, IsQuote d ∧ (replace '(' ')' (quoted? p) (c :: cs)).head? = some d := by
  cases hb : begins p.contains (c :: cs) with
  | false =>
    rw [replace_cons (isSome_quoted? p) hb]
    exact .inl rfl
  | true =>
    obtain ⟨hc, name, rest, d, inside, -, hd, htext⟩ := replace_of_begins hb
    rw [htext]
    exact .inr ⟨hc, d, hd, rfl⟩

theorem eq_nil_of_replace (h : replace '(' ')' (quoted? p) cs = []) : cs = [] := by
  cases cs with
  | nil => rfl
  | cons c cs =>
    rcases head?_replace (p := p) c cs with hc | ⟨-, d, -, hc⟩ <;>
    · rw [h] at hc
      cases hc

/-- No name comes to stand before its delimiter. -/
theorem name?_replace_eq_none (h : name? ')' cs = none) :
    name? ')' (replace '(' ')' (quoted? p) cs) = none := by
  obtain ⟨name, tail, rfl, hword, hend⟩ := exists_name cs
  rw [name?_append hword hend] at h
  rw [replace_append fun c hc => (ne_of_isWordChar (hword c hc)).1]
  cases tail with
  | nil =>
    rw [replace, name?_append hword (by simp)]
    simp
  | cons e tail =>
    have hclose : name = [] ∨ e ≠ ')' := by
      simpa [or_iff_not_imp_left] using h
    rcases head?_replace (p := p) e tail with he | ⟨rfl, d, hd, he⟩
    · rw [name?_append hword (by rw [he]; exact hend), he]
      rcases hclose with rfl | hclose <;> simp [*]
    · rw [name?_append hword (by rw [he]; exact fun c hc => Option.some.inj hc ▸ hd.not_isWordChar),
        he]
      simp [hd.ne_closing]

/-- **Two fillings are one with both records**, in which the first comes before the second, if no value
that the first puts in holds a parameter of the second. -/
theorem replace_replace (hr : ∀ n, r.get? n = (p.get? n).or (q.get? n))
    (h : ∀ name v, p.get? name = some v → Holds (fun n => n == name) cs →
      ¬ Holds q.contains v.display.toList) :
    replace '(' ')' (quoted? q) (replace '(' ')' (quoted? p) cs) =
      replace '(' ')' (quoted? r) cs := by
  -- one turn takes a placeholder or a character
  induction hn : cs.length using Nat.strong_induction_on generalizing cs with
  | _ n ih =>
  subst hn
  cases cs with
  | nil => rw [replace, replace, replace]
  | cons c cs =>
    have hlater : ∀ {s}, s <:+ cs → replace '(' ')' (quoted? q) (replace '(' ')' (quoted? p) s) =
        replace '(' ')' (quoted? r) s := by
      intro s hs
      refine ih s.length (Nat.lt_succ_of_le hs.length_le) (fun name v hv hh => ?_) rfl
      exact h name v hv (hh.suffix (hs.trans (List.suffix_cons c cs)))
    by_cases hc : c = '('
    · subst hc
      cases hname : name? ')' cs with
      | none =>
        rw [replace_cons (isSome_quoted? p) (begins_eq_false hname),
          replace_cons (isSome_quoted? r) (begins_eq_false hname),
          replace_cons (isSome_quoted? q) (begins_eq_false (name?_replace_eq_none hname)),
          hlater (List.suffix_refl cs)]
      | some found =>
        obtain ⟨name, rest⟩ := found
        obtain ⟨hcs, hword⟩ := name?_eq_some hname
        have hrest : rest <:+ cs := ⟨name ++ [')'], by simp [hcs]⟩
        have hrn := hr (String.ofList name)
        cases hv : p.get? (String.ofList name) with
        | some v =>
          have hbecomes := becomes_quoted (isSome_quoted? q) (h _ v hv (holds_name hname))
          rw [hv, Option.some_or] at hrn
          rw [replace_of_name hname, replace_of_name hname, quoted?, quoted?, hv, hrn]
          show replace '(' ')' (quoted? q) ((Token.const v.display).display.toList ++ _) = _
          rw [hbecomes, hlater hrest]
          rfl
        | none =>
          -- the placeholder stays, and the second filling finds it again
          have hne : name ≠ [] := by
            rintro rfl
            subst hcs
            cases hname
          rw [hv, Option.none_or] at hrn
          rw [replace_of_name hname, replace_of_name hname, quoted?, quoted?, hv, hrn]
          show replace '(' ')' (quoted? q) (('(' :: name ++ [')']) ++ _) = _
          rw [List.append_assoc, List.singleton_append, List.cons_append,
            replace_of_name (name?_of_isWordChar hne hword), hlater hrest]
          rfl
    · rw [replace_of_ne hc, replace_of_ne hc, replace_of_ne hc, hlater (List.suffix_refl cs)]

/-- A text that is filled twice from one record, if no value that it has a placeholder of holds a
parameter. -/
theorem fillParams_twice {text : String}
    (h : ∀ e ∈ p.entries, Holds (fun n => n == e.1) text.toList →
      ¬ Holds p.contains e.2.display.toList) :
    fillParams p (fillParams p text) = fillParams p text := by
  unfold fillParams
  rw [String.toList_ofList]
  exact congrArg String.ofList (replace_replace (fun n => Option.or_self.symm)
    fun name v hv hh => h (name, v) (mem_of_lookup_eq_some hv) hh)

end Placeholder

/-! ### Blank characters -/

namespace Text

/-- The code points of the blank characters. -/
def blankPoints : List Nat :=
  [0x9, 0xA, 0xB, 0xC, 0xD, 0x20, 0x85, 0xA0, 0x1680, 0x2000, 0x2001, 0x2002, 0x2003, 0x2004, 0x2005,
   0x2006, 0x2007, 0x2008, 0x2009, 0x200A, 0x2028, 0x2029, 0x202F, 0x205F, 0x3000]

theorem mem_blankPoints {c : Char} (h : isBlank c = true) : c.toNat ∈ blankPoints := by
  simp only [isBlank, Bool.or_eq_true, Bool.and_eq_true, decide_eq_true_eq, beq_iff_eq,
    UInt32.le_iff_toNat_le, ← UInt32.toNat_inj, UInt32.reduceToNat] at h
  simp only [blankPoints, List.mem_cons, List.not_mem_nil, or_false, Char.toNat]
  omega

/-- No name has a blank character. -/
theorem not_isWordChar_of_isBlank {c : Char} (h : isBlank c = true) : isWordChar c = false := by
  have hall : ∀ n ∈ blankPoints, isWordChar (Char.ofNat n) = false := by decide +kernel
  have hc := hall _ (mem_blankPoints h)
  rwa [Char.ofNat_toNat] at hc

end Text

/-! ### Trimming -/

namespace Placeholder

variable {value : String → Option String} {c : Char} {cs : List Char} {p : Record}

/-- A filled text ends as it did, or with a quote. -/
theorem getLast?_replace (h : (replace '(' ')' (quoted? p) cs).getLast? = some c) :
    IsQuote c ∨ cs.getLast? = some c := by
  induction hn : cs.length using Nat.strong_induction_on generalizing cs with
  | _ n ih =>
  subst hn
  cases cs with
  | nil => simp [replace] at h
  | cons e cs =>
    cases hb : begins p.contains (e :: cs) with
    | false =>
      rw [replace_cons (isSome_quoted? p) hb, List.getLast?_cons] at h
      cases hlast : (replace '(' ')' (quoted? p) cs).getLast? with
      | none =>
        have hnil := eq_nil_of_replace (List.getLast?_eq_none_iff.1 hlast)
        rw [hlast] at h
        exact .inr (hnil ▸ h)
      | some d =>
        rw [hlast] at h
        refine (ih cs.length (Nat.lt_succ_self _) (hlast.trans h) rfl).imp_right fun hc => ?_
        rw [List.getLast?_cons, hc]
        rfl
    | true =>
      obtain ⟨-, name, rest, d, inside, rfl, hd, htext⟩ := replace_of_begins hb
      rw [htext, List.getLast?_cons, List.getLast?_append, List.getLast?_cons] at h
      cases hlast : (replace '(' ')' (quoted? p) rest).getLast? with
      | none =>
        rw [hlast] at h
        obtain rfl : d = c := by simpa using h
        exact .inl hd
      | some f =>
        rw [hlast] at h
        obtain rfl : f = c := by simpa using h
        have hshort : rest.length < (e :: (name ++ ')' :: rest)).length := by
          simp only [List.length_cons, List.length_append]
          omega
        refine (ih rest.length hshort hlast rfl).imp_right fun hc => ?_
        simp [List.getLast?_cons, List.getLast?_append, hc]

/-- A trimmed text is trimmed when it is filled. -/
theorem isTrimmed_fillParams {text : String} (h : Text.IsTrimmed text.toList) :
    Text.IsTrimmed (fillParams p text).toList := by
  unfold fillParams
  rw [String.toList_ofList]
  constructor
  · intro c hc
    cases hcs : text.toList with
    | nil =>
      rw [hcs] at hc
      simp [replace] at hc
    | cons e cs =>
      rw [hcs] at hc h
      rcases head?_replace (p := p) e cs with he | ⟨-, d, hd, he⟩
      · exact h.1 c (he.symm.trans hc)
      · obtain rfl := Option.some.inj (he.symm.trans hc)
        exact hd.not_isBlank
  · intro c hc
    rcases getLast?_replace hc with hq | hlast
    · exact hq.not_isBlank
    · exact h.2 c hlast

/-- Blank characters after a text stay when it is filled. -/
theorem replace_append_blank {bs : List Char} (hblank : ∀ c ∈ bs, Text.isBlank c = true) :
    replace '(' ')' value (cs ++ bs) = replace '(' ')' value cs ++ bs := by
  cases bs with
  | nil => rw [List.append_nil, List.append_nil]
  | cons d bs =>
    obtain ⟨hd, hbs⟩ := List.forall_mem_cons.1 hblank
    have hopen : d ≠ '(' := by
      rintro rfl
      cases hd
    have hclose : d ≠ ')' := by
      rintro rfl
      cases hd
    have hno : '(' ∉ bs := fun hm => absurd (hbs _ hm) (by decide)
    rw [replace_append_apart (Text.not_isWordChar_of_isBlank hd) hopen hclose,
      (becomes_self hno).replace_eq]

/-- To fill a text and to trim it may be done in either order. -/
theorem trimmed_fillParams (p : Record) (text : String) :
    Text.trimmed (fillParams p text) = fillParams p (Text.trimmed text) := by
  obtain ⟨as, bs, hblank, he⟩ := Text.exists_append_trim text.toList
  obtain ⟨hfront, hback⟩ := List.forall_mem_append.1 hblank
  have hno : '(' ∉ as := fun hm => absurd (hfront _ hm) (by decide)
  have hfilled : (fillParams p text).toList =
      as ++ ((fillParams p (Text.trimmed text)).toList ++ bs) := by
    unfold fillParams
    rw [String.toList_ofList, String.toList_ofList, Text.toList_trimmed]
    conv_lhs => rw [he]
    rw [becomes_self hno, replace_append_blank hback]
  have htrimmed : Text.IsTrimmed (fillParams p (Text.trimmed text)).toList := by
    refine isTrimmed_fillParams ?_
    rw [Text.toList_trimmed]
    exact Text.isTrimmed_trim _
  rw [← String.toList_inj, Text.toList_trimmed, hfilled, htrimmed.trim_between hblank]

/-! ### Two records -/

/-- **Two fillings are one.** To fill a text from one record and then from another is to fill it once
from both, in which the first one goes before the second, if no value of the first has an opening
parenthesis. A name of a passage is therefore filled once when it is looked up, though a command line
that displays it was filled before. -/
theorem fillParams_fillParams {p : Record} (hopen : ∀ e ∈ p.entries, '(' ∉ e.2.display.toList)
    (q : Record) (text : String) :
    fillParams q (fillParams p text) = fillParams (q.overlay p) text ∧
      Shelf.nameOf (fillParams p text) q = Shelf.nameOf text (q.overlay p) := by
  have htwice : ∀ text, fillParams q (fillParams p text) = fillParams (q.overlay p) text := by
    intro text
    have hvalues : ∀ name v, p.get? name = some v → ¬ Holds q.contains v.display.toList :=
      fun name v hv hh => hopen (name, v) (mem_of_lookup_eq_some hv) hh.mem_opening
    unfold fillParams
    rw [String.toList_ofList]
    exact congrArg String.ofList
      (replace_replace (fun _ => Record.get?_overlay) fun name v hv _ => hvalues name v hv)
  refine ⟨htwice text, ?_⟩
  unfold Shelf.nameOf
  rw [trimmed_fillParams, htwice]

/-- What is known of the guests; the host is known to both records. -/
def guestValues : Record :=
  .ofList [("gäste", .int 3), ("host", .text "sam"), ("toast", .text "\"cheers :)\"")]

/-- What is known of the house. Its values may have parentheses. -/
def houseValues : Record := .ofList [("host", .text "alex"), ("place", .text "(host)")]

/-- Two placeholders stand right beside each other and one is in parentheses of its own; one
parenthesis is never closed, and one name has no value. -/
def toastText : String := " ((toast)(place) of (host for ((gäste)) (of (host)(dish) "

theorem fillParams_fillParams_toast :
    (∀ e ∈ guestValues.entries, '(' ∉ e.2.display.toList) ∧
      fillParams houseValues (fillParams guestValues toastText) =
        " ('\"cheers :)\"'\"(host)\" of (host for (\"3\") (of \"sam\"(dish) " ∧
      Shelf.nameOf (fillParams guestValues toastText) houseValues =
        "('\"cheers :)\"'\"(host)\" of (host for (\"3\") (of \"sam\"(dish)" := by
  have hopen : ∀ e ∈ guestValues.entries, '(' ∉ e.2.display.toList := by decide +kernel
  have hboth := fillParams_fillParams hopen houseValues toastText
  exact ⟨hopen, hboth.1.trans (by decide +kernel), hboth.2.trans (by decide +kernel)⟩

/-- A value with a parenthesis may hold a parameter of the second record, and is then filled as well. -/
example :
    fillParams (.ofList [("host", .text "sam")])
        (fillParams (.ofList [("place", .text "(host)")]) "(place)") = "\"\"sam\"\"" ∧
      fillParams (.ofList [("host", .text "sam"), ("place", .text "(host)")]) "(place)" =
        "\"(host)\"" := by
  decide +kernel

end Placeholder
end PassageLogic
