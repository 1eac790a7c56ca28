import PassageLogic.Json.Reader
import PassageLogic.Json.Writer
import PassageLogic.Proofs.Statement.Pieces

/-! # Written documents

A document is well formed if its strings are texts and its numerals follow the grammar of numbers.
Whatever it holds, what is written of it is read as the same document again (`WellFormed.read?_write`).

The reader undoes the writer part by part, each part in front of any characters that may follow it. A
string may be followed by anything, since its closing quote is the first one that is not escaped
(`string?_flatMap`). A numeral has no closing character: it must not be followed by a digit, a point
or an exponent (`numeral?_chars`), and in a document it never is, because only a comma or the end of an
array or of an object comes after a value (`Ends`). -/

namespace PassageLogic

/-! ### Digits -/

namespace Text

theorem digitValue?_hexDigit : ∀ n < 16, digitValue? 16 (Json.hexDigit n) = some n := by decide

/-- Two hexadecimal digits after two zeros write a code below `256`. -/
theorem numberIn?_hexDigits {n : Nat} (h : n < 256) :
    numberIn? 16 0 ['0', '0', Json.hexDigit (n / 16), Json.hexDigit (n % 16)] = some n := by
  have hzero : digitValue? 16 '0' = some 0 := by decide
  have hhigh := digitValue?_hexDigit (n / 16) (by omega)
  have hlow := digitValue?_hexDigit (n % 16) (by omega)
  simp only [numberIn?, hzero, hhigh, hlow, Option.bind_some]
  congr 1
  omega

/-- The digits of a number begin with a zero only if it is zero. -/
theorem head?_toDigits_ne_zero {n : Nat} (h : 0 < n) : (Nat.toDigits 10 n).head? ≠ some '0' := by
  induction n using Nat.strongRecOn with
  | ind n ih =>
    by_cases hlt : n < 10
    · rw [Nat.toDigits_of_lt_base hlt]
      have hdigits : ∀ k < 10, 0 < k → [Nat.digitChar k].head? ≠ some '0' := by decide
      exact hdigits n hlt h
    · rw [Nat.toDigits_of_base_le (by decide) (by omega),
        List.head?_append_of_ne_nil _ Nat.toDigits_ne_nil]
      exact ih (n / 10) (by omega) (by omega)

end Text

/-! ### Numerals -/

/-- A numeral of the grammar: digits without a leading zero, and then the digits of a fraction. -/
structure Numeral.WellFormed (n : Numeral) : Prop where
  whole_digits : ∀ c ∈ n.whole, c.isDigit = true
  whole_ne_nil : n.whole ≠ []
  no_leading_zero : n.whole.length = 1 ∨ n.whole.head? ≠ some '0'
  fraction_digits : ∀ c ∈ n.fraction, c.isDigit = true

theorem Numeral.wellFormed_ofInt (k : Int) : (Numeral.ofInt k).WellFormed where
  whole_digits _ hc := Nat.isDigit_of_mem_toDigits (by decide) (by decide) hc
  whole_ne_nil := Nat.toDigits_ne_nil
  no_leading_zero := by
    show (Nat.toDigits 10 k.natAbs).length = 1 ∨ (Nat.toDigits 10 k.natAbs).head? ≠ some '0'
    rcases Nat.eq_zero_or_pos k.natAbs with h | h
    · rw [h]
      exact .inl rfl
    · exact .inr (Text.head?_toDigits_ne_zero h)
  fraction_digits _ hc := by cases hc

namespace Json

/-- A numeral that these characters follow ends there. -/
def EndsNumeral (rest : List Char) : Prop :=
  ∀ c, rest.head? = some c → c.isDigit = false ∧ c ≠ '.' ∧ c ≠ 'e' ∧ c ≠ 'E'

section Numerals
variable {ds rest : List Char} {n : Numeral}

theorem takeWhile_digits (hds : ∀ c ∈ ds, c.isDigit = true)
    (hrest : ∀ c, rest.head? = some c → c.isDigit = false) :
    (ds ++ rest).takeWhile Char.isDigit = ds := by
  rw [List.takeWhile_append_of_pos hds]
  cases rest with
  | nil => simp
  | cons c rest => rw [List.takeWhile_cons_of_neg (by simp [hrest c rfl]), List.append_nil]

theorem dropWhile_digits (hds : ∀ c ∈ ds, c.isDigit = true)
    (hrest : ∀ c, rest.head? = some c → c.isDigit = false) :
    (ds ++ rest).dropWhile Char.isDigit = rest := by
  rw [List.dropWhile_append_of_pos hds, Text.dropWhile_of_head hrest]

/-- The characters of an exponent. -/
def exponentChars : Option Int → List Char
  | none => []
  | some e => Numeral.exponentText e

/-- The characters of a fraction with its point. -/
def fractionChars (ds : List Char) : List Char := if ds.isEmpty then [] else '.' :: ds

theorem chars_eq (n : Numeral) : n.chars =
    (if n.negative then ['-'] else []) ++
      (n.whole ++ (fractionChars n.fraction ++ exponentChars n.exponent)) := by
  unfold Numeral.chars
  rw [List.append_assoc, List.append_assoc]
  cases n.exponent <;> rfl

theorem signedExponent?_digits (negative : Bool) (k : Nat)
    (hrest : ∀ c, rest.head? = some c → c.isDigit = false) :
    signedExponent? negative (Nat.toDigits 10 k ++ rest) =
      some (some (if negative then -Int.ofNat k else Int.ofNat k), rest) := by
  have hdigits : ∀ c ∈ Nat.toDigits 10 k, c.isDigit = true := fun c hc =>
    Nat.isDigit_of_mem_toDigits (by decide) (by decide) hc
  unfold signedExponent?
  rw [takeWhile_digits hdigits hrest, dropWhile_digits hdigits hrest]
  split
  · rename_i hnil
    exact absurd hnil Nat.toDigits_ne_nil
  · rw [Text.decimalValue_toDigits]

theorem exponent?_exponentChars (e : Option Int) (hrest : EndsNumeral rest) :
    exponent? (exponentChars e ++ rest) = some (e, rest) := by
  cases e with
  | none =>
    cases rest with
    | nil => rfl
    | cons c rest =>
      obtain ⟨-, -, he, hE⟩ := hrest c rfl
      simp [exponentChars, exponent?, he, hE]
  | some e =>
    have hread := fun negative =>
      signedExponent?_digits negative e.natAbs fun c hc => (hrest c hc).1
    by_cases h : 0 ≤ e
    · have he : Int.ofNat e.natAbs = e := Int.natAbs_of_nonneg h
      simp only [exponentChars, Numeral.exponentText, if_pos h]
      exact (hread false).trans (by rw [if_neg Bool.false_ne_true, he])
    · have he : -Int.ofNat e.natAbs = e := by
        show -(e.natAbs : Int) = e
        omega
      simp only [exponentChars, Numeral.exponentText, if_neg h]
      exact (hread true).trans (by rw [if_pos rfl, he])

/-- Neither a digit nor a point comes after a fraction. -/
theorem head?_exponentChars (e : Option Int) (hrest : EndsNumeral rest) {c : Char}
    (hc : (exponentChars e ++ rest).head? = some c) : c.isDigit = false ∧ c ≠ '.' := by
  cases e with
  | none =>
    obtain ⟨hdigit, hpoint, -⟩ := hrest c hc
    exact ⟨hdigit, hpoint⟩
  | some e =>
    cases hc
    decide

theorem fraction?_fractionChars (hds : ∀ c ∈ ds, c.isDigit = true)
    (hrest : ∀ c, rest.head? = some c → c.isDigit = false ∧ c ≠ '.') :
    fraction? (fractionChars ds ++ rest) = some (ds, rest) := by
  have hdigits := fun c hc => (hrest c hc).1
  cases ds with
  | nil =>
    show fraction? rest = some ([], rest)
    unfold fraction?
    split
    · exact absurd rfl (hrest '.' rfl).2
    · rfl
  | cons d ds =>
    show fraction? ('.' :: (d :: ds ++ rest)) = some (d :: ds, rest)
    simp only [fraction?, takeWhile_digits hds hdigits, dropWhile_digits hds hdigits]

theorem head?_fractionChars (ds : List Char)
    (hrest : ∀ c, rest.head? = some c → c.isDigit = false) {c : Char}
    (hc : (fractionChars ds ++ rest).head? = some c) : c.isDigit = false := by
  cases ds with
  | nil => exact hrest c hc
  | cons d ds =>
    cases hc
    rfl

theorem unsigned?_chars (h : n.WellFormed) (hrest : EndsNumeral rest) (negative : Bool) :
    unsigned? negative
        (n.whole ++ (fractionChars n.fraction ++ (exponentChars n.exponent ++ rest))) =
      some ({ n with negative }, rest) := by
  have hexponent := fun c => head?_exponentChars (c := c) n.exponent hrest
  have hfraction := fun c =>
    head?_fractionChars (c := c) n.fraction fun c hc => (hexponent c hc).1
  have hzero : (n.whole.isEmpty || (n.whole.length ≠ 1 && n.whole.head? == some '0')) = false := by
    rcases h.no_leading_zero with hone | hhead
    · simp [h.whole_ne_nil, hone]
    · simp [h.whole_ne_nil, hhead]
  unfold unsigned?
  simp only [takeWhile_digits h.whole_digits hfraction, dropWhile_digits h.whole_digits hfraction,
    hzero, fraction?_fractionChars h.fraction_digits hexponent, Bool.false_eq_true, if_false,
    Option.bind_eq_bind, Option.bind_some, exponent?_exponentChars n.exponent hrest]
  rfl

/-- **A written numeral is read back.** -/
theorem numeral?_chars (h : n.WellFormed) (hrest : EndsNumeral rest) :
    numeral? (n.chars ++ rest) = some (n, rest) := by
  have hread := unsigned?_chars h hrest
  rw [chars_eq, List.append_assoc, List.append_assoc, List.append_assoc]
  cases hn : n.negative with
  | true =>
    show unsigned? true (n.whole ++ _) = _
    rw [hread true, ← hn]
  | false =>
    show numeral? (n.whole ++ _) = _
    unfold numeral?
    split
    · rename_i r hminus
      obtain ⟨c, ds, hwhole⟩ := List.exists_cons_of_ne_nil h.whole_ne_nil
      rw [hwhole] at hminus
      cases hminus
      exact absurd (h.whole_digits '-' (hwhole ▸ List.mem_cons_self)) (by decide)
    · rw [hread false, ← hn]

/-- A numeral begins with its sign or with a digit. -/
theorem head?_numeral (h : n.WellFormed) :
    ∃ c r, n.chars = c :: r ∧ (c = '-' ∨ c.isDigit = true) := by
  rw [chars_eq]
  cases n.negative with
  | true => exact ⟨'-', _, rfl, .inl rfl⟩
  | false =>
    obtain ⟨c, ds, hwhole⟩ := List.exists_cons_of_ne_nil h.whole_ne_nil
    refine ⟨c, _, congrArg (· ++ _) hwhole, .inr (h.whole_digits c ?_)⟩
    exact hwhole ▸ List.mem_cons_self

end Numerals

/-! ### Strings -/

section Strings
variable {c : Char} {cs rest : List Char}

/-- Another glyph in front of what is read. -/
def consGlyph (g : Glyph) (p : List Glyph × List Char) : List Glyph × List Char := (g :: p.1, p.2)

theorem glyphs?_char (hspace : 0x20 ≤ c.toNat) (hquote : c ≠ '"') (hslash : c ≠ '\\')
    (r : List Char) : glyphs? (c :: r) = (glyphs? r).map (consGlyph (.char c)) := by
  have hpass : (decide (c.toNat < 0x20) || c == '\\') = false := by
    simp [hslash, Nat.not_lt.2 hspace]
  rw [glyphs?.eq_5 c r (fun h => hquote h) (fun _ _ _ _ _ h => absurd h hslash)
    (fun _ _ h => absurd h hslash), hpass]
  cases glyphs? r <;> rfl

theorem glyphs?_escape {e : Char} (he : escaped? e = some c) (r : List Char) :
    glyphs? ('\\' :: e :: r) = (glyphs? r).map (consGlyph (.char c)) := by
  rw [glyphs?.eq_4 e r (fun _ _ _ _ _ hu _ => by rw [hu] at he; cases he), he]
  cases glyphs? r <;> rfl

theorem glyphs?_code {n : Nat} (hn : n < 256) (r : List Char) :
    glyphs? ('\\' :: 'u' :: '0' :: '0' :: hexDigit (n / 16) :: hexDigit (n % 16) :: r) =
      (glyphs? r).map (consGlyph (.unit n)) := by
  rw [glyphs?, Text.numberIn?_hexDigits hn]
  cases glyphs? r <;> rfl

/-- The controls that have a short escape. -/
def shortControls : List Char := ['\x08', '\t', '\n', '\x0c', '\r']

/-- What is read of a written character: the code of a control without a short escape. -/
def glyphOf (c : Char) : Glyph :=
  if c.toNat < 0x20 ∧ c ∉ shortControls then .unit c.toNat else .char c

theorem glyphs?_writeChar (c : Char) (r : List Char) :
    glyphs? (writeChar c ++ r) = (glyphs? r).map (consGlyph (glyphOf c)) := by
  unfold writeChar
  split
  case h_8 hquote hslash hb ht hn hf hr =>
    split
    · rename_i hlt
      have hshort : c ∉ shortControls := by
        simpa [shortControls] using ⟨hb, ht, hn, hf, hr⟩
      rw [glyphOf, if_pos ⟨hlt, hshort⟩]
      exact glyphs?_code (by omega) r
    · rename_i hlt
      rw [glyphOf, if_neg fun h => hlt h.1]
      exact glyphs?_char (Nat.not_lt.1 hlt) hquote hslash r
  -- the other characters have an escape of their own
  all_goals exact glyphs?_escape rfl r

/-- A code that is no half of a surrogate pair stands for its character. -/
theorem textOf?_unit {n : Nat} (hn : n < 0xD800) (gs : List Glyph) :
    textOf? (.unit n :: gs) = (textOf? gs).map (Char.ofNat n :: ·) := by
  have hhigh : isHighSurrogate n = false := by simp [isHighSurrogate]; omega
  have hlow : isLowSurrogate n = false := by simp [isLowSurrogate]; omega
  rcases gs with _ | ⟨_ | m, gs⟩ <;> simp [textOf?, hhigh, hlow]

theorem textOf?_glyphOf (c : Char) (gs : List Glyph) :
    textOf? (glyphOf c :: gs) = (textOf? gs).map (c :: ·) := by
  unfold glyphOf
  split
  · rename_i h
    rw [textOf?_unit (by omega), Char.ofNat_toNat]
  · rfl

theorem glyphs?_flatMap (cs rest : List Char) :
    glyphs? (cs.flatMap writeChar ++ '"' :: rest) = some (cs.map glyphOf, rest) := by
  induction cs with
  | nil => rfl
  | cons c cs ih =>
    rw [List.flatMap_cons, List.append_assoc, glyphs?_writeChar, ih]
    rfl

theorem textOf?_map (cs : List Char) : textOf? (cs.map glyphOf) = some cs := by
  induction cs with
  | nil => rfl
  | cons c cs ih =>
    rw [List.map_cons, textOf?_glyphOf, ih]
    rfl

/-- **A written string is read back.** -/
theorem string?_flatMap (s : String) (rest : List Char) :
    string? (s.toList.flatMap writeChar ++ '"' :: rest) = some (some s, rest) := by
  unfold string?
  rw [glyphs?_flatMap, Option.map_some]
  simp only [textOf?_map, Option.map_some, String.ofList_toList]

end Strings

/-! ### Documents -/

/-- A document whose strings are texts and whose numerals are ones of the grammar. -/
inductive WellFormed : Json → Prop where
  | null : WellFormed .null
  | bool (b : Bool) : WellFormed (.bool b)
  | number {n : Numeral} (h : n.WellFormed) : WellFormed (.number n)
  | text (s : String) : WellFormed (.text s)
  | array {items : List Json} (h : ∀ j ∈ items, WellFormed j) : WellFormed (.array items)
  | object {members : List (Option String × Json)} (hnames : ∀ m ∈ members, m.1.isSome = true)
    (h : ∀ m ∈ members, WellFormed m.2) : WellFormed (.object members)

/-- What comes after a value: the end, a comma, or the end of what the value is in. -/
def Ends (rest : List Char) : Prop := ∀ c, rest.head? = some c → c ∈ [',', ']', '}']

/-- The characters begin with a value, so that no array or object ends here. -/
def Begins (s : List Char) : Prop :=
  ∃ c r, s = c :: r ∧ isBlank c = false ∧ c ∉ [',', ']', '}']

/-- The reader takes the document and leaves what follows it. -/
def Reads (j : Json) : Prop :=
  ∀ fuel rest, j.chars.length ≤ fuel → Ends rest → value? fuel (j.chars ++ rest) = some (j, rest)

section Documents
variable {j : Json} {js : List Json} {m : Option String × Json} {ms : List (Option String × Json)}
  {s rest : List Char} {fuel : Nat}

theorem Ends.numeral (h : Ends rest) : EndsNumeral rest := fun c hc =>
  have hends : ∀ c ∈ [',', ']', '}'], c.isDigit = false ∧ c ≠ '.' ∧ c ≠ 'e' ∧ c ≠ 'E' := by simp
  hends c (h c hc)

theorem ends_itemChars (js : List Json) (rest : List Char) : Ends (itemChars js ++ rest) := by
  intro c hc
  cases js <;> (cases hc; decide)

theorem ends_memberChars (ms : List (Option String × Json)) (rest : List Char) :
    Ends (memberChars ms ++ rest) := by
  intro c hc
  rcases ms with _ | ⟨⟨name, j⟩, ms⟩ <;> (cases hc; decide)

theorem skip_cons {c : Char} (hc : isBlank c = false) (r : List Char) : skip (c :: r) = c :: r :=
  List.dropWhile_cons_of_neg (by simp [hc])

/-- Nothing but a numeral begins with a sign or a digit. -/
theorem numeral_head {c : Char} (h : c = '-' ∨ c.isDigit = true) : isBlank c = false ∧
    c ∉ [',', ']', '}', 'n', 't', 'f', '"', '[', '{'] := by
  have hblank : ∀ c ∈ [' ', '\t', '\n', '\r'], ¬ (c = '-' ∨ c.isDigit = true) := by simp
  have hother : ∀ c ∈ [',', ']', '}', 'n', 't', 'f', '"', '[', '{'],
      ¬ (c = '-' ∨ c.isDigit = true) := by simp
  refine ⟨Bool.eq_false_iff.2 fun hc => hblank c ?_ h, fun hc => hother c hc h⟩
  simpa [isBlank, or_assoc] using hc

theorem WellFormed.begins (h : j.WellFormed) (rest : List Char) : Begins (j.chars ++ rest) := by
  cases h with
  | null => exact ⟨'n', _, rfl, by decide⟩
  | bool b =>
    cases b with
    | true => exact ⟨'t', _, rfl, by decide⟩
    | false => exact ⟨'f', _, rfl, by decide⟩
  | @number n h =>
    obtain ⟨c, r, hchars, hc⟩ := head?_numeral h
    obtain ⟨hblank, hother⟩ := numeral_head hc
    refine ⟨c, r ++ rest, congrArg (· ++ rest) hchars, hblank, fun hmem => hother ?_⟩
    exact List.mem_append_left _ hmem
  | text s => exact ⟨'"', _, rfl, by decide⟩
  | @array items _ =>
    cases items with
    | nil => exact ⟨'[', _, rfl, by decide⟩
    | cons j js => exact ⟨'[', _, rfl, by decide⟩
  | @object members _ _ =>
    cases members with
    | nil => exact ⟨'{', _, rfl, by decide⟩
    | cons m ms => exact ⟨'{', _, rfl, by decide⟩

/-! ### The reader on written documents -/

section Equations
variable (m : Option String × Json) (ms : List (Option String × Json)) (j : Json) (js : List Json)
  (s rest : List Char)

theorem writeString_append (t : String) :
    writeString t ++ rest = '"' :: (t.toList.flatMap writeChar ++ '"' :: rest) := by
  simp [writeString]

theorem itemChars_append :
    itemChars (j :: js) ++ rest = ',' :: (j.chars ++ (itemChars js ++ rest)) := by
  simp [itemChars]

/-- The characters of a member, of the members after it, and of what follows. -/
def memberText : List Char :=
  writeString (m.1.getD "") ++ ':' :: (m.2.chars ++ (memberChars ms ++ rest))

theorem memberChars_append : memberChars (m :: ms) ++ rest = ',' :: memberText m ms rest := by
  simp [memberChars, memberText]

theorem chars_array_append :
    (Json.array (j :: js)).chars ++ rest = '[' :: (j.chars ++ (itemChars js ++ rest)) := by
  simp [chars]

theorem chars_object_append :
    (Json.object (m :: ms)).chars ++ rest = '{' :: memberText m ms rest := by
  simp [chars, memberText]

theorem value?_numeral {c : Char} (hc : c = '-' ∨ c.isDigit = true) : value? (fuel + 1) (c :: s) =
    (numeral? (c :: s)).map fun p => (.number p.1, p.2) := by
  obtain ⟨hblank, hother⟩ := numeral_head hc
  unfold value?
  rw [skip_cons hblank]
  split
  case h_7 => rfl
  -- the other cases fix the first character
  all_goals
    rename_i heq
    cases heq
    exact absurd hother (by decide)

theorem value?_array {s : List Char} (h : Begins s) :
    value? (fuel + 1) ('[' :: s) = (items? fuel s).map fun p => (.array p.1, p.2) := by
  obtain ⟨c, r, rfl, hblank, hother⟩ := h
  simp only [value?, skip_cons (show isBlank '[' = false from rfl), skip_cons hblank]
  split
  · rename_i heq
    cases heq
    exact absurd hother (by decide)
  · rfl

end Equations

/-- Since no document is written without characters, the fuel is never empty. -/
theorem WellFormed.reads_of_succ (hj : j.WellFormed) (h : ∀ fuel rest, j.chars.length ≤ fuel + 1 →
    Ends rest → value? (fuel + 1) (j.chars ++ rest) = some (j, rest)) : j.Reads := by
  intro fuel rest hfuel hrest
  cases fuel with
  | zero =>
    obtain ⟨c, r, hchars, -⟩ := hj.begins []
    rw [List.append_nil] at hchars
    rw [hchars] at hfuel
    cases hfuel
  | succ fuel => exact h fuel rest hfuel hrest

theorem reads_number {n : Numeral} (h : n.WellFormed) : Reads (.number n) := by
  refine (WellFormed.number h).reads_of_succ fun fuel rest _ hrest => ?_
  have hread := numeral?_chars h hrest.numeral
  obtain ⟨c, r, hchars, hc⟩ := head?_numeral h
  rw [hchars] at hread
  rw [chars, hchars, List.cons_append, value?_numeral _ hc, ← List.cons_append, hread]
  rfl

theorem reads_text (s : String) : Reads (.text s) := by
  refine (WellFormed.text s).reads_of_succ fun fuel rest _ _ => ?_
  show value? (fuel + 1) (writeString s ++ rest) = _
  rw [writeString_append]
  show (string? (s.toList.flatMap writeChar ++ '"' :: rest)).map _ = _
  rw [string?_flatMap]
  rfl

/-- Written items are read back, if each of them is. -/
theorem items?_chars (hj : j.Reads) (hjs : ∀ j' ∈ js, j'.Reads)
    (hfuel : (j.chars ++ itemChars js).length ≤ fuel) (rest : List Char) :
    items? fuel (j.chars ++ (itemChars js ++ rest)) = some (j :: js, rest) := by
  induction js generalizing j fuel with
  | nil =>
    cases fuel with
    | zero => simp [itemChars] at hfuel
    | succ fuel =>
      have hfit : j.chars.length ≤ fuel := by simpa [itemChars] using hfuel
      unfold items?
      rw [hj fuel _ hfit (ends_itemChars [] rest)]
      rfl
  | cons j' js ih =>
    cases fuel with
    | zero => simp [itemChars] at hfuel
    | succ fuel =>
      simp only [itemChars, List.length_append, List.length_cons, List.cons_append] at hfuel
      obtain ⟨hj', hjs⟩ := List.forall_mem_cons.1 hjs
      have hfit : (j'.chars ++ itemChars js).length ≤ fuel := by
        rw [List.length_append]
        omega
      have hnext := ih hj' hjs hfit
      unfold items?
      rw [hj fuel _ (by omega) (ends_itemChars (j' :: js) rest), itemChars_append]
      show (items? fuel _).bind _ = _
      rw [hnext]
      rfl

/-- The reader takes the name and the value of a member. -/
theorem members?_member (hname : m.1.isSome = true) (hm : m.2.Reads) (hfit : m.2.chars.length ≤ fuel)
    (rest : List Char) : members? (fuel + 1) (memberText m ms rest) =
      match memberChars ms ++ rest with
      | '}' :: r => some ([m], r)
      | ',' :: r => (members? fuel r).map fun p => (m :: p.1, p.2)
      | _ => none := by
  obtain ⟨name, j⟩ := m
  obtain ⟨name, rfl⟩ := Option.isSome_iff_exists.1 hname
  conv_lhs => rw [memberText, writeString_append]; unfold members?
  show (string? _).bind _ = _
  rw [Option.getD_some, string?_flatMap]
  show (value? fuel _).bind _ = _
  rw [hm fuel _ hfit (ends_memberChars ms rest)]
  cases ms with
  | nil => rfl
  | cons m' ms =>
    rw [memberChars_append]
    show (members? fuel _).bind _ = Option.map _ _
    cases members? fuel (memberText m' ms rest) <;> rfl

/-- Written members are read back, if each of their values is. -/
theorem members?_chars (hname : m.1.isSome = true) (hm : m.2.Reads)
    (hnames : ∀ m' ∈ ms, m'.1.isSome = true) (hms : ∀ m' ∈ ms, m'.2.Reads)
    (hfuel : (memberText m ms []).length ≤ fuel) (rest : List Char) :
    members? fuel (memberText m ms rest) = some (m :: ms, rest) := by
  induction ms generalizing m fuel with
  | nil =>
    cases fuel with
    | zero => simp [memberText] at hfuel
    | succ fuel =>
      have hfit : m.2.chars.length ≤ fuel := by
        simp [memberText] at hfuel
        omega
      exact members?_member hname hm hfit rest
  | cons m' ms ih =>
    obtain ⟨hname', hnames⟩ := List.forall_mem_cons.1 hnames
    obtain ⟨hm', hms⟩ := List.forall_mem_cons.1 hms
    cases fuel with
    | zero => simp [memberText] at hfuel
    | succ fuel =>
      have hfit : m.2.chars.length ≤ fuel ∧ (memberText m' ms []).length ≤ fuel := by
        have hcomma := congrArg List.length (memberChars_append m' ms [])
        simp [memberText] at hfuel hcomma ⊢
        omega
      rw [members?_member hname hm hfit.1 rest, memberChars_append]
      show (members? fuel _).map _ = _
      rw [ih hname' hm' hnames hms hfit.2]
      rfl

/-- **A written document is read back**, whatever follows it. -/
theorem WellFormed.reads (h : j.WellFormed) : j.Reads := by
  induction h with
  | null => exact WellFormed.null.reads_of_succ fun _ _ _ _ => rfl
  | bool b => exact (WellFormed.bool b).reads_of_succ fun _ _ _ _ => by cases b <;> rfl
  | number h => exact reads_number h
  | text s => exact reads_text s
  | @array items h ih =>
    refine (WellFormed.array h).reads_of_succ fun fuel rest hfuel _ => ?_
    cases items with
    | nil => rfl
    | cons j js =>
      obtain ⟨hj, hjs⟩ := List.forall_mem_cons.1 ih
      have hfit : (j.chars ++ itemChars js).length ≤ fuel := by simpa [chars] using hfuel
      rw [chars_array_append, value?_array ((h j List.mem_cons_self).begins _),
        items?_chars hj hjs hfit]
      rfl
  | @object members hnames h ih =>
    refine (WellFormed.object hnames h).reads_of_succ fun fuel rest hfuel _ => ?_
    cases members with
    | nil => rfl
    | cons m ms =>
      obtain ⟨hname, hnames⟩ := List.forall_mem_cons.1 hnames
      obtain ⟨hm, hms⟩ := List.forall_mem_cons.1 ih
      have hfit : (memberText m ms []).length ≤ fuel := by
        have hbrace := congrArg List.length (chars_object_append m ms [])
        simp only [List.append_nil, List.length_cons] at hbrace
        omega
      rw [chars_object_append]
      show (members? fuel (memberText m ms rest)).map _ = _
      rw [members?_chars hname hm hnames hms hfit]
      rfl

/-- **Reading undoes writing.** -/
theorem WellFormed.read?_write (h : j.WellFormed) : read? j.write = some j := by
  have hread := h.reads (2 * j.chars.length + 2) [] (by omega) (fun c hc => by cases hc)
  rw [List.append_nil] at hread
  unfold read? write
  simp only [String.toList_ofList, hread]
  rfl

end Documents

end Json
end PassageLogic
