import PassageLogic.Passage
import PassageLogic.Proofs.Statement.Twins
import PassageLogic.Proofs.Logic.Records

/-! # Parameters of command lines

The values of the parameters do not decide how a command line is read (`Line.read_fillParams`): filled
with other values of the same parameters it fails as well, or it is read as the same kind of line with
the same statements, which differ in the constants of the values alone. The filled texts are twins
(`twin_replace`), for a value goes in as a quoted constant.

Two things break this. A value with quotes of both kinds has no quoted text, and its own quotes end the
constant (`Line.read_fillParams_quotes`). A parameter between quotes or parentheses is not a constant of
its own but a part of one, or of a name: these are the ones that `standFree` rules out. -/

namespace PassageLogic

namespace Placeholder

open Reading (closing?)

/-- A parameter with a value begins here. -/
def begins (known : String → Bool) : List Char → Bool
  | '(' :: cs =>
    match name? ')' cs with
    | some (name, _) => known (String.ofList name)
    | none => false
  | _ => false

/-- No parameter begins between delimiters. The state is the delimiter that is yet to come, if one has
opened. -/
def standFree (known : String → Bool) : Option Char → List Char → Bool
  | _, [] => true
  | none, c :: cs => standFree known (closing? c) cs
  | some d, c :: cs =>
    if c = d then standFree known none cs
    else !begins known (c :: cs) && standFree known (some d) cs

variable {known : String → Bool} {value : String → Option String} {c d : Char}
  {cs name rest : List Char}

/-! ### Names -/

theorem name?_eq_some (h : name? ')' cs = some (name, rest)) :
    cs = name ++ ')' :: rest ∧ ∀ c ∈ name, Text.isWordChar c = true := by
  have hsplit := List.takeWhile_append_dropWhile (p := Text.isWordChar) (l := cs)
  unfold name? at h
  split at h
  · cases h
  · cases h
  · rename_i c r hdrop hne
    split_ifs at h with hc
    cases h
    rw [hdrop, hc] at hsplit
    exact ⟨hsplit.symm, fun c hc => List.mem_takeWhile_imp hc⟩

theorem ne_of_isWordChar (h : Text.isWordChar c = true) : c ≠ '(' ∧ c ≠ ')' := by
  constructor <;> rintro rfl <;> exact absurd h (by decide)

theorem begins_iff : begins known (c :: cs) = true ↔
    c = '(' ∧ ∃ name rest, name? ')' cs = some (name, rest) ∧ known (String.ofList name) = true := by
  by_cases hc : c = '('
  · subst hc
    cases hname : name? ')' cs with
    | none => simp [begins, hname]
    | some found =>
      obtain ⟨name, rest⟩ := found
      simp [begins, hname]
  · simp [begins, hc]

/-! ### Filling -/

theorem replace_of_ne (h : c ≠ '(') :
    replace '(' ')' value (c :: cs) = c :: replace '(' ')' value cs := by
  rw [replace, if_neg h]

theorem replace_append (h : ∀ c ∈ name, c ≠ '(') :
    replace '(' ')' value (name ++ cs) = name ++ replace '(' ')' value cs := by
  induction name with
  | nil => rfl
  | cons c name ih =>
    obtain ⟨hc, hname⟩ := List.forall_mem_cons.1 h
    rw [List.cons_append, replace_of_ne hc, ih hname, List.cons_append]

/-- A text without an opening parenthesis has no placeholders. -/
theorem fillParams_of_no_opening {text : String} (h : '(' ∉ text.toList) (params : Record) :
    fillParams params text = text := by
  have hne : ∀ c ∈ text.toList, c ≠ '(' := fun c hc he => h (he ▸ hc)
  have hreplace (value : String → Option String) :
      replace '(' ')' value text.toList = text.toList := by
    have hnil : replace '(' ')' value [] = [] := by rw [replace]
    have happend : replace '(' ')' value (text.toList ++ []) =
        text.toList ++ replace '(' ')' value [] := replace_append hne
    rwa [hnil, List.append_nil] at happend
  rw [fillParams, hreplace, String.ofList_toList]

theorem replace_of_name (h : name? ')' cs = some (name, rest)) :
    replace '(' ')' value ('(' :: cs) = (match value (String.ofList name) with
      | some text => text.toList
      | none => '(' :: name ++ [')']) ++ replace '(' ')' value rest := by
  rw [replace, if_pos rfl]
  split
  · rename_i hn
    rw [h] at hn
    cases hn
    rfl
  · rename_i hn
    rw [h] at hn
    cases hn

/-- Where no parameter begins, a character stays. -/
theorem replace_cons (hvalue : ∀ n, (value n).isSome = known n) (h : begins known (c :: cs) = false) :
    replace '(' ')' value (c :: cs) = c :: replace '(' ')' value cs := by
  by_cases hc : c = '('
  · subst hc
    cases hname : name? ')' cs with
    | none =>
      rw [replace, if_pos rfl]
      split
      · rename_i hn
        rw [hname] at hn
        cases hn
      · rfl
    | some found =>
      obtain ⟨name, rest⟩ := found
      -- a name without a value is put back, and there is nothing to fill in it
      have hnone : value (String.ofList name) = none := by
        have hk : known (String.ofList name) = false := by
          simpa only [begins, hname] using h
        rw [← Option.not_isSome_iff_eq_none, hvalue, hk]
        decide
      obtain ⟨rfl, hword⟩ := name?_eq_some hname
      rw [replace_of_name hname, hnone, replace_append fun c hc => (ne_of_isWordChar (hword c hc)).1,
        replace_of_ne (by decide)]
      simp
  · exact replace_of_ne hc

/-! ### Delimited text -/

/-- What stands between delimiters is not filled, up to the closing one, or to the end if there is
none. -/
theorem replace_within (hd : d ≠ '(') (h : standFree known (some d) cs = true) :
    (∃ inside rest, cs = inside ++ d :: rest ∧ d ∉ inside ∧ standFree known none rest = true ∧
      ∀ value, (∀ n, (value n).isSome = known n) →
        replace '(' ')' value cs = inside ++ d :: replace '(' ')' value rest) ∨
    (d ∉ cs ∧ ∀ value, (∀ n, (value n).isSome = known n) → replace '(' ')' value cs = cs) := by
  induction cs with
  | nil =>
    refine .inr ⟨List.not_mem_nil, fun value _ => ?_⟩
    rw [replace]
  | cons c cs ih =>
    rw [standFree] at h
    split_ifs at h with hc
    · subst hc
      exact .inl ⟨[], cs, rfl, List.not_mem_nil, h, fun value _ => replace_of_ne hd⟩
    · rw [Bool.and_eq_true, Bool.not_eq_true'] at h
      obtain ⟨hbegins, h⟩ := h
      rcases ih h with ⟨inside, rest, rfl, hinside, hrest, hreplace⟩ | ⟨hno, hreplace⟩
      · refine .inl ⟨c :: inside, rest, rfl, ?_, hrest, fun value hvalue => ?_⟩
        · rw [List.mem_cons, not_or]
          exact ⟨fun he => hc he.symm, hinside⟩
        · rw [replace_cons hvalue hbegins, hreplace value hvalue, List.cons_append]
      · refine .inr ⟨?_, fun value hvalue => ?_⟩
        · rw [List.mem_cons, not_or]
          exact ⟨fun he => hc he.symm, hno⟩
        · rw [replace_cons hvalue hbegins, hreplace value hvalue]

theorem standFree_of_append (hd : d ∉ name) (h : standFree known (some d) (name ++ d :: rest) = true) :
    standFree known none rest = true := by
  induction name with
  | nil =>
    rw [List.nil_append, standFree, if_pos rfl] at h
    exact h
  | cons c name ih =>
    rw [List.mem_cons, not_or] at hd
    rw [List.cons_append, standFree, if_neg (Ne.symm hd.1), Bool.and_eq_true] at h
    exact ih hd.2 h.2

end Placeholder

/-! ### Values of two records -/

namespace Record

/-- The texts are the values of one name in the two records. -/
def Pair (p q : Record) (v w : String) : Prop :=
  ∃ name a b, p.get? name = some a ∧ q.get? name = some b ∧ a.display = v ∧ b.display = w

/-- No value contains quotes of both kinds. -/
def Quotable (r : Record) : Prop := ∀ e ∈ r.entries, IsQuotable e.2.display

instance (r : Record) : Decidable r.Quotable :=
  inferInstanceAs (Decidable (∀ e ∈ r.entries, IsQuotable e.2.display))

variable {p q r : Record} {name : String} {v : Value}

theorem contains_iff : r.contains name = true ↔ name ∈ r.names := by
  unfold contains get? names
  rw [List.lookup_isSome_iff, List.mem_map]
  refine exists_congr fun e => and_congr_right fun _ => ?_
  rw [beq_iff_eq, eq_comm]

theorem get?_eq_none_iff : r.get? name = none ↔ name ∉ r.names := by
  rw [← contains_iff, contains, Option.not_isSome_iff_eq_none]

theorem mem_names_of_get? (h : r.get? name = some v) : name ∈ r.names := by
  by_contra hn
  rw [get?_eq_none_iff.2 hn] at h
  cases h

theorem contains_eq_of_names (h : p.names = q.names) : p.contains = q.contains := by
  funext name
  rw [Bool.eq_iff_iff, contains_iff, contains_iff, h]

theorem Quotable.get? (h : r.Quotable) (hv : r.get? name = some v) : IsQuotable v.display :=
  h (name, v) (mem_of_lookup_eq_some hv)

end Record

namespace Placeholder

open Reading (closing?)

variable {p q : Record}

/-- The quoted value of a parameter, if it has one. -/
def quoted? (params : Record) (name : String) : Option String :=
  (params.get? name).map fun v => (Token.const v.display).display

theorem isSome_quoted? (params : Record) (name : String) :
    (quoted? params name).isSome = params.contains name := by
  rw [quoted?, Option.isSome_map]
  rfl

/-- **Filled in from two records, a text has twins.** -/
theorem twin_replace (hnames : p.contains = q.contains) (hp : p.Quotable) (hq : q.Quotable)
    {cs : List Char} (hfree : standFree p.contains none cs = true) :
    Reading.Twin (p.Pair q) (replace '(' ')' (quoted? p) cs) (replace '(' ')' (quoted? q) cs) := by
  have hknown : ∀ n, (quoted? q n).isSome = p.contains n := fun n => by rw [isSome_quoted?, hnames]
  -- one turn takes a parameter, a delimited text or a character
  induction hn : cs.length using Nat.strong_induction_on generalizing cs with
  | _ n ih =>
  subst hn
  cases cs with
  | nil =>
    rw [replace, replace]
    exact .refl []
  | cons c cs =>
    rw [standFree] at hfree
    cases hb : begins p.contains (c :: cs) with
    | true =>
      obtain ⟨rfl, name, rest, hname, hv⟩ := begins_iff.1 hb
      obtain ⟨v, hv⟩ := Option.isSome_iff_exists.1 hv
      obtain ⟨w, hw⟩ := Option.isSome_iff_exists.1
        ((congrFun hnames _).symm.trans (by rw [Record.contains, hv]; rfl))
      obtain ⟨rfl, hword⟩ := name?_eq_some hname
      have hrest : standFree p.contains none rest = true :=
        standFree_of_append (fun hc => (ne_of_isWordChar (hword _ hc)).2 rfl) hfree
      rw [replace_of_name hname, replace_of_name hname, quoted?, quoted?, hv, hw]
      exact .value ⟨_, v, w, hv, hw, rfl, rfl⟩ (hp.get? hv) (hq.get? hw)
        (ih rest.length (by simp; omega) hrest rfl)
    | false =>
      rw [replace_cons (isSome_quoted? p) hb, replace_cons hknown hb]
      cases hd : closing? c with
      | none =>
        rw [hd] at hfree
        exact .char (Reading.not_isOpening_of_closing? hd)
          (ih cs.length (Nat.lt_succ_self _) hfree rfl)
      | some d =>
        rw [hd] at hfree
        have hne : d ≠ '(' := by
          rcases Reading.closing?_cases hd with ⟨-, rfl⟩ | ⟨-, rfl⟩ | ⟨-, rfl⟩ <;> decide
        rcases replace_within hne hfree with
          ⟨inside, rest, rfl, hinside, hrest, hreplace⟩ | ⟨-, hreplace⟩
        · rw [hreplace _ (isSome_quoted? p), hreplace _ hknown]
          exact (ih rest.length (by simp; omega) hrest rfl).delimited hd hinside
        · rw [hreplace _ (isSome_quoted? p), hreplace _ hknown]
          exact .refl _

end Placeholder

/-! ### Command lines -/

open Placeholder (fillParams standFree)

/-- **The values of the parameters do not decide how a command line is read.** With other values of the
same parameters it fails as well, or it is read as the same kind of line with the same statements, in
which constants of values alone differ; no value may contain quotes of both kinds, and no parameter may
stand between delimiters. -/
theorem Line.read_fillParams (p q : Record) (text : String) (hnames : p.names = q.names)
    (hp : p.Quotable) (hq : q.Quotable) (hfree : standFree p.contains none text.toList = true) :
    Line.ReadTwin (p.Pair q) (Line.read (fillParams p text)) (Line.read (fillParams q text)) := by
  have htwin := Placeholder.twin_replace (Record.contains_eq_of_names hnames) hp hq hfree
  unfold Line.read fillParams
  rw [String.toList_ofList, String.toList_ofList]
  exact Reading.line_twin htwin

/-- A line about what was said, with two parameters and a variable. -/
def saidText : String := "said (line) if awake (who), !deaf (who) (listener)"

def quietValues : Record := .ofList [("line", .text "hello"), ("who", .text "sam")]

/-- Values that would be more than a constant if they were not quoted. -/
def loudValues : Record :=
  .ofList [("line", .text "\", !open door if (x):\n"), ("who", .text "alex (the cook), 'al' to most")]

/-- What the line says with the quiet values. -/
def saidLine : Line :=
  .rule ⟨["said", "%"], [.const "hello"], false⟩
    [⟨["awake", "%"], [.const "sam"], false⟩,
      ⟨["deaf", "%", "%"], [.const "sam", .var "listener"], true⟩]

theorem Line.read_fillParams_said :
    Line.read (fillParams quietValues saidText) = .ok saidLine ∧
      ∃ l, Line.read (fillParams loudValues saidText) = .ok l ∧
        saidLine.Twin (quietValues.Pair loudValues) l := by
  have hquiet : Line.read (fillParams quietValues saidText) = .ok saidLine := by decide +kernel
  have htwin := Line.read_fillParams quietValues loudValues saidText (by decide +kernel)
    (by decide +kernel) (by decide +kernel) (by decide +kernel)
  rw [hquiet] at htwin
  generalize hloud : Line.read (fillParams loudValues saidText) = r at htwin
  cases htwin with
  | @read _ l hl => exact ⟨hquiet, l, rfl, hl⟩

/-- A text whose own quotes close what it is quoted with: statements of its own follow. -/
def intrudingValues : Record := .ofList [("line", .text "', open door, said '\"")]

/-- Values with quotes of both kinds decide how a line is read, even of a line with no delimiters but
those of the parameter. -/
theorem Line.read_fillParams_quotes :
    ¬ ∀ (p q : Record) (text : String), p.names = q.names →
      (∀ r ∈ [p, q], ∀ e ∈ r.entries, e.2.text?.isSome = true) →
      standFree p.contains none text.toList = true →
      Line.ReadTwin (p.Pair q) (Line.read (fillParams p text)) (Line.read (fillParams q text)) := by
  intro h
  have hclaim : Line.read (fillParams (.ofList [("line", .text "hello")]) "said (line)") =
      .ok (.claim ⟨["said", "%"], [.const "hello"], false⟩) := by decide +kernel
  have hconjunction : Line.read (fillParams intrudingValues "said (line)") =
      .ok (.conjunction [⟨["said", "%"], [.const ""], false⟩, ⟨["open door"], [], false⟩,
        ⟨["said", "%"], [.const "\""], false⟩]) := by decide +kernel
  have htwin := h (.ofList [("line", .text "hello")]) intrudingValues "said (line)" (by decide +kernel)
    (by decide +kernel) (by decide +kernel)
  rw [hclaim, hconjunction] at htwin
  cases htwin with
  | read hl => cases hl

/-- A parameter between parentheses becomes a part of a name. -/
example : Line.read (fillParams (.ofList [("x", .text "a")]) "said ((x))") =
    .ok (.claim ⟨["said", "%"], [.var "\"a\""], false⟩) := by decide +kernel

end PassageLogic
