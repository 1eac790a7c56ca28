import PassageLogic.Proofs.Statement.Grammatical
import PassageLogic.Proofs.Template.Parameters

/-! # Filling and reading

To fill the parameters of a printed line and to read it is to put the values in place of the variables
of the line (`Line.read_withValues`). Piece by piece, what is printed becomes what is printed with the
values in place (`Placeholder.Becomes`): a placeholder is a variable as it is printed, and neither
barewords nor separators begin one. The filled line is well formed again, for the values fit between
quotes. -/

namespace PassageLogic

/-! ### Values in place of variables -/

/-- The constant that holds the value of the variable, if it is named and the record has one. -/
def Token.withValues (params : Record) : Token → Token
  | .const value => .const value
  | .var name =>
    if name = "" then .var name
    else
      match params.get? name with
      | some v => .const v.display
      | none => .var name

theorem Token.withValues_of_some {params : Record} {name : String} {v : Value} (hne : name ≠ "")
    (h : params.get? name = some v) : (Token.var name).withValues params = .const v.display := by
  rw [withValues, if_neg hne, h]

theorem Token.withValues_of_none {params : Record} {name : String}
    (h : name = "" ∨ params.get? name = none) : (Token.var name).withValues params = .var name := by
  rw [withValues]
  split_ifs with hempty
  · rfl
  · rw [h.resolve_left hempty]

/-- A variable stays, or it becomes the constant that holds its value. -/
theorem Token.withValues_var (params : Record) (name : String) :
    (name = "" ∨ params.get? name = none) ∧ (Token.var name).withValues params = .var name ∨
      ∃ v, name ≠ "" ∧ params.get? name = some v ∧
        (Token.var name).withValues params = .const v.display := by
  by_cases hkept : name = "" ∨ params.get? name = none
  · exact .inl ⟨hkept, withValues_of_none hkept⟩
  · obtain ⟨hempty, hv⟩ := not_or.1 hkept
    obtain ⟨v, hv⟩ := Option.ne_none_iff_exists'.1 hv
    exact .inr ⟨v, hempty, hv, withValues_of_some hempty hv⟩

/-- The statement with the values in place of its variables; the words stay. -/
def Statement.withValues (params : Record) (st : Statement) : Statement :=
  { st with tokens := st.tokens.map (Token.withValues params) }

/-- The line with the values in place of the variables of all its statements. -/
def Line.withValues (params : Record) : Line → Line
  | .claim st => .claim (st.withValues params)
  | .rule head body => .rule (head.withValues params) (body.map (Statement.withValues params))
  | .conjunction sts => .conjunction (sts.map (Statement.withValues params))

/-! ### What a text becomes -/

namespace Placeholder

/-- Filled in front of any other text, these characters become those. -/
def Becomes (value : String → Option String) (cs ds : List Char) : Prop :=
  ∀ rest, replace '(' ')' value (cs ++ rest) = ds ++ replace '(' ')' value rest

variable {value : String → Option String} {cs cs' ds ds' name rest : List Char}

theorem becomes_self (h : '(' ∉ cs) : Becomes value cs cs := fun _ =>
  replace_append fun _ hc he => h (he ▸ hc)

theorem Becomes.append (h : Becomes value cs ds) (h' : Becomes value cs' ds') :
    Becomes value (cs ++ cs') (ds ++ ds') := by
  intro rest
  rw [List.append_assoc, h, h', List.append_assoc]

theorem Becomes.replace_eq (h : Becomes value cs ds) : replace '(' ')' value cs = ds := by
  have hall := h []
  rwa [List.append_nil, replace, List.append_nil] at hall

/-- Texts become others one by one, also with separators between them. -/
theorem becomes_joinWith {separator : String} (hs : '(' ∉ separator.toList) {vs ws : List String}
    (h : List.Forall₂ (fun v w => Becomes value v.toList w.toList) vs ws) :
    Becomes value (Text.joinWith separator vs).toList (Text.joinWith separator ws).toList := by
  induction h with
  | nil => exact becomes_self List.not_mem_nil
  | @cons v w vs ws hvw hrest ih =>
    cases hrest with
    | nil => exact hvw
    | cons _ _ =>
      rw [Text.joinWith_cons_cons, Text.joinWith_cons_cons]
      simp only [String.toList_append]
      exact (hvw.append (becomes_self hs)).append ih

/-! ### Variables -/

/-- What is found where a run of word characters ends. -/
theorem name?_append (hname : ∀ c ∈ name, Text.isWordChar c = true)
    (hrest : ∀ c, rest.head? = some c → Text.isWordChar c = false) :
    name? ')' (name ++ rest) =
      if name ≠ [] ∧ rest.head? = some ')' then some (name, rest.tail) else none := by
  have htake : rest.takeWhile Text.isWordChar = [] := by
    cases rest with
    | nil => rfl
    | cons c rest => exact List.takeWhile_cons_of_neg (by simp [hrest c rfl])
  unfold name?
  rw [List.takeWhile_append_of_pos hname, htake, List.append_nil, List.dropWhile_append_of_pos hname,
    Text.dropWhile_of_head hrest]
  cases name <;> cases rest <;> simp

/-- A name before its delimiter is found. -/
theorem name?_of_isWordChar (hne : name ≠ []) (h : ∀ c ∈ name, Text.isWordChar c = true) :
    name? ')' (name ++ ')' :: rest) = some (name, rest) := by
  have hrest : ∀ c, (')' :: rest).head? = some c → Text.isWordChar c = false := by
    intro c hc
    cases hc
    decide
  rw [name?_append h hrest, if_pos ⟨hne, rfl⟩, List.tail_cons]

/-- The name up to its delimiter. -/
theorem takeWhile_closed (hno : ')' ∉ name) :
    (name ++ ')' :: rest).takeWhile (fun c => c != ')') = name := by
  have hall : ∀ c ∈ name, (c != ')') = true := fun c hc => bne_iff_ne.2 fun he => hno (he ▸ hc)
  rw [List.takeWhile_append_of_pos hall, List.takeWhile_cons_of_neg (by decide), List.append_nil]

/-- No parameter begins at a variable whose name has no value. -/
theorem begins_variable {known : String → Bool} (hno : ')' ∉ name)
    (h : name = [] ∨ known (String.ofList name) = false) :
    begins known ('(' :: (name ++ ')' :: rest)) = false := by
  rw [Bool.eq_false_iff]
  intro hb
  obtain ⟨-, name', rest', hname, hknown⟩ := begins_iff.1 hb
  obtain ⟨hsplit, hword⟩ := name?_eq_some hname
  have hno' : ')' ∉ name' := fun hc => (ne_of_isWordChar (hword _ hc)).2 rfl
  obtain rfl : name = name' := by rw [← takeWhile_closed hno, hsplit, takeWhile_closed hno']
  rcases h with rfl | h
  · cases hname
  · rw [h] at hknown
    cases hknown

variable {params : Record}

/-- A variable becomes the constant that holds its value, if it is named and has one. -/
theorem becomes_variable {name : String} (hopen : '(' ∉ name.toList) (hclose : ')' ∉ name.toList)
    (hnames : ∀ name ∈ params.names, ∀ c ∈ name.toList, Text.isWordChar c = true) :
    Becomes (quoted? params) (Token.var name).display.toList
      ((Token.var name).withValues params).display.toList := by
  have hdisplay : (Token.var name).display.toList = '(' :: (name.toList ++ [')']) := by
    simp [Token.display]
  -- without a value it stays as it is
  have hstays : name.toList = [] ∨ params.contains (String.ofList name.toList) = false →
      Becomes (quoted? params) (Token.var name).display.toList (Token.var name).display.toList := by
    intro h rest
    have hbegins : begins params.contains ('(' :: (name.toList ++ ')' :: rest)) = false :=
      begins_variable hclose h
    have hplain : Becomes (quoted? params) (name.toList ++ [')']) (name.toList ++ [')']) :=
      becomes_self (by simp [hopen])
    have hrest := hplain rest
    rw [hdisplay, List.cons_append, List.cons_append, ← hrest]
    refine replace_cons (isSome_quoted? params) ?_
    rwa [List.append_assoc, List.singleton_append]
  rw [String.ofList_toList] at hstays
  rcases Token.withValues_var params name with ⟨hkept, he⟩ | ⟨v, hempty, hv, he⟩
  · rw [he]
    exact hstays (hkept.imp String.toList_eq_nil_iff.2 fun hv => by rw [Record.contains, hv]; rfl)
  · intro rest
    have hne : name.toList ≠ [] := fun h => hempty (String.toList_eq_nil_iff.1 h)
    have hword := hnames name (Record.mem_names_of_get? hv)
    rw [he, hdisplay, List.cons_append, List.append_assoc, List.singleton_append,
      replace_of_name (name?_of_isWordChar hne hword), String.ofList_toList, quoted?, hv]
    rfl

end Placeholder

/-! ### What a line becomes -/

open Placeholder (Becomes becomes_self becomes_joinWith becomes_variable quoted? fillParams)

section Becomes

variable {params : Record}
  (hnames : ∀ name ∈ params.names, ∀ c ∈ name.toList, Text.isWordChar c = true)
include hnames

theorem Token.becomes {t : Token} (ht : t.WellFormed)
    (hconst : ∀ value, t = .const value → '(' ∉ value.toList) :
    Becomes (quoted? params) t.display.toList (t.withValues params).display.toList := by
  cases t with
  | var name => exact becomes_variable ht.2.1 ht.2.2 hnames
  | const value =>
    have hopen := hconst value rfl
    refine becomes_self ?_
    rw [display]
    split_ifs <;> simp [hopen]

/-- The words of a statement stay, and its tokens become what they are with the values in place. -/
theorem Statement.becomes_filled {ws : List String} (hws : ∀ w ∈ ws, '(' ∉ w.toList)
    {ts : List Token} (hts : ∀ t ∈ ts, Becomes (quoted? params) t.display.toList
      (t.withValues params).display.toList) :
    List.Forall₂ (fun v w => Becomes (quoted? params) v.toList w.toList)
      (Statement.filled ws ts) (Statement.filled ws (ts.map (Token.withValues params))) := by
  induction ws generalizing ts with
  | nil => exact .nil
  | cons w ws ih =>
    obtain ⟨hw, hws⟩ := List.forall_mem_cons.1 hws
    unfold filled
    split
    · cases ts with
      | nil =>
        have hnameless : Becomes (quoted? params) "()".toList "()".toList :=
          @becomes_variable params "" List.not_mem_nil List.not_mem_nil hnames
        exact .cons hnameless (ih hws hts)
      | cons t ts =>
        obtain ⟨ht, hts⟩ := List.forall_mem_cons.1 hts
        exact .cons ht (ih hws hts)
    · exact .cons (becomes_self hw) (ih hws hts)

theorem Statement.becomes {st : Statement} (hst : st.WellFormed)
    (hconst : ∀ value, .const value ∈ st.tokens → '(' ∉ value.toList) :
    Becomes (quoted? params) st.display.toList (st.withValues params).display.toList := by
  have hws : ∀ w ∈ st.words, '(' ∉ w.toList := by
    intro w hw hc
    by_cases hp : w = placeholder
    · subst hp
      exact absurd hc (by decide)
    · rcases (hst.barewords w hw hp).plain _ hc with h | h <;> exact absurd h (by decide)
  have hts : ∀ t ∈ st.tokens, Becomes (quoted? params) t.display.toList
      (t.withValues params).display.toList := fun t ht =>
    Token.becomes hnames (hst.terms t ht) fun value hv => hconst value (hv ▸ ht)
  have hmark : '(' ∉ (if st.negated then "!" else "").toList := by
    split <;> decide
  unfold display
  rw [String.toList_append, String.toList_append]
  exact (becomes_self hmark).append (becomes_joinWith (by decide) (becomes_filled hnames hws hts))

theorem Line.becomes_displayAll {sts : List Statement} (hsts : ∀ st ∈ sts, st.WellFormed)
    (hconst : ∀ st ∈ sts, ∀ value, .const value ∈ st.tokens → '(' ∉ value.toList) :
    Becomes (quoted? params) (displayAll sts).toList
      (displayAll (sts.map (Statement.withValues params))).toList := by
  refine becomes_joinWith (by decide) ?_
  rw [List.map_map, List.forall₂_map_left_iff, List.forall₂_map_right_iff, List.forall₂_same]
  exact fun st hst => Statement.becomes hnames (hsts st hst) (hconst st hst)

/-- **Filling a printed line puts the values in place**, whatever follows it. -/
theorem Line.becomes {l : Line} (hl : l.WellFormed)
    (hconst : ∀ st ∈ l.statements, ∀ value, .const value ∈ st.tokens → '(' ∉ value.toList) :
    Becomes (quoted? params) l.display.toList (l.withValues params).display.toList := by
  cases l with
  | claim st => exact Statement.becomes hnames hl (hconst st (by simp [statements]))
  | rule head body =>
    obtain ⟨hhead, -, hbody⟩ := hl
    obtain ⟨hc, hcs⟩ := List.forall_mem_cons.1 hconst
    rw [withValues, display, display]
    simp only [String.toList_append]
    have hif : '(' ∉ " if ".toList := by decide
    exact ((Statement.becomes hnames hhead hc).append (becomes_self hif)).append
      (Line.becomes_displayAll hnames hbody hcs)
  | conjunction sts => exact Line.becomes_displayAll hnames hl.2 hconst

end Becomes

/-! ### The filled line -/

section WellFormed

variable {params : Record} (hvalues : ∀ e ∈ params.entries, (Token.const e.2.display).WellFormed)
include hvalues

theorem Token.WellFormed.withValues {t : Token} (ht : t.WellFormed) :
    (t.withValues params).WellFormed := by
  cases t with
  | const value => exact ht
  | var name =>
    rcases Token.withValues_var params name with ⟨-, he⟩ | ⟨v, -, hv, he⟩
    · rw [he]
      exact ht
    · rw [he]
      exact hvalues (name, v) (mem_of_lookup_eq_some hv)

theorem Statement.WellFormed.withValues {st : Statement} (hst : st.WellFormed) :
    (st.withValues params).WellFormed where
  nonempty := by
    have hempty : (st.withValues params).isEmpty = st.isEmpty := by
      simp [isEmpty, Statement.withValues]
    rw [hempty]
    exact hst.nonempty
  placed := by
    simpa [Statement.withValues] using hst.placed
  barewords := hst.barewords
  apart := hst.apart
  terms := List.forall_mem_map.2 fun t ht => (hst.terms t ht).withValues hvalues

theorem Line.WellFormed.withValues {l : Line} (hl : l.WellFormed) :
    (l.withValues params).WellFormed := by
  cases l with
  | claim st => exact Statement.WellFormed.withValues hvalues hl
  | rule head body =>
    obtain ⟨hhead, hne, hbody⟩ := hl
    exact ⟨hhead.withValues hvalues, by simpa using hne,
      List.forall_mem_map.2 fun st hst => (hbody st hst).withValues hvalues⟩
  | conjunction sts =>
    exact ⟨by simpa using hl.1,
      List.forall_mem_map.2 fun st hst => (hl.2 st hst).withValues hvalues⟩

end WellFormed

/-- **Filling and reading commute.** If parameters are named by word characters and have values that
fit between quotes, then to fill the text of a line and to read it gives the line with the values in
place of its variables, and all else as it was; no constant of the line may contain an opening
parenthesis. The constants of a line are themselves such values. -/
theorem Line.read_withValues {l : Line} {params : Record} (hl : ∃ text, Line.read text = .ok l)
    (hconst : ∀ st ∈ l.statements, ∀ value, .const value ∈ st.tokens → '(' ∉ value.toList)
    (hnames : ∀ name ∈ params.names, ∀ c ∈ name.toList, Text.isWordChar c = true)
    (hvalues : ∀ e ∈ params.entries, Text.IsTrimmed e.2.display.toList ∧ IsQuotable e.2.display) :
    Line.read (fillParams params l.display) = .ok (l.withValues params) ∧
      ∀ st ∈ l.statements, ∀ value, .const value ∈ st.tokens →
        Text.IsTrimmed value.toList ∧ IsQuotable value := by
  obtain ⟨text, htext⟩ := hl
  have hwf : l.WellFormed := Reading.line_wellFormed htext
  have hfilled : fillParams params l.display = (l.withValues params).display := by
    rw [← String.toList_inj]
    exact String.toList_ofList.trans (Line.becomes hnames hwf hconst).replace_eq
  have hclosing : IsClosing "" := fun c hc => by simp at hc
  have hwf' := hwf.withValues hvalues
  have hread := hwf'.read_eq hwf'.written_display hclosing
  rw [String.append_empty] at hread
  rw [hfilled]
  exact ⟨hread, fun st hst value hv => (hwf.statements st hst).terms _ hv⟩

/-- A host with quotes and parentheses in the name, a number and a dish. -/
def feastValues : Record :=
  .ofList [("who", .text "\"Red\" (the host)"), ("count", .int 3), ("cook", .text "pie")]

/-- A rule with a nameless variable and with one whose name is two words. -/
def feastRule : Line :=
  .rule ⟨["%", "serves", "%"], [.var "who", .var "dish"], false⟩
    [⟨["guests", "%", "%"], [.var "count", .var ""], false⟩,
      ⟨["%", "who", "%", "%"], [.var "the cook", .const "who's", .var "who"], true⟩]

theorem Line.read_withValues_feast :
    (∃ text, Line.read text = .ok feastRule) ∧
      (∀ st ∈ feastRule.statements, ∀ value, .const value ∈ st.tokens → '(' ∉ value.toList) ∧
      (∀ name ∈ feastValues.names, ∀ c ∈ name.toList, Text.isWordChar c = true) ∧
      (∀ e ∈ feastValues.entries, Text.IsTrimmed e.2.display.toList ∧ IsQuotable e.2.display) ∧
      Line.read (fillParams feastValues feastRule.display) =
        .ok (.rule ⟨["%", "serves", "%"], [.const "\"Red\" (the host)", .var "dish"], false⟩
          [⟨["guests", "%", "%"], [.const "3", .var ""], false⟩,
            ⟨["%", "who", "%", "%"],
              [.var "the cook", .const "who's", .const "\"Red\" (the host)"], true⟩]) := by
  have hl : ∃ text, Line.read text = .ok feastRule := ⟨feastRule.display, by decide +kernel⟩
  have hconst : ∀ st ∈ feastRule.statements, ∀ value, .const value ∈ st.tokens →
      '(' ∉ value.toList := by
    simp [feastRule, Line.statements]
  have hnames : ∀ name ∈ feastValues.names, ∀ c ∈ name.toList, Text.isWordChar c = true := by
    have hall : (feastValues.names.all fun name => name.toList.all Text.isWordChar) = true := by
      decide +kernel
    simpa only [List.all_eq_true] using hall
  have hvalues : ∀ e ∈ feastValues.entries,
      Text.IsTrimmed e.2.display.toList ∧ IsQuotable e.2.display := by decide +kernel
  exact ⟨hl, hconst, hnames, hvalues, (Line.read_withValues hl hconst hnames hvalues).1.trans
    (congrArg _ (by decide +kernel))⟩

end PassageLogic
