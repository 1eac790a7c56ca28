import PassageLogic.Json.Statement
import PassageLogic.Json.Template
import PassageLogic.Proofs.Json.Decoding

/-! # Data and their documents

What is decoded from the written document of a datum is the datum again (`Json.round_trip`). For each type
there are two lemmas: its documents are plain, with a bound for their height, and the decoder undoes the
encoder. Only binary64 numbers are left out; values of the other kinds are exact. Integers of 64 bits
come back as integers, since a numeral without fraction and exponent that fits is never taken for a binary64
number, and texts come back as texts, whatever they spell. -/

namespace PassageLogic

open Json

/-! ### Values and terms -/

/-- The value is no binary64 number, so that its document says exactly what it is. -/
def Value.IsExact : Value → Prop
  | .float _ => False
  | _ => True

instance : DecidablePred Value.IsExact
  | .bool _ | .int _ | .text _ => .isTrue trivial
  | .float _ => .isFalse id

/-- The values of the term are exact. -/
def Term.IsExact : Term → Prop
  | .var _ => True
  | .const value => value.IsExact

instance : DecidablePred Term.IsExact
  | .var _ => .isTrue trivial
  | .const value => inferInstanceAs (Decidable value.IsExact)

/-- The values of the literal are exact. -/
def Literal.IsExact (l : Literal) : Prop := ∀ t ∈ l.terms, t.IsExact
deriving Decidable

/-- The values of the clause are exact. -/
def Clause.IsExact (c : Clause) : Prop := ∀ l ∈ c.head :: c.body, l.IsExact
deriving Decidable

/-- The values of the record are exact. -/
def Record.IsExact (r : Record) : Prop := ∀ e ∈ r.entries, e.2.IsExact
deriving Decidable

/-- The arguments of the directive are exact. -/
def Directive.IsExact (d : Directive) : Prop := ∀ v ∈ d.args, v.IsExact
deriving Decidable

namespace Value

theorem natAbs_le_largestWord (n : Int64) : n.toInt.natAbs ≤ Numeral.largestWord := by
  have hle := n.le_toInt
  have hlt := n.toInt_lt
  unfold Numeral.largestWord
  omega

theorem number?_ofInt_of_nonneg {n : Int64} (h : 0 ≤ n.toInt) :
    (Numeral.ofInt n.toInt).number? = some (.natural n.toInt.natAbs) := by
  have hsign : decide (n.toInt < 0) = false := by simp [h]
  simp [Numeral.ofInt, Numeral.number?, Text.decimalValue_toDigits, hsign, natAbs_le_largestWord]

theorem number?_ofInt_of_neg {n : Int64} (h : n.toInt < 0) :
    (Numeral.ofInt n.toInt).number? = some (.negative n.toInt) := by
  have hle := n.le_toInt
  have hsize : 0 < n.toInt.natAbs ∧ n.toInt.natAbs ≤ Numeral.largestNegative := by
    unfold Numeral.largestNegative
    omega
  have hvalue : -Int.ofNat n.toInt.natAbs = n.toInt := by
    show -(n.toInt.natAbs : Int) = n.toInt
    omega
  simp only [Numeral.ofInt, Numeral.number?, Text.decimalValue_toDigits, decide_eq_true h,
    natAbs_le_largestWord, hsize.1, hsize.2, hvalue]
  rfl

/-- **An integer is decoded as itself**, whatever its sign and size. -/
theorem ofJson?_int (n : Int64) : ofJson? (Value.int n).toJson = some (.int n) := by
  have hlt := n.toInt_lt
  by_cases h : 0 ≤ n.toInt
  · have hfits : n.toInt.natAbs ≤ Int64.maxValue.toInt.toNat := by
      have hmax : Int64.maxValue.toInt.toNat = 2 ^ 63 - 1 := by decide
      omega
    have hsame : Int64.ofNat n.toInt.natAbs = n := by
      rw [← Int64.ofInt_eq_ofNat, Int.natAbs_of_nonneg h, Int64.ofInt_toInt]
    simp only [toJson, ofInt, ofJson?, number?_ofInt_of_nonneg h, if_pos hfits, hsame]
  · simp only [toJson, ofInt, ofJson?, number?_ofInt_of_neg (Int.not_le.1 h), Int64.ofInt_toInt]

theorem ofJson?_toJson {v : Value} (h : v.IsExact) : ofJson? v.toJson = some v := by
  cases v with
  | bool b => rfl
  | int n => exact ofJson?_int n
  | float x => exact h.elim
  | text s => rfl

theorem plain_toJson {v : Value} (h : v.IsExact) : v.toJson.Plain 0 := by
  cases v with
  | bool b => exact plain_bool 0 b
  | int n =>
    refine ⟨.number (Numeral.wellFormed_ofInt _), ?_, Nat.le_refl 0⟩
    show (Numeral.ofInt n.toInt).number?.isSome = true
    by_cases hn : 0 ≤ n.toInt
    · rw [number?_ofInt_of_nonneg hn]
      rfl
    · rw [number?_ofInt_of_neg (Int.not_le.1 hn)]
      rfl
  | float x => exact h.elim
  | text s => exact plain_text 0 s

end Value

namespace Term

theorem ofJson?_toJson {t : Term} (h : t.IsExact) : ofJson? t.toJson = some t := by
  cases t with
  | var name => rfl
  | const value =>
    have hvalue : Value.ofJson? value.toJson = some value := Value.ofJson?_toJson h
    simp [toJson, ofJson?, ofMembers, variant?, hvalue]

theorem plain_toJson {t : Term} (h : t.IsExact) : t.toJson.Plain 1 := by
  cases t with
  | var name => exact plain_ofMembers (List.forall_mem_singleton.2 (plain_text 0 name))
  | const value => exact plain_ofMembers (List.forall_mem_singleton.2 (Value.plain_toJson h))

end Term

/-! ### Literals and clauses -/

namespace Literal

theorem ofJson?_toJson {l : Literal} (h : l.IsExact) : ofJson? l.toJson = some l := by
  have hfields : fields? fields l.toJson = some [some (.text l.predicate),
      some (.array (l.terms.map Term.toJson)), some (.bool l.negated)] :=
    fields?_ofMembers rfl (by decide)
  have hterms : list? Term.ofJson? (.array (l.terms.map Term.toJson)) = some l.terms :=
    list?_encoded fun t ht => Term.ofJson?_toJson (h t ht)
  simp [ofJson?, hfields, required, orElse, hterms]

theorem plain_toJson {l : Literal} (h : l.IsExact) : l.toJson.Plain 3 := by
  have hterms : (Json.array (l.terms.map Term.toJson)).Plain 2 :=
    plain_map fun t ht => Term.plain_toJson (h t ht)
  refine plain_ofMembers ?_
  simp [plain_text, plain_bool, hterms]

end Literal

namespace Clause

theorem ofJson?_toJson {c : Clause} (h : c.IsExact) : ofJson? c.toJson = some c := by
  obtain ⟨hhead, hbody⟩ := List.forall_mem_cons.1 h
  have hfields : fields? [("head", .refused), ("body", .refused)] c.toJson =
      some [some c.head.toJson, some (.array (c.body.map Literal.toJson))] :=
    fields?_ofMembers rfl (by decide)
  have hliterals : list? Literal.ofJson? (.array (c.body.map Literal.toJson)) = some c.body :=
    list?_encoded fun l hl => Literal.ofJson?_toJson (hbody l hl)
  simp [ofJson?, hfields, required, Literal.ofJson?_toJson hhead, hliterals]

theorem plain_toJson {c : Clause} (h : c.IsExact) : c.toJson.Plain 5 := by
  obtain ⟨hhead, hbody⟩ := List.forall_mem_cons.1 h
  have hliterals : (Json.array (c.body.map Literal.toJson)).Plain 4 :=
    plain_map fun l hl => Literal.plain_toJson (hbody l hl)
  refine plain_ofMembers ?_
  simp [(Literal.plain_toJson hhead).mono (show 3 ≤ 4 by decide), hliterals]

end Clause

/-! ### Records and directives -/

namespace Record

/-- The entries of a record make up the record again. -/
theorem ofList_entries (r : Record) : ofList r.entries = r :=
  ext_get? fun _ => get?_ofList r.nodup_names

theorem ofJson?_toJson {r : Record} (h : r.IsExact) : ofJson? r.toJson = some r := by
  have hentries : ((r.entries.map fun e => (e.1, e.2.toJson)).map fun m => (some m.1, m.2)).mapM
      (fun m => do
        let name ← m.1
        let value ← Value.ofJson? m.2
        return (name, value)) = some r.entries := by
    rw [List.map_map]
    refine mapM_eq_some (List.forall₂_map_left_iff.2 (List.forall₂_same.2 fun e he => ?_))
    simp [Value.ofJson?_toJson (h e he)]
  unfold toJson ofMembers ofJson?
  dsimp only
  rw [hentries]
  exact congrArg some (ofList_entries r)

theorem plain_toJson {r : Record} (h : r.IsExact) : r.toJson.Plain 1 :=
  plain_ofMembers (List.forall_mem_map.2 fun e he => Value.plain_toJson (h e he))

end Record

namespace Directive

theorem ofJson?_toJson {d : Directive} (h : d.IsExact) : ofJson? d.toJson = some d := by
  have hfields : fields? [("command", .refused), ("predicate", .refused), ("args", .refused)]
      d.toJson = some [some (.text d.command), some (.text d.predicate),
        some (.array (d.args.map Value.toJson))] :=
    fields?_ofMembers rfl (by decide)
  have hargs : list? Value.ofJson? (.array (d.args.map Value.toJson)) = some d.args :=
    list?_encoded fun v hv => Value.ofJson?_toJson (h v hv)
  simp [ofJson?, hfields, required, hargs]

theorem plain_toJson {d : Directive} (h : d.IsExact) : d.toJson.Plain 2 := by
  have hargs : (Json.array (d.args.map Value.toJson)).Plain 1 :=
    plain_map fun v hv => Value.plain_toJson (h v hv)
  refine plain_ofMembers ?_
  simp [plain_text, hargs]

end Directive

/-! ### Statements and lines -/

namespace Token

theorem plain_toJson (t : Token) : t.toJson.Plain 1 := by
  cases t <;> refine plain_ofMembers ?_ <;> simp [plain_text]

theorem ofJson?_toJson {place : Place} (t : Token) (h : isReadable place t.toJson = true) :
    ofJson? place t.toJson = some t := by
  cases t with
  | const value =>
    have hchoice : choice? place ["const", "variable"] (Token.const value).toJson =
        some (0, ofMembers [("value", .text value)]) :=
      choice?_ofMembers h (by decide) (by simp [kindName])
    have hfields : fields? [("value", .refused)] (ofMembers [("value", .text value)]) =
        some [some (.text value)] := fields?_ofMembers rfl (by decide)
    simp [ofJson?, hchoice, hfields, required]
  | var name =>
    have hchoice : choice? place ["const", "variable"] (Token.var name).toJson =
        some (1, ofMembers [("name", .text name)]) :=
      choice?_ofMembers h (by decide) (by simp [kindName])
    have hfields : fields? [("name", .refused)] (ofMembers [("name", .text name)]) =
        some [some (.text name)] := fields?_ofMembers rfl (by decide)
    simp [ofJson?, hchoice, hfields, required]

end Token

namespace Statement

theorem plain_toJson (st : Statement) : st.toJson.Plain 3 := by
  have hwords : (Json.array (st.words.map Json.text)).Plain 2 := plain_map fun s _ => plain_text 1 s
  have htokens : (Json.array (st.tokens.map Token.toJson)).Plain 2 :=
    plain_map fun t _ => t.plain_toJson
  refine plain_ofMembers ?_
  simp [plain_bool, hwords, htokens]

/-- A statement is decoded where there is room for its tokens. -/
theorem ofJson?_toJson {place : Place} (st : Statement)
    (h : ∀ t : Token, isReadable (tokenPlace place) t.toJson = true) :
    ofJson? place st.toJson = some st := by
  have hfields : fields? [("predicate_words", .refused), ("tokens", .refused), ("negated", .allowed)]
      st.toJson = some [some (.array (st.words.map Json.text)),
        some (.array (st.tokens.map Token.toJson)), some (.bool st.negated)] :=
    fields?_ofMembers rfl (by decide)
  have hwords : list? text? (.array (st.words.map Json.text)) = some st.words :=
    list?_encoded fun _ _ => rfl
  have htokens : list? (Token.ofJson? (tokenPlace place)) (.array (st.tokens.map Token.toJson)) =
      some st.tokens := list?_encoded fun t _ => t.ofJson?_toJson (h t)
  simp [ofJson?, hfields, required, orElse, hwords, htokens]

theorem ofJson?_toJson_inside (st : Statement) : ofJson? (.inside 0) st.toJson = some st :=
  st.ofJson?_toJson fun t => t.plain_toJson.isReadable (by decide)

theorem ofJson?_toJson_buffered (st : Statement) : ofJson? .buffered st.toJson = some st :=
  st.ofJson?_toJson fun _ => rfl

theorem list?_buffered (sts : List Statement) :
    list? (ofJson? .buffered) (.array (sts.map toJson)) = some sts :=
  list?_encoded fun st _ => st.ofJson?_toJson_buffered

end Statement

namespace Line

theorem plain_statements (sts : List Statement) :
    (Json.array (sts.map Statement.toJson)).Plain 4 :=
  plain_map fun st _ => st.plain_toJson

theorem plain_toJson (line : Line) : line.toJson.Plain 5 := by
  have hst : ∀ st : Statement, st.toJson.Plain 4 := fun st => st.plain_toJson.mono (by decide)
  cases line <;> refine plain_ofMembers ?_ <;> simp [plain_text, hst, plain_statements]

theorem ofJson?_toJson (line : Line) : ofJson? line.toJson = some line := by
  have hreadable : isReadable (.inside 0) line.toJson = true :=
    line.plain_toJson.isReadable (by decide)
  cases line with
  | claim st =>
    have hchoice : choice? (.inside 0) ["claim", "rule", "multistatement"] (claim st).toJson =
        some (0, ofMembers [("statement", st.toJson)]) :=
      choice?_ofMembers hreadable (by decide) (by simp [kindName])
    have hfields : fields? [("statement", .refused)] (ofMembers [("statement", st.toJson)]) =
        some [some st.toJson] := fields?_ofMembers rfl (by decide)
    simp [ofJson?, hchoice, hfields, required, st.ofJson?_toJson_buffered]
  | rule head body =>
    have hchoice : choice? (.inside 0) ["claim", "rule", "multistatement"] (rule head body).toJson =
        some (1, ofMembers [("head", head.toJson), ("body", .array (body.map Statement.toJson))]) :=
      choice?_ofMembers hreadable (by decide) (by simp [kindName])
    have hfields : fields? [("head", .refused), ("body", .refused)]
        (ofMembers [("head", head.toJson), ("body", .array (body.map Statement.toJson))]) =
        some [some head.toJson, some (.array (body.map Statement.toJson))] :=
      fields?_ofMembers rfl (by decide)
    simp [ofJson?, hchoice, hfields, required, head.ofJson?_toJson_buffered,
      Statement.list?_buffered body]
  | conjunction sts =>
    have hchoice : choice? (.inside 0) ["claim", "rule", "multistatement"] (conjunction sts).toJson =
        some (2, ofMembers [("statements", .array (sts.map Statement.toJson))]) :=
      choice?_ofMembers hreadable (by decide) (by simp [kindName])
    have hfields : fields? [("statements", .refused)]
        (ofMembers [("statements", .array (sts.map Statement.toJson))]) =
        some [some (.array (sts.map Statement.toJson))] := fields?_ofMembers rfl (by decide)
    simp [ofJson?, hchoice, hfields, required, Statement.list?_buffered sts]

end Line

/-! ### Expectations and passages -/

namespace Expectation

theorem ofJson?_toJson (e : Expectation) : ofJson? e.toJson = some e := by
  cases e with
  | literal text => rfl
  | charClass name => rfl
  | ending => rfl

theorem plain_toJson (e : Expectation) : e.toJson.Plain 1 := by
  cases e with
  | literal text => exact plain_ofMembers (List.forall_mem_singleton.2 (plain_text 0 text))
  | charClass name => exact plain_ofMembers (List.forall_mem_singleton.2 (plain_text 0 name))
  | ending => exact plain_text 1 _

end Expectation

namespace Passage

theorem ofJson?_toJson (p : Passage) : ofJson? p.toJson = some p := by
  have hfields : fields? [("name", .refused), ("body", .refused)] p.toJson =
      some [some (.text p.name), some (.text p.body)] := fields?_ofMembers rfl (by decide)
  simp [ofJson?, hfields, required]

theorem plain_toJson (p : Passage) : p.toJson.Plain 1 :=
  plain_ofMembers (by simp [plain_text])

end Passage

/-- **Reading the written document of a datum gives the datum again.** Values must be exact; texts,
names, words and bodies are arbitrary. -/
theorem Json.round_trip :
    (∀ v : Value, v.IsExact → RoundTrips Value.toJson Value.ofJson? v) ∧
    (∀ t : Term, t.IsExact → RoundTrips Term.toJson Term.ofJson? t) ∧
    (∀ l : Literal, l.IsExact → RoundTrips Literal.toJson Literal.ofJson? l) ∧
    (∀ c : Clause, c.IsExact → RoundTrips Clause.toJson Clause.ofJson? c) ∧
    (∀ r : Record, r.IsExact → RoundTrips Record.toJson Record.ofJson? r) ∧
    (∀ d : Directive, d.IsExact → RoundTrips Directive.toJson Directive.ofJson? d) ∧
    (∀ t : Token, RoundTrips Token.toJson (Token.ofJson? (.inside 0)) t) ∧
    (∀ st : Statement, RoundTrips Statement.toJson (Statement.ofJson? (.inside 0)) st) ∧
    (∀ line : Line, RoundTrips Line.toJson Line.ofJson? line) ∧
    (∀ e : Expectation, RoundTrips Expectation.toJson Expectation.ofJson? e) ∧
    (∀ p : Passage, RoundTrips Passage.toJson Passage.ofJson? p) :=
  ⟨fun _ h => (Value.plain_toJson h).roundTrips (Value.ofJson?_toJson h),
    fun _ h => (Term.plain_toJson h).roundTrips (Term.ofJson?_toJson h),
    fun _ h => (Literal.plain_toJson h).roundTrips (Literal.ofJson?_toJson h),
    fun _ h => (Clause.plain_toJson h).roundTrips (Clause.ofJson?_toJson h),
    fun _ h => (Record.plain_toJson h).roundTrips (Record.ofJson?_toJson h),
    fun _ h => (Directive.plain_toJson h).roundTrips (Directive.ofJson?_toJson h),
    fun t => t.plain_toJson.roundTrips (t.ofJson?_toJson (t.plain_toJson.isReadable (by decide))),
    fun st => st.plain_toJson.roundTrips st.ofJson?_toJson_inside,
    fun line => line.plain_toJson.roundTrips line.ofJson?_toJson,
    fun e => e.plain_toJson.roundTrips e.ofJson?_toJson,
    fun p => p.plain_toJson.roundTrips p.ofJson?_toJson⟩

/-- Signs, the least integer, texts that spell a number or a truth value, quotes, backslashes and controls
are all undone. -/
theorem Json.round_trip_spelled :
    RoundTrips Value.toJson Value.ofJson? (.int Int64.minValue) ∧
    RoundTrips Term.toJson Term.ofJson? (.const (.text "-7")) ∧
    RoundTrips Literal.toJson Literal.ofJson?
      ⟨"say %", [.var "x", .const (.text "a \"b\" \\ c\n\x01")], true⟩ ∧
    RoundTrips Clause.toJson Clause.ofJson?
      ⟨.of "p" [.const (.bool true)], [.of "q" [.const (.text "true"), .const (.int (-7))]]⟩ ∧
    RoundTrips Record.toJson Record.ofJson? ((Record.empty.insert "" (.int 0)).insert "n" (.text "0")) ∧
    RoundTrips Directive.toJson Directive.ofJson? ⟨"assert", "p", [.bool false, .text ""]⟩ := by
  obtain ⟨hvalue, hterm, hliteral, hclause, hrecord, hdirective, -⟩ := round_trip
  exact ⟨hvalue _ (by decide), hterm _ (by decide), hliteral _ (by decide), hclause _ (by decide),
    hrecord _ (by decide), hdirective _ (by decide)⟩

end PassageLogic
