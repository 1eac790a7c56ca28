import PassageLogic.Statement.Line
import PassageLogic.Statement.Misreading

/-! # Reading statement text

The grammar, with ordered choice:

    line      := rule | conjunction | claim
    rule      := statement "if" statement+ end
    conjunction := statement statement+ end
    claim     := statement end
    statement := "!"? (word ":" simple | simple)
    simple    := (word | "(" name ")" | '"' text '"' | "'" text "'")+ ("," | "\n")?
    end       := ("." | "," | "\n" | " ")* end of input

A bareword is a run of ASCII letters, digits and spaces, trimmed; it neither starts with the word
`if` nor runs past it. Every reader takes the characters that are left and gives back what it read,
the characters left after it, and every expectation that was not met on the way, with the place where
it was not met. The report of a failure names the unmet expectations at the farthest place. -/

namespace PassageLogic.Reading

/-- An expectation that was not met, and the characters left where it was not. -/
structure Miss where
  rest : List Char
  expected : Expectation

/-- The outcome of a reader that may fail. After a failure the rest is where it started. -/
structure Attempt (α : Type) where
  result : Option α
  rest : List Char
  misses : List Miss

namespace Attempt

/-- A success that met all its expectations. -/
def ok {α : Type} (a : α) (rest : List Char) : Attempt α := ⟨some a, rest, []⟩

/-- A failure before `rest`. -/
def fail {α : Type} (rest : List Char) (misses : List Miss) : Attempt α := ⟨none, rest, misses⟩

/-- The outcome with what was read mapped. -/
def map {α β : Type} (f : α → β) (a : Attempt α) : Attempt β := ⟨a.result.map f, a.rest, a.misses⟩

/-- The outcome with misses from before it. -/
def after {α : Type} (misses : List Miss) (a : Attempt α) : Attempt α :=
  { a with misses := misses ++ a.misses }

/-- The first outcome if it is a success, else the second one. -/
def orElse {α : Type} (a b : Attempt α) : Attempt α :=
  match a.result with
  | some _ => a
  | none => b.after a.misses

end Attempt

/-! ### Character classes and skips -/

/-- A space or a tab. -/
def isSpace (c : Char) : Bool := c == ' ' || c == '\t'

/-- A character that may stand between two statements. -/
def isSeparator (c : Char) : Bool :=
  c == ' ' || c == '\t' || c == '\r' || c == '\n' || c == ','

/-- A character that may stand after the last statement. -/
def isTerminator (c : Char) : Bool := c == '.' || isSeparator c

/-- A character of a bareword other than the space. -/
def isWordChar (c : Char) : Bool := c.isAlphanum

/-- The name of the characters of barewords in reports. -/
def wordClass : String := "[a-zA-Z0-9 ]"

/-- The characters left after spaces and tabs. -/
def skipSpaces (s : List Char) : List Char := s.dropWhile isSpace

/-- The characters left after separators. -/
def skipSeparators (s : List Char) : List Char := s.dropWhile isSeparator

/-- The characters left after the word `if`, if it stands here after optional spaces. -/
def afterIf? (s : List Char) : Option (List Char) :=
  match skipSpaces s with
  | 'i' :: 'f' :: r =>
    match r with
    | c :: _ => if isWordChar c then none else some r
    | [] => some []
  | _ => none

/-- The word `if` stands here after optional spaces. -/
def atIf (s : List Char) : Bool := (afterIf? s).isSome

/-! ### Words and terms -/

/-- The characters of a bareword: it ends before a character that no bareword has, and before spaces
that the word `if` follows. -/
def wordRun : List Char → List Char
  | [] => []
  | c :: r => if isWordChar c || (c == ' ' && !atIf (c :: r)) then c :: wordRun r else []

/-- A bareword, trimmed; it is empty if there are only spaces. -/
def word (s : List Char) : Attempt String :=
  if atIf s then .fail s []
  else
    match wordRun s with
    | [] => .fail s [⟨s, .charClass wordClass⟩]
    | w => .ok (String.ofList (Text.trim w)) (s.drop w.length)

/-- Trimmed text between two delimiters; no character of `barred` may stand in it. -/
def delimited (opening closing : Char) (barred : List Char) (s : List Char) : Attempt String :=
  match s with
  | [] => .fail s [⟨s, .literal (String.singleton opening)⟩]
  | c :: r =>
    if c = opening then
      let inside := fun c => !(c == closing || barred.contains c)
      match r.dropWhile inside with
      | d :: rest =>
        if d = closing then .ok (String.ofList (Text.trim (r.takeWhile inside))) rest
        else .fail s [⟨d :: rest, .literal (String.singleton closing)⟩]
      | [] => .fail s [⟨[], .literal (String.singleton closing)⟩]
    else .fail s [⟨s, .literal (String.singleton opening)⟩]

/-- A variable: a name between parentheses. -/
def variableTerm (s : List Char) : Attempt Token := (delimited '(' ')' ['('] s).map Token.var

/-- A constant: text between quotes of either kind. -/
def constantTerm (s : List Char) : Attempt Token :=
  ((delimited '"' '"' [] s).orElse (delimited '\'' '\'' [] s)).map Token.const

/-- A term and the spaces after it. -/
def term (s : List Char) : Attempt Token :=
  let t := (variableTerm s).orElse (constantTerm s)
  match t.result with
  | some _ => { t with rest := skipSpaces t.rest }
  | none => t

/-- A bareword or a term. -/
def piece (s : List Char) : Attempt Piece :=
  ((word s).map Piece.word).orElse ((term s).map Piece.term)

/-! ### Every piece takes something -/

theorem length_skipSpaces_le (s : List Char) : (skipSpaces s).length ≤ s.length :=
  (List.dropWhile_sublist _).length_le

theorem length_skipSeparators_le (s : List Char) : (skipSeparators s).length ≤ s.length :=
  (List.dropWhile_sublist _).length_le

theorem word_shorter {s : List Char} {w : String} (h : (word s).result = some w) :
    (word s).rest.length < s.length := by
  unfold word at h ⊢
  split
  · simp_all [Attempt.fail]
  · rename_i hif
    simp only [hif, Bool.false_eq_true, ↓reduceIte] at h
    cases hs : s with
    | nil => simp [hs, wordRun, Attempt.fail] at h
    | cons c r =>
      split
      · rename_i hw
        simp [hs, hw, Attempt.fail] at h
      · rename_i hw
        have : 0 < (wordRun (c :: r)).length := List.length_pos_iff.2 hw
        simp only [Attempt.ok, List.length_drop, List.length_cons]
        omega

theorem delimited_shorter {o c : Char} {b s : List Char} {w : String}
    (h : (delimited o c b s).result = some w) : (delimited o c b s).rest.length < s.length := by
  unfold delimited at h ⊢
  cases s with
  | nil => simp [Attempt.fail] at h
  | cons a r =>
    simp only at h ⊢
    split
    · rename_i ha
      simp only [ha, ↓reduceIte] at h
      have hlen := (List.dropWhile_sublist
        (fun x => !(x == c || b.contains x)) (l := r)).length_le
      split
      · rename_i d rest hd
        rw [hd] at hlen
        split
        · simp only [Attempt.ok, List.length_cons] at hlen ⊢
          omega
        · rename_i hdc
          simp only [hd, hdc, ↓reduceIte, Attempt.fail, reduceCtorEq] at h
      · rename_i hd
        simp only [hd, Attempt.fail, reduceCtorEq] at h
    · rename_i ha
      simp only [ha, ↓reduceIte, Attempt.fail, reduceCtorEq] at h

theorem orElse_shorter {α : Type} {a b : Attempt α} {n : Nat}
    (ha : ∀ x, a.result = some x → a.rest.length < n)
    (hb : ∀ x, b.result = some x → b.rest.length < n) :
    ∀ x, (a.orElse b).result = some x → (a.orElse b).rest.length < n := by
  intro x h
  unfold Attempt.orElse at h ⊢
  split
  · rename_i y hy
    exact ha y hy
  · rename_i hn
    simp only [hn] at h
    exact hb x h

theorem map_shorter {α β : Type} {f : α → β} {a : Attempt α} {n : Nat}
    (ha : ∀ x, a.result = some x → a.rest.length < n) :
    ∀ x, (a.map f).result = some x → (a.map f).rest.length < n := by
  intro x h
  obtain ⟨y, hy, -⟩ := Option.map_eq_some_iff.1 h
  exact ha y hy

theorem term_shorter (s : List Char) :
    ∀ t, (term s).result = some t → (term s).rest.length < s.length := by
  have h := orElse_shorter (a := variableTerm s) (b := constantTerm s) (n := s.length)
    (map_shorter fun _ => delimited_shorter)
    (map_shorter (orElse_shorter (fun _ => delimited_shorter) fun _ => delimited_shorter))
  intro t ht
  unfold term at ht ⊢
  cases hr : ((variableTerm s).orElse (constantTerm s)).result with
  | none => simp [hr] at ht
  | some u =>
    simp only [hr]
    exact Nat.lt_of_le_of_lt (length_skipSpaces_le _) (h u hr)

theorem piece_shorter (s : List Char) :
    ∀ p, (piece s).result = some p → (piece s).rest.length < s.length :=
  orElse_shorter (map_shorter fun _ => word_shorter) (map_shorter (term_shorter s))

/-! ### Statements -/

/-- A run of things read one after the other, the characters left and the expectations not met. -/
structure Run (α : Type) where
  items : List α
  rest : List Char
  misses : List Miss

/-- As many pieces as there are. -/
def pieces (s : List Char) : Run Piece :=
  match _h : (piece s).result with
  | some p =>
    let more := pieces (piece s).rest
    ⟨p :: more.items, more.rest, (piece s).misses ++ more.misses⟩
  | none => ⟨[], s, (piece s).misses⟩
termination_by s.length
decreasing_by exact piece_shorter s p _h

/-- The characters left after one comma or newline, if it stands here. -/
def skipBreak : List Char → List Char
  | ',' :: r => r
  | '\n' :: r => r
  | s => s

/-- A statement without a command and without a denial. -/
def simple (s : List Char) : Attempt Statement :=
  let ps := pieces s
  let st := Statement.ofPieces ps.items
  if st.isEmpty then .fail s ps.misses else ⟨some st, skipBreak ps.rest, ps.misses⟩

/-- A command word, a colon and a statement. -/
def commanded (s : List Char) : Attempt Statement :=
  let w := word s
  match w.result with
  | none => .fail s w.misses
  | some command =>
    if command = "" then .fail s []
    else
      match w.rest with
      | ':' :: r =>
        let st := simple r
        match st.result with
        | some target => ⟨some (target.commanded command), st.rest, st.misses⟩
        | none => .fail s st.misses
      | r => .fail s [⟨r, .literal ":"⟩]

/-- A statement after the mark of denial, if there is one. -/
def unmarked (s : List Char) : Attempt Statement := (commanded s).orElse (simple s)

/-- A statement. -/
def statement (s : List Char) : Attempt Statement :=
  match skipSpaces s with
  | '!' :: r =>
    let a := unmarked (skipSpaces r)
    match a.result with
    | some st => ⟨some (st.withNegated true), a.rest, a.misses⟩
    | none => .fail s a.misses
  | s₁ =>
    let a := (unmarked s₁).after [⟨s₁, .literal "!"⟩]
    match a.result with
    | some st => ⟨some (st.withNegated false), a.rest, a.misses⟩
    | none => .fail s a.misses

/-! ### Every statement takes something -/

theorem pieces_length (s : List Char) :
    (pieces s).rest.length ≤ s.length ∧
      ((pieces s).items ≠ [] → (pieces s).rest.length < s.length) := by
  fun_induction pieces s with
  | case1 s p h more ih =>
    have := piece_shorter s p h
    constructor
    · exact Nat.le_trans ih.1 (Nat.le_of_lt this)
    · intro _
      exact Nat.lt_of_le_of_lt ih.1 this
  | case2 s h => simp

theorem length_skipBreak_le (s : List Char) : (skipBreak s).length ≤ s.length := by
  unfold skipBreak
  split <;> simp

theorem simple_shorter (s : List Char) :
    ∀ st, (simple s).result = some st → (simple s).rest.length < s.length := by
  intro st h
  unfold simple at h ⊢
  simp only at h ⊢
  split
  · simp_all [Attempt.fail]
  · rename_i he
    have hne : (pieces s).items ≠ [] := by
      intro h0
      simp [h0, Statement.ofPieces, Statement.isEmpty] at he
    exact Nat.lt_of_le_of_lt (length_skipBreak_le _) ((pieces_length s).2 hne)

theorem commanded_shorter (s : List Char) :
    ∀ st, (commanded s).result = some st → (commanded s).rest.length < s.length := by
  intro st h
  unfold commanded at h ⊢
  simp only at h ⊢
  split
  · simp_all [Attempt.fail]
  · rename_i command hw
    simp only [hw] at h
    have h1 := word_shorter hw
    split
    · simp_all [Attempt.fail]
    · rename_i hc
      simp only [hc, ↓reduceIte] at h
      split
      · rename_i r hr
        simp only [hr] at h
        split
        · rename_i target ht
          have h2 := simple_shorter r target ht
          rw [hr, List.length_cons] at h1
          show (simple r).rest.length < s.length
          omega
        · rename_i ht
          simp [ht, Attempt.fail] at h
      · rename_i hr
        split at h
        · rename_i r h'
          exact absurd h' (hr r)
        · simp [Attempt.fail] at h

theorem statement_shorter (s : List Char) :
    ∀ st, (statement s).result = some st → (statement s).rest.length < s.length := by
  have hu : ∀ t : List Char, ∀ st, (unmarked t).result = some st →
      (unmarked t).rest.length < t.length := fun t =>
    orElse_shorter (commanded_shorter t) (simple_shorter t)
  intro st h
  have hs := length_skipSpaces_le s
  unfold statement at h ⊢
  split
  · rename_i r hr
    simp only [hr] at h ⊢
    rw [hr] at hs
    have h2 := length_skipSpaces_le r
    split
    · rename_i st' h'
      have h3 := hu _ st' h'
      rw [List.length_cons] at hs
      show (unmarked (skipSpaces r)).rest.length < s.length
      omega
    · rename_i h'
      simp [h', Attempt.fail] at h
  · rename_i hr
    split at h
    · rename_i r h'
      exact absurd h' (hr r)
    · simp only at h ⊢
      split
      · rename_i st' h'
        have h3 := hu _ st' h'
        exact Nat.lt_of_lt_of_le h3 hs
      · rename_i h'
        simp [h', Attempt.fail] at h

/-! ### Lines -/

/-- As many statements as there are, with separators before and between them. -/
def statements (s : List Char) : Run Statement :=
  match _h : (statement (skipSeparators s)).result with
  | some st =>
    let more := statements (statement (skipSeparators s)).rest
    ⟨st :: more.items, more.rest, (statement (skipSeparators s)).misses ++ more.misses⟩
  | none => ⟨[], skipSeparators s, (statement (skipSeparators s)).misses⟩
termination_by s.length
decreasing_by
  exact Nat.lt_of_lt_of_le (statement_shorter _ st _h) (length_skipSeparators_le s)

/-- The fewest characters that are left at any of the misses, and at most `n`. -/
def leastLeft (n : Nat) (misses : List Miss) : Nat :=
  misses.foldl (fun n m => min n m.rest.length) n

/-- The report on a line that was not read: it names the misses at the farthest place. -/
def report (input : List Char) (misses : List Miss) : Misreading :=
  let left := leastLeft input.length misses
  let consumed := input.take (input.length - left)
  let rest := input.drop (input.length - left)
  let here := misses.filter fun m => m.rest.length == left
  { offset := Misreading.byteCount consumed
    line := Misreading.lineAfter consumed
    column := Misreading.columnAfter consumed
    expected := Expectation.sorted (here.map Miss.expected)
    found := rest.head? }

/-- The line, if only terminators are left after it. -/
def finish (input : List Char) (l : Line) (rest : List Char) (misses : List Miss) :
    Except Misreading Line :=
  match rest.dropWhile isTerminator with
  | [] => .ok l
  | r => .error (report input (misses ++ [⟨r, .ending⟩]))

/-- The statements of a line that is not a rule, after the first one. -/
def conjunction (input : List Char) (head : Statement) (s : List Char) (misses : List Miss) :
    Except Misreading Line :=
  let more := statements s
  finish input (Line.ofStatements (head :: more.items)) more.rest (misses ++ more.misses)

/-- A whole line of statement text. -/
def line (input : List Char) : Except Misreading Line :=
  let head := statement input
  match head.result with
  | none => .error (report input head.misses)
  | some first =>
    let s := skipSeparators head.rest
    match afterIf? s with
    | none => conjunction input first s (head.misses ++ [⟨s, .literal "if"⟩])
    | some r =>
      let body := statements r
      match body.items with
      | [] => conjunction input first s (head.misses ++ body.misses)
      | sts => finish input (.rule first sts) body.rest (head.misses ++ body.misses)

end PassageLogic.Reading

namespace PassageLogic

/-- The line that a text holds. -/
def Line.read (text : String) : Except Misreading Line := Reading.line text.toList

end PassageLogic
