import PassageLogic.Proofs.Logic.Relevance
import PassageLogic.Proofs.Logic.Streams

/-! # The predicates that a query reaches

A query reaches its own predicate, and by each stored clause for a predicate that it reaches those of the
clause's body. Clauses for other predicates never affect it, and neither do clauses for the built-in
equality (`Store.answers_unreached`): the search does not count them, nor does it go deeper or in another
order because of them. -/

namespace PassageLogic

/-- **The predicates that a query reaches**: its own, and those in the bodies of clauses for a predicate
that it reaches. The built-in equality is not looked up in the clauses, and so reaches nothing. -/
inductive Reaches (clauses : List Clause) (q : Literal) : String × Nat → Prop
  | query : Reaches clauses q q.signature
  | body {c : Clause} {l : Literal} (hc : c ∈ clauses) (h : Reaches clauses q c.head.signature)
      (he : c.head.isEquality = false) (hl : l ∈ c.body) : Reaches clauses q l.signature

theorem Reaches.mono {clauses clauses' : List Clause} {q : Literal} {p : String × Nat}
    (h : Reaches clauses q p) (hsub : clauses ⊆ clauses') : Reaches clauses' q p := by
  induction h with
  | query => exact .query
  | body hc _ he hl ih => exact .body (hsub hc) ih he hl

/-- The reached predicates are the fewest with these properties. -/
theorem Reaches.least {clauses : List Clause} {q : Literal} {A : String × Nat → Prop}
    (hq : A q.signature) (hbody : ∀ c ∈ clauses, A c.head.signature → c.head.isEquality = false →
      ∀ l ∈ c.body, A l.signature) {p : String × Nat} (h : Reaches clauses q p) : A p := by
  induction h with
  | query => exact hq
  | body hc _ he hl ih => exact hbody _ hc ih he _ hl

open Classical in
/-- The query looks for clauses of this clause's predicate. -/
noncomputable def needed (clauses : List Clause) (q : Literal) (c : Clause) : Bool :=
  decide (Reaches clauses q c.head.signature ∧ c.head.isEquality = false)

open Classical in
theorem needed_iff {clauses : List Clause} {q : Literal} {c : Clause} : needed clauses q c = true ↔
    Reaches clauses q c.head.signature ∧ c.head.isEquality = false := decide_eq_true_iff

variable {clauses others : List Clause} {c : Clause} {q : Literal}

/-- The needed clauses are all that a query needs, also of a list with further clauses that it does not
need. -/
theorem Search.keeps_needed (h : ∀ d ∈ others, needed clauses q d = true → d ∈ clauses) :
    Search.Keeps others (needed clauses q) (Reaches clauses q) where
  kept _ _ hr he := needed_iff.2 ⟨hr, he⟩
  body d hd hr he _ hl := .body (h d hd (needed_iff.2 ⟨hr, he⟩)) hr he hl

namespace Store

/-- Stores with the same needed clauses give a query the same stream. -/
theorem answers_of_needed (limits : Limits) (h : others.filter (needed clauses q) =
      clauses.filter (needed clauses q)) :
    (Store.mk limits others).answers q = (Store.mk limits clauses).answers q := by
  have hothers : Search.Keeps others (needed clauses q) (Reaches clauses q) := by
    refine Search.keeps_needed fun d hd hn => List.mem_of_mem_filter (p := needed clauses q) ?_
    rw [← h]
    exact List.mem_filter.2 ⟨hd, hn⟩
  have hclauses : Search.Keeps clauses (needed clauses q) (Reaches clauses q) :=
    Search.keeps_needed fun d hd _ => hd
  have hg : ∀ g ∈ [q], Reaches clauses q g.signature := fun g hg => by
    rw [List.mem_singleton.1 hg]
    exact .query
  have hsearch : (Store.mk limits others).search q = (Store.mk limits clauses).search q := by
    unfold search Search.run
    rw [← Search.solve_filter hothers _ hg, ← Search.solve_filter hclauses _ hg, h]
  rw [answers_eq, answers_eq, hsearch]

/-- **Clauses that a query does not reach never affect it.** A clause whose predicate is not reached, or is
the built-in equality, can be put in at any position or taken out: the stream is the same, faults
included. It makes no difference whether the clause counts among those by which predicates are reached. -/
theorem answers_unreached (limits : Limits) (before after : List Clause) (c : Clause) (q : Literal)
    (h : c.head.isEquality = true ∨ ¬ Reaches (before ++ after) q c.head.signature ∨
      ¬ Reaches (before ++ c :: after) q c.head.signature) :
    (Store.mk limits (before ++ c :: after)).answers q =
      (Store.mk limits (before ++ after)).answers q := by
  have hsub : before ++ after ⊆ before ++ c :: after :=
    ((List.sublist_cons_self c after).append_left before).subset
  have hc : ¬ needed (before ++ after) q c = true := by
    rw [needed_iff]
    rintro ⟨hr, he⟩
    rcases h with h | h | h
    · rw [h] at he
      cases he
    · exact h hr
    · exact h (hr.mono hsub)
  refine answers_of_needed limits ?_
  rw [List.filter_append, List.filter_append, List.filter_cons_of_neg hc]

/-- Who is hungry and not full is looking for food. -/
def lookingRule : Clause :=
  ⟨.of "looking %" [.var "x"],
    [.of "hungry %" [.var "x"], { Literal.of "full %" [.var "x"] with negated := true }]⟩

/-- Sam and Alex are hungry, and Alex is full. -/
def appetites : List Clause :=
  [.fact (.of "hungry %" [.const (.text "alex")]), .fact (.of "full %" [.const (.text "alex")]),
    .fact (.of "hungry %" [.const (.text "sam")])]

/-- Whoever is looking for food is hungry for something: the name of the predicate is reached, but not
with two terms. -/
def cravingRule : Clause :=
  ⟨.of "hungry %" [.var "x", .var "y"], [.of "looking %" [.var "x"]]⟩

/-- Who is looking for food? -/
def lookingQuery : Literal := .of "looking %" [.var "who"]

theorem answers_unreached_craving :
    ¬ Reaches ([lookingRule] ++ appetites) lookingQuery cravingRule.head.signature ∧
    (Store.mk {} ([lookingRule] ++ cravingRule :: appetites)).answers lookingQuery =
      (Store.mk {} ([lookingRule] ++ appetites)).answers lookingQuery ∧
    (Store.mk {} ([lookingRule] ++ appetites)).answers lookingQuery =
      [.ok (.ofList [("who", .text "sam")])] := by
  have hreach : ¬ Reaches ([lookingRule] ++ appetites) lookingQuery cravingRule.head.signature := by
    intro hr
    have hmem := hr.least (A := (· ∈ [("looking %", 1), ("hungry %", 1), ("full %", 1)]))
      (by decide) (by decide +kernel)
    exact absurd hmem (by decide)
  exact ⟨hreach, answers_unreached {} [lookingRule] appetites cravingRule lookingQuery
    (.inr (.inl hreach)), by rfl⟩

end Store
end PassageLogic
