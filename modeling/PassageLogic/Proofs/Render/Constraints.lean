import PassageLogic.Render
import PassageLogic.Proofs.Session.Extensions
import PassageLogic.Proofs.Template.Filling

/-! # Asking under the values of a context

A query is constrained by a context through equations that come before it, in which the values are
texts. The equations are solved first, and each of them binds its name and no more
(`Search.solve_equalities`); in the state after them the variables have the texts (`Equated`). From
there the search goes on as the one for the query with these texts in place of its variables, so that
it has the same answers, each laid over the context (`Act.askLine_constrained`).

A number in a context is therefore not the number that a fact is about
(`askLine_constrained_differs`). -/

namespace PassageLogic

/-! ### The equations of a context -/

/-- The goal that a variable has a value. -/
def Literal.equality (x : String) (v : Value) : Literal := .of equalsPredicate [.var x, .const v]

theorem Statement.literal_equation {x : String} (hx : x ≠ "") (value : String) (k : Nat) :
    (equation x value).literal k = (.equality x (.text value), k) := by
  have hpredicate : (equation x value).predicate = equalsPredicate := by
    show Text.trimmed (Text.joinWith " " [placeholder, "=", placeholder]) = equalsPredicate
    decide +kernel
  unfold literal
  rw [hpredicate]
  simp [equation, Token.terms, hx, Literal.equality, Literal.of]

namespace Record

/-- The record with every value replaced by the text that it displays as. -/
def texts (c : Record) : Record where
  entries := c.entries.map fun e => (e.1, .text e.2.display)
  ascending := List.pairwise_map.2 c.ascending

/-- The equations of the names and the texts of their values. -/
def equations (c : Record) : List Statement := c.entries.map fun e => .equation e.1 e.2.display

/-- The goals that marked variables have the values. -/
def markedEqualities (r : Record) : List Literal :=
  r.entries.map fun e => .equality (Clause.useName 1 e.1) e.2

variable {c : Record} {x : String}

theorem get?_texts (c : Record) (x : String) :
    c.texts.get? x = (c.get? x).map fun v => .text v.display :=
  lookup_map_entries Function.injective_id (fun v : Value => Value.text v.display) c.entries x

theorem get?_texts_eq_none : c.texts.get? x = none ↔ c.get? x = none := by
  rw [get?_texts, Option.map_eq_none_iff]

theorem names_texts (c : Record) : c.texts.names = c.names := by
  unfold names texts
  rw [List.map_map]
  rfl

theorem literals_equations (hnames : ∀ x ∈ c.names, x ≠ "") (k : Nat) :
    Statement.literals c.equations k =
      (c.texts.entries.map (fun e => .equality e.1 e.2), k) := by
  unfold equations texts names at *
  rw [List.map_map]
  generalize c.entries = es at hnames ⊢
  induction es with
  | nil => rfl
  | cons e es ih =>
    rw [List.map_cons, List.forall_mem_cons] at hnames
    obtain ⟨he, hes⟩ := hnames
    simp only [List.map_cons, Statement.literals, Statement.literal_equation he, ih hes]
    rfl

theorem markedEqualities_texts_ne_nil (h : c.isEmpty = false) : c.texts.markedEqualities ≠ [] := by
  intro he
  have hentries : c.entries = [] := List.map_eq_nil_iff.1 (List.map_eq_nil_iff.1 he)
  rw [isEmpty, hentries] at h
  cases h

/-- The goals of a constrained conjunction are the equalities and then the goals of its statements. -/
theorem markedGoals_equations (hnames : ∀ x ∈ c.names, x ≠ "") (sts : List Statement) (k : Nat) :
    markedGoals (c.equations ++ sts) k = c.texts.markedEqualities ++ markedGoals sts k := by
  unfold markedGoals
  rw [literals_append, literals_equations hnames, List.map_append, List.map_map]
  rfl

theorem mem_visibleNames_equations (hnames : ∀ x ∈ c.names, x ≠ "") :
    x ∈ Act.visibleNames c.equations ↔ x ∈ c.names := by
  rw [mem_visibleNames]
  constructor
  · rintro ⟨st, hst, hx⟩
    obtain ⟨e, he, rfl⟩ := List.mem_map.1 hst
    have hxe : x = e.1 := by simpa [Statement.equation] using (Statement.mem_vars.1 hx).1
    rw [hxe]
    exact List.mem_map_of_mem he
  · intro hx
    obtain ⟨e, he, rfl⟩ := List.mem_map.1 hx
    have hvar : .var e.1 ∈ (Statement.equation e.1 e.2.display).tokens := List.mem_cons_self
    exact ⟨_, List.mem_map_of_mem he, Statement.mem_vars.2 ⟨hvar, hnames _ hx⟩⟩

end Record

/-! ### Solving the equations -/

/-- A search for some goals that ends without a fault has a depth left for them. -/
theorem Search.exists_room {clauses : List Clause} {bound room want uses : Nat} {goals : List Literal}
    {s : Substitution} (hne : goals ≠ []) (hw : want ≠ 0)
    (h : (solve clauses bound room goals s want uses).fault = none) : ∃ n, room = n + 1 := by
  cases room with
  | succ n => exact ⟨n, rfl⟩
  | zero =>
    obtain ⟨goal, rest, rfl⟩ := List.exists_cons_of_ne_nil hne
    rw [solve_tooDeep hw] at h
    cases h

/-- **Equalities of variables that are unbound bind them**, and the search goes on with the other
goals. -/
theorem Search.solve_equalities (clauses : List Clause) (bound room : Nat) {want : Nat}
    (hw : want ≠ 0) (uses : Nat) (rest : List Literal) {es : List (String × Value)}
    {s : Substitution} (hs : s.Acyclic) (hnd : (es.map Prod.fst).Nodup)
    (hfree : ∀ e ∈ es, s.lookup e.1 = none) :
    ∃ t, t.Acyclic ∧ (∀ y, t.lookup y = ((es.lookup y).map Term.const).or (s.lookup y)) ∧
      solve clauses bound (room + 1) (es.map (fun e => .equality e.1 e.2) ++ rest) s want uses =
        solve clauses bound (room + 1) rest t want uses := by
  induction es generalizing s with
  | nil => exact ⟨s, hs, fun _ => rfl, rfl⟩
  | cons e es ih =>
    obtain ⟨x, v⟩ := e
    obtain ⟨hx, hnd⟩ := List.nodup_cons.1 hnd
    obtain ⟨hfx, hfree⟩ := List.forall_mem_cons.1 hfree
    have hne : ∀ e ∈ es, x ≠ e.1 := fun e he hxe => hx (List.mem_map.2 ⟨e, he, hxe.symm⟩)
    have hunify : s.unify (.var x) (.const v) = some ((x, .const v) :: s) := by
      unfold Substitution.unify
      rw [Substitution.walk_unbound hs hfx, Substitution.walk_const]
    have hbind : Substitution.Acyclic ((x, .const v) :: s) := hs.bind hfx trivial (by simp)
    have hfree' : ∀ e ∈ es, List.lookup e.1 ((x, .const v) :: s) = none := by
      intro e he
      rw [lookup_cons_entry, if_neg (hne e he).symm]
      exact hfree e he
    obtain ⟨t, ht, hlook, hsolve⟩ := ih hbind hnd hfree'
    refine ⟨t, ht, fun y => ?_, ?_⟩
    · rw [hlook, lookup_cons_entry, lookup_cons_entry]
      by_cases hy : y = x
      · rw [hy, if_pos rfl, if_pos rfl, lookup_eq_none_of_ne hne]
        rfl
      · rw [if_neg hy, if_neg hy]
    · rw [List.map_cons, List.cons_append, ← hsolve]
      exact solve_equated hw rfl rfl rfl hunify

/-- A state in which the variables have the values of the record, and in which the other marked
variables are unbound. -/
structure Equated (r : Record) (names : List String) (s : Substitution) : Prop where
  acyclic : s.Acyclic
  old : s.NamesIn (Old 1)
  bound : ∀ x v, r.get? x = some v →
    s.walk (.var x) = .const v ∧ s.walk (.var (Clause.useName 1 x)) = .const v
  free : ∀ x ∈ names, r.get? x = none → s.walk (.var x) = .var (Clause.useName 1 x)
  unbound : ∀ x, r.get? x = none → s.walk (.var (Clause.useName 1 x)) = .var (Clause.useName 1 x)

/-- The lookups of a state decide what it equates. -/
theorem Links.equated {names : List String} {r : Record} {s t : Substitution} (h : Links names s)
    (hnames : ∀ x ∈ r.names, x ∈ names) (ht : t.Acyclic)
    (hmarked : ∀ x, t.lookup (Clause.useName 1 x) = (r.get? x).map Term.const)
    (hother : ∀ y, (∀ x, y ≠ Clause.useName 1 x) → t.lookup y = s.lookup y) :
    Equated r names t := by
  have hname : ∀ x ∈ names, t.walk (.var x) = t.walk (.var (Clause.useName 1 x)) := by
    intro x hx
    refine Substitution.walk_bound ht ?_
    rw [hother x fun y => ne_useName_of_no_hash (h.no_hash x hx) 1 y, h.lookup, if_pos hx]
  have hbound : ∀ x v, r.get? x = some v → t.walk (.var (Clause.useName 1 x)) = .const v := by
    intro x v hx
    have hlook : t.lookup (Clause.useName 1 x) = some (.const v) := by rw [hmarked, hx]; rfl
    rw [Substitution.walk_bound ht hlook, Substitution.walk_const]
  have hunbound : ∀ x, r.get? x = none →
      t.walk (.var (Clause.useName 1 x)) = .var (Clause.useName 1 x) := by
    intro x hx
    refine Substitution.walk_unbound ht ?_
    rw [hmarked, hx]
    rfl
  refine ⟨ht, ?_, fun x v hx => ?_, fun x hx hn => ?_, hunbound⟩
  · intro y a hy
    by_cases hy' : ∃ x, y = Clause.useName 1 x
    · obtain ⟨x, rfl⟩ := hy'
      refine ⟨old_useName 1 x, ?_⟩
      rw [hmarked] at hy
      obtain ⟨v, -, rfl⟩ := Option.map_eq_some_iff.1 hy
      rintro _ ⟨⟩
    · rw [hother y fun x hx => hy' ⟨x, hx⟩] at hy
      exact h.namesIn_old y a hy
  · exact ⟨(hname x (hnames x (Record.mem_names_of_get? hx))).trans (hbound x v hx), hbound x v hx⟩
  · exact (hname x hx).trans (hunbound x hn)

/-- **After the equalities of a record the search goes on from a state in which they hold.** -/
theorem Links.solve_equalities {names : List String} {r : Record} {s : Substitution}
    (h : Links names s) (hnames : ∀ x ∈ r.names, x ∈ names) (clauses : List Clause)
    (bound room : Nat) {want : Nat} (hw : want ≠ 0) (uses : Nat) (goals : List Literal) :
    ∃ t, Equated r names t ∧
      Search.solve clauses bound (room + 1) (r.markedEqualities ++ goals) s want uses =
        Search.solve clauses bound (room + 1) goals t want uses := by
  -- the names of the record stay different when they are marked
  have hfst : (r.entries.map fun e => (Clause.useName 1 e.1, e.2)).map Prod.fst =
      r.names.map (Clause.useName 1) := by
    unfold Record.names
    rw [List.map_map, List.map_map]
    rfl
  have hnd : ((r.entries.map fun e => (Clause.useName 1 e.1, e.2)).map Prod.fst).Nodup := by
    rw [hfst]
    exact r.nodup_names.map (useName_injective 1)
  have hfree : ∀ e ∈ r.entries.map fun e => (Clause.useName 1 e.1, e.2), s.lookup e.1 = none :=
    List.forall_mem_map.2 fun e _ => h.lookup_marked e.1
  obtain ⟨t, ht, hlook, hsolve⟩ :=
    Search.solve_equalities clauses bound room hw uses goals h.acyclic hnd hfree
  refine ⟨t, h.equated hnames ht (fun x => ?_) fun y hy => ?_, ?_⟩
  · have hvalue : (r.entries.map fun e => (Clause.useName 1 e.1, e.2)).lookup (Clause.useName 1 x) =
        r.get? x := (lookup_map_entries (useName_injective 1) id r.entries x).trans
      (congrFun Option.map_id _)
    rw [hlook, hvalue, h.lookup_marked, Option.or_none]
  · rw [hlook, lookup_eq_none_of_ne (List.forall_mem_map.2 fun e _ => hy e.1)]
    rfl
  · rw [← hsolve, List.map_map]
    rfl

/-! ### The search after the equations -/

/-- A name with the mark of the first use, and the name itself. -/
abbrev OriginalPair : String → String → Prop := ImagePair SameUnmarked (Clause.useName 1) id

namespace Equated

variable {r : Record} {names : List String} {s t t' : Substitution} (h : Equated r names s)
include h

theorem corresponds : Corresponds OriginalPair 1 0 s [] where
  acyclic := h.acyclic
  acyclic' := Substitution.acyclic_nil
  names := h.old
  names' := Substitution.namesIn_nil
  pairing := ImagePair.pairing corresponds_sameUnmarked.pairing (useName_injective 1)
    Function.injective_id
  old := by
    rintro _ _ ⟨z, z', hz, rfl, rfl⟩
    obtain ⟨rfl, hno⟩ := hz
    exact ⟨old_useName 1 z, old_of_no_hash hno 0⟩

/-- A marked term is alike to the term with the values of the record. -/
theorem alike_term {a : Term} (ha : ∀ x, a = .var x → '#' ∉ x.toList) :
    Alike Eq OriginalPair s [] (a.mapVars (Clause.useName 1)) (a.withValues r) := by
  unfold Alike
  cases a with
  | const v =>
    unfold Term.mapVars Term.withValues
    rw [Substitution.walk_const, Substitution.walk_const]
    exact .const rfl
  | var x =>
    unfold Term.mapVars
    cases hx : r.get? x with
    | some v =>
      rw [Term.withValues_of_some hx, (h.bound x v hx).2, Substitution.walk_const]
      exact .const rfl
    | none =>
      rw [Term.withValues_of_none hx, h.unbound x hx,
        Substitution.walk_unbound Substitution.acyclic_nil rfl]
      exact .var ⟨x, x, ⟨rfl, ha x rfl⟩, rfl, rfl⟩

/-- Marked goals are alike to the goals with the values of the record. -/
theorem alike_goals {goals : List Literal}
    (hno : ∀ l ∈ goals, ∀ x, .var x ∈ l.terms → '#' ∉ x.toList) :
    List.Forall₂ (Literal.Alike Eq OriginalPair s [])
      (goals.map (Literal.mapVars (Clause.useName 1))) (goals.map (Literal.withValues r)) := by
  rw [List.forall₂_map_left_iff, List.forall₂_map_right_iff, List.forall₂_same]
  intro l hl
  refine ⟨rfl, rfl, ?_⟩
  unfold Literal.mapVars Literal.withValues
  rw [List.forall₂_map_left_iff, List.forall₂_map_right_iff, List.forall₂_same]
  intro a ha
  refine h.alike_term ?_
  rintro x rfl
  exact hno l hl x ha

/-- What a solution gives all names is the record overlaid with what the solution on the other side
gives the names that the record does not give. -/
theorem answer_eq (hnd : names.Nodup) (hr : ∀ x ∈ r.names, x ∈ names)
    (hno : ∀ x ∈ names, '#' ∉ x.toList) {others : List String} (hnd' : others.Nodup)
    (hothers : ∀ x, x ∈ others ↔ x ∈ names ∧ r.get? x = none)
    (hf : Follows Eq OriginalPair s [] t t') : t.answer names = r.overlay (t'.answer others) := by
  obtain ⟨W, -, -, ha⟩ := hf
  refine Record.ext_get? fun x => ?_
  rw [Substitution.get?_answer hnd, Record.get?_overlay, Substitution.get?_answer hnd']
  simp only [hothers]
  cases hx : r.get? x with
  | some v =>
    have hs : Alike Eq OriginalPair s [] (.var x) (.const v) := by
      unfold Alike
      rw [(h.bound x v hx).1, Substitution.walk_const]
      exact .const rfl
    rw [if_pos (hr x (Record.mem_names_of_get? hx)), (ha _ _ hs).value?_eq, Substitution.walk_const]
    simp [Term.value?]
  | none =>
    simp only [and_true, Option.or_none]
    by_cases hmem : x ∈ names
    · have hs : Alike Eq OriginalPair s [] (.var x) (.var x) := by
        unfold Alike
        rw [h.free x hmem hx, Substitution.walk_unbound Substitution.acyclic_nil rfl]
        exact .var ⟨x, x, ⟨rfl, hno x hmem⟩, rfl, rfl⟩
      rw [if_pos hmem, if_pos hmem]
      exact (ha _ _ hs).value?_eq
    · rw [if_neg hmem, if_neg hmem]

end Equated

/-! ### The goals of the line with the texts in place -/

section Goals

variable {c : Record}

/-- The terms of tokens with the values in place, unless a nameless variable has the name of one. -/
theorem terms_withValues {ts : List Token} {k : Nat}
    (h : ∀ i, k ≤ i → i < (Token.terms ts k).2 → c.get? (anonymousName i) = none) :
    Token.terms (ts.map (Token.withValues c)) k =
      ((Token.terms ts k).1.map (Term.withValues c.texts), (Token.terms ts k).2) := by
  induction ts generalizing k with
  | nil => rfl
  | cons t ts ih =>
    rw [List.map_cons]
    cases t with
    | const value =>
      have hrest := ih h
      simp only [Token.withValues, Token.terms, hrest, List.map_cons]
      rfl
    | var name =>
      simp only [Token.terms] at h
      split_ifs at h with hname
      · have hhead : c.get? (anonymousName k) = none :=
          h k (Nat.le_refl k) (terms_count_le ts (k + 1))
        have hrest := ih fun i hi => h i (Nat.le_of_succ_le hi)
        rw [Token.withValues_of_none (.inl hname)]
        simp only [Token.terms, if_pos hname, hrest, List.map_cons,
          Term.withValues_of_none (Record.get?_texts_eq_none.2 hhead)]
      · have hrest := ih h
        cases hv : c.get? name with
        | none =>
          rw [Token.withValues_of_none (.inr hv)]
          simp only [Token.terms, if_neg hname, hrest, List.map_cons,
            Term.withValues_of_none (Record.get?_texts_eq_none.2 hv)]
        | some v =>
          have htext : c.texts.get? name = some (.text v.display) := by rw [Record.get?_texts, hv]; rfl
          rw [Token.withValues_of_some hname hv]
          simp only [Token.terms, if_neg hname, hrest, List.map_cons, Term.withValues_of_some htext]

theorem literal_withValues {st : Statement} {k : Nat}
    (h : ∀ i, k ≤ i → i < (st.literal k).2 → c.get? (anonymousName i) = none) :
    (st.withValues c).literal k = ((st.literal k).1.withValues c.texts, (st.literal k).2) := by
  unfold Statement.literal Statement.withValues
  rw [terms_withValues h]
  rfl

/-- The goals with the values in place. -/
theorem literals_withValues {sts : List Statement} {k : Nat}
    (h : ∀ i, k ≤ i → i < (Statement.literals sts k).2 → c.get? (anonymousName i) = none) :
    Statement.literals (sts.map (Statement.withValues c)) k =
      ((Statement.literals sts k).1.map (Literal.withValues c.texts),
        (Statement.literals sts k).2) := by
  induction sts generalizing k with
  | nil => rfl
  | cons st sts ih =>
    have hst : ∀ i, k ≤ i → i < (st.literal k).2 → c.get? (anonymousName i) = none := fun i hi hlt =>
      h i hi (Nat.lt_of_lt_of_le hlt (literals_count_le sts _))
    have hsts : ∀ i, (st.literal k).2 ≤ i → i < (Statement.literals sts (st.literal k).2).2 →
        c.get? (anonymousName i) = none := fun i hi hlt =>
      h i (Nat.le_trans (terms_count_le st.tokens k) hi) hlt
    simp only [List.map_cons, Statement.literals, literal_withValues hst, ih hsts]

theorem Statement.mem_vars_withValues {st : Statement} {x : String} :
    x ∈ (st.withValues c).vars ↔ x ∈ st.vars ∧ c.get? x = none := by
  rw [mem_vars, mem_vars, and_right_comm]
  refine and_congr_left fun hne => ?_
  unfold Statement.withValues
  rw [List.mem_map]
  constructor
  · rintro ⟨t, ht, hx⟩
    cases t with
    | const value => cases hx
    | var name =>
      rcases Token.withValues_var c name with ⟨hkept, he⟩ | ⟨v, -, -, he⟩
      · rw [he] at hx
        cases hx
        exact ⟨ht, hkept.resolve_left hne⟩
      · rw [he] at hx
        cases hx
  · rintro ⟨ht, hx⟩
    exact ⟨_, ht, Token.withValues_of_none (.inr hx)⟩

/-- The names that stay are those that the context does not give. -/
theorem mem_visibleNames_withValues {sts : List Statement} {x : String} :
    x ∈ Act.visibleNames (sts.map (Statement.withValues c)) ↔
      x ∈ Act.visibleNames sts ∧ c.get? x = none := by
  simp only [mem_visibleNames, List.mem_map, exists_exists_and_eq_and, Statement.mem_vars_withValues]
  exact ⟨fun ⟨st, hst, hx, hc⟩ => ⟨⟨st, hst, hx⟩, hc⟩, fun ⟨⟨st, hst, hx⟩, hc⟩ => ⟨st, hst, hx, hc⟩⟩

theorem Line.statements_withValues (l : Line) :
    (l.withValues c).statements = l.statements.map (Statement.withValues c) := by
  cases l <;> rfl

/-- A constrained query is a conjunction. -/
theorem Line.constrained_eq {l : Line} (hl : ∀ head body, l ≠ .rule head body)
    (hc : c.isEmpty = false) : l.constrained c = .conjunction (c.equations ++ l.statements) := by
  unfold Line.constrained
  rw [hc]
  cases l with
  | claim st => rfl
  | conjunction sts => rfl
  | rule head body => exact absurd rfl (hl head body)

end Goals

/-! ### The answers to a constrained query -/

/-- What the search for goals finds in the store. -/
def Store.searchAll (store : Store) (goals : List Literal) : Outcome :=
  Search.solve store.clauses store.limits.depth (store.limits.depth + 1) goals []
    (Limits.above store.limits.answers) 0

/-- **A query can be constrained by a context in a session.** It is a claim or a conjunction, its
variables and the names of the context have no marks, and no nameless variable gets a name of the
context. The transient predicate is new to the store and to the query. -/
structure Session.Constrains (S : Session Store) (c : Record) (l : Line) : Prop where
  query : ∀ head body, l ≠ .rule head body
  nonempty : c.isEmpty = false
  names : ∀ x ∈ c.names, x ≠ "" ∧ '#' ∉ x.toList
  vars : ∀ st ∈ l.statements, ∀ x ∈ st.vars, '#' ∉ x.toList
  nameless : ∀ i, S.anonymous ≤ i → i < (Statement.literals l.statements S.anonymous).2 →
    anonymousName i ∉ c.names
  fresh : Unmentioned
    (conjunctionRule (l.constrained c).statements S.transient S.anonymous).head.predicate
    S.engine.clauses
  other : ∀ st ∈ l.statements, st.predicate ≠
    (conjunctionRule (l.constrained c).statements S.transient S.anonymous).head.predicate

namespace Session.Constrains

variable {S : Session Store} {c : Record} {l : Line} (h : S.Constrains c l)
include h

theorem ne_empty : ∀ x ∈ c.names, x ≠ "" := fun x hx => (h.names x hx).1

/-- A constrained query shows the names of the context and its own. -/
theorem mem_visibleNames {x : String} : x ∈ Act.visibleNames (c.equations ++ l.statements) ↔
    x ∈ c.names ∨ x ∈ Act.visibleNames l.statements := by
  rw [mem_visibleNames_append, Record.mem_visibleNames_equations h.ne_empty]

theorem no_hash : ∀ x ∈ Act.visibleNames (c.equations ++ l.statements), '#' ∉ x.toList := by
  intro x hx
  rcases h.mem_visibleNames.1 hx with hx | hx
  · exact (h.names x hx).2
  · obtain ⟨st, hst, hx⟩ := PassageLogic.mem_visibleNames.1 hx
    exact h.vars st hst x hx

theorem visible_of_mem_texts :
    ∀ x ∈ c.texts.names, x ∈ Act.visibleNames (c.equations ++ l.statements) := by
  rw [Record.names_texts]
  exact fun x hx => h.mem_visibleNames.2 (.inl hx)

/-- The names that the line with the texts in place shows are those that the context does not give. -/
theorem mem_others {x : String} : x ∈ Act.visibleNames (l.withValues c).statements ↔
    x ∈ Act.visibleNames (c.equations ++ l.statements) ∧ c.texts.get? x = none := by
  rw [Line.statements_withValues, mem_visibleNames_withValues, h.mem_visibleNames,
    Record.get?_texts_eq_none, Record.get?_eq_none_iff]
  exact and_congr_left fun hc => (or_iff_right hc).symm

/-- The goals of the line with the texts in place. -/
theorem literals_eq : (Statement.literals (l.withValues c).statements S.anonymous).1 =
    (Statement.literals l.statements S.anonymous).1.map (Literal.withValues c.texts) := by
  rw [Line.statements_withValues, literals_withValues fun i hi hlt =>
    Record.get?_eq_none_iff.2 (h.nameless i hi hlt)]

theorem no_hash_goals : ∀ m ∈ (Statement.literals l.statements S.anonymous).1,
    ∀ x, .var x ∈ m.terms → '#' ∉ x.toList := by
  intro m hm x hx
  rcases name_of_mem_literals hm hx with hx | ⟨i, -, rfl⟩
  · exact h.no_hash x (h.mem_visibleNames.2 (.inr hx))
  · exact hash_not_mem_anonymousName i

/-- A query that is asked under the constraints is a conjunction that is asked. -/
theorem conjoined {out : List Record}
    (hout : ((Act.askLine Store.engine (l.constrained c) none).runIn S).1 = .ok out) :
    Conjoined S.engine (c.equations ++ l.statements) S out ∧
      ∀ st ∈ c.equations ++ l.statements, st.predicate ≠ (conjunctionRule
        (c.equations ++ l.statements) S.transient S.anonymous).head.predicate := by
  have hfresh := h.fresh
  have hother := h.other
  rw [Line.constrained_eq h.query h.nonempty] at hout hfresh hother
  refine ⟨⟨rfl, hfresh, hout⟩, List.forall_mem_append.2
    ⟨List.forall_mem_map.2 fun e _ => ne_transientHead ?_ _ _, hother⟩⟩
  show '_' ∉ (Text.trimmed (Text.joinWith " " [placeholder, "=", placeholder])).toList
  decide +kernel

/-- **The search for the constrained statements ends as the one for the statements with the texts.** -/
theorem endsAlike {s : Substitution} (hs : Links (Act.visibleNames (c.equations ++ l.statements)) s)
    (hfault : (S.engine.conjoin (c.equations ++ l.statements) S.anonymous s).fault = none) :
    ∃ t, Equated c.texts (Act.visibleNames (c.equations ++ l.statements)) t ∧
      Search.EndsAlike Eq OriginalPair t []
        (S.engine.conjoin (c.equations ++ l.statements) S.anonymous s)
        (S.engine.searchAll (Statement.literals (l.withValues c).statements S.anonymous).1) := by
  unfold Store.conjoin at hfault ⊢
  rw [Record.markedGoals_equations h.ne_empty] at hfault ⊢
  -- the equations are goals, so that there is a depth left for them
  have hgoals : c.texts.markedEqualities ++ markedGoals l.statements S.anonymous ≠ [] :=
    List.append_ne_nil_of_left_ne_nil (Record.markedEqualities_texts_ne_nil h.nonempty) _
  obtain ⟨room, hroom⟩ := Search.exists_room hgoals (Limits.above_ne_zero _) hfault
  obtain ⟨t, ht, hsolve⟩ := hs.solve_equalities h.visible_of_mem_texts S.engine.clauses
    S.engine.limits.depth room (Limits.above_ne_zero S.engine.limits.answers) 1
    (markedGoals l.statements S.anonymous)
  rw [← hroom] at hsolve
  rw [hsolve] at hfault ⊢
  have he : Search.EndsAlike Eq OriginalPair t []
      (Search.solve S.engine.clauses S.engine.limits.depth S.engine.limits.depth
        (markedGoals l.statements S.anonymous) t (Limits.above S.engine.limits.answers) 1)
      (Search.solve S.engine.clauses S.engine.limits.depth S.engine.limits.depth
        ((Statement.literals l.statements S.anonymous).1.map (Literal.withValues c.texts)) []
        (Limits.above S.engine.limits.answers) 0) :=
    Search.solve_alike indistinct_eq ht.corresponds (ht.alike_goals h.no_hash_goals) _ _
  -- a query starts with one more depth, which makes no difference without a fault
  refine ⟨t, ht, ?_⟩
  unfold Store.searchAll
  rw [h.literals_eq,
    Search.solve_deeper (he.fault.trans hfault) S.engine.limits.depth (Nat.le_succ _)]
  exact he

/-- The answers to the line with the texts in place differ as much as they do over the texts. -/
theorem overlay_beq (t u : Substitution) :
    (c.texts.overlay (t.answer (Act.visibleNames (l.withValues c).statements)) ==
        c.texts.overlay (u.answer (Act.visibleNames (l.withValues c).statements))) =
      (t.answer (Act.visibleNames (l.withValues c).statements) ==
        u.answer (Act.visibleNames (l.withValues c).statements)) := by
  have hapart : ∀ (t : Substitution) y v, c.texts.get? y = some v →
      (t.answer (Act.visibleNames (l.withValues c).statements)).get? y = none := by
    intro t y v hy
    rw [Substitution.get?_answer (nodup_visibleNames _), if_neg]
    rw [h.mem_others, hy]
    simp
  have hself : c.texts == c.texts := Record.beq_self_iff.2 fun y v hy => by
    rw [Record.get?_texts, Option.map_eq_some_iff] at hy
    obtain ⟨w, -, rfl⟩ := hy
    rfl
  exact overlay_beq_overlay hself (hapart t) (hapart u)

end Session.Constrains

/-- **A query under the constraints of a context is answered by the query with the texts of the values
in place of its variables**, each distinct answer laid over these texts. -/
theorem Act.askLine_constrained {S : Session Store} {c : Record} {l : Line} (h : S.Constrains c l)
    {out : List Record}
    (hout : ((Act.askLine Store.engine (l.constrained c) none).runIn S).1 = .ok out) :
    let goals := (Statement.literals (l.withValues c).statements S.anonymous).1
    (S.engine.searchAll goals).fault = none ∧
      (S.engine.searchAll goals).found.length ≤ S.engine.limits.answers ∧
      out = ((S.engine.searchAll goals).found.map fun t =>
        t.answer (Act.visibleNames (l.withValues c).statements)).eraseDups.map c.texts.overlay := by
  obtain ⟨hconjoined, hpredicates⟩ := h.conjoined hout
  obtain ⟨s, hs, hfault, hle, -, hanswers⟩ := hconjoined.answers_of hpredicates h.no_hash
  obtain ⟨t, ht, he⟩ := h.endsAlike hs hfault
  refine ⟨he.fault.trans hfault, he.length_eq ▸ hle, ?_⟩
  have hmap : (S.engine.conjoin (c.equations ++ l.statements) S.anonymous s).found.map
      (fun u => u.answer (Act.visibleNames (c.equations ++ l.statements))) =
      ((S.engine.searchAll
        (Statement.literals (l.withValues c).statements S.anonymous).1).found.map fun u =>
          u.answer (Act.visibleNames (l.withValues c).statements)).map c.texts.overlay := by
    rw [List.map_map, ← List.forall₂_eq_eq_eq, List.forall₂_map_left_iff,
      List.forall₂_map_right_iff]
    exact he.found.imp fun {u} {u'} hf => ht.answer_eq (nodup_visibleNames _)
      h.visible_of_mem_texts h.no_hash (nodup_visibleNames _) (fun _ => h.mem_others) hf
  rw [hanswers, hmap, eraseDups_map]
  intro a ha b hb
  obtain ⟨u, -, rfl⟩ := List.mem_map.1 ha
  obtain ⟨w, -, rfl⟩ := List.mem_map.1 hb
  exact h.overlay_beq u w

/-- What everyone likes, and scores, one of which is a number. -/
def tavernStore : Store where
  limits := ⟨8, 8⟩
  clauses :=
    [.fact (.of "likes % %" [.const (.text "sam"), .const (.text "pie")]),
      .fact (.of "likes % %" [.const (.text "sam"), .const (.text "soup")]),
      .fact (.of "likes % %" [.const (.text "ana"), .const (.text "pie")]),
      .fact (.of "sold out %" [.const (.text "soup")]),
      .fact (.of "score % %" [.const (.text "sam"), .const (.int 10)]),
      .fact (.of "score % %" [.const (.text "ana"), .const (.text "10")])]

/-- Two nameless variables came before. -/
def tavernSession : Session Store := ⟨tavernStore, 2, 0⟩

/-- A name and a number. -/
def tavernContext : Record := .ofList [("who", .text "sam"), ("points", .int 10)]

/-- The line `likes (who) (dish), !sold out (dish), score () (points)`. -/
def tavernLine : Line :=
  .conjunction [⟨["likes", "%", "%"], [.var "who", .var "dish"], false⟩,
    ⟨["sold", "out", "%"], [.var "dish"], true⟩,
    ⟨["score", "%", "%"], [.var "", .var "points"], false⟩]

theorem askLine_constrained_tavern :
    tavernSession.Constrains tavernContext tavernLine ∧
      ((Act.askLine Store.engine (tavernLine.constrained tavernContext) none).runIn
        tavernSession).1 = .ok [.ofList [("dish", .text "pie"), ("points", .text "10"),
          ("who", .text "sam")]] ∧
      [Record.ofList [("dish", .text "pie"), ("points", .text "10"), ("who", .text "sam")]] =
        ((tavernStore.searchAll [.of "likes % %" [.const (.text "sam"), .var "dish"],
          ⟨"sold out %", [.var "dish"], true⟩,
          .of "score % %" [.var (anonymousName 2), .const (.text "10")]]).found.map fun t =>
            t.answer ["dish"]).eraseDups.map
          (Record.ofList [("who", .text "sam"), ("points", .text "10")]).overlay := by
  have h : tavernSession.Constrains tavernContext tavernLine := {
    query := fun _ _ h => by cases h
    nonempty := by decide +kernel
    names := by decide +kernel
    vars := by decide +kernel
    nameless := by
      intro i _ _ hi
      have hopen : ∀ x ∈ tavernContext.names, '(' ∉ x.toList := by decide +kernel
      exact hopen _ hi (opening_mem_anonymousName i)
    fresh := by decide +kernel
    other := by decide +kernel }
  have hout : ((Act.askLine Store.engine (tavernLine.constrained tavernContext) none).runIn
      tavernSession).1 = .ok [.ofList [("dish", .text "pie"), ("points", .text "10"),
        ("who", .text "sam")]] := by rfl
  exact ⟨h, hout, (Act.askLine_constrained h hout).2.2⟩

/-- What the values themselves in place of the variables give, laid over the context. -/
def Session.replaced (S : Session Store) (c : Record) (l : Line) : List Record :=
  (S.engine.searchAll ((Statement.literals l.statements S.anonymous).1.map
    (Literal.withValues c))).found.map fun t =>
      c.overlay (t.answer (Act.visibleNames (l.withValues c).statements))

/-- The line `score (who) (points)`. -/
def scoreLine : Line := .claim ⟨["score", "%", "%"], [.var "who", .var "points"], false⟩

/-- The line `likes (who) ()`. -/
def likesLine : Line := .claim ⟨["likes", "%", "%"], [.var "who", .var ""], false⟩

/-- A name alone. -/
def samContext : Record := .ofList [("who", .text "sam")]

/-- The store also has a fact of the transient predicate. -/
def strangerSession : Session Store :=
  ⟨tavernStore.withClause
    (.fact { Act.transientHead 0 ["who"] with terms := [.const (.text "zed")] }), 2, 0⟩

/-- The values themselves give other answers: a number is not its text, equal answers are given once,
and facts of the transient predicate are answers too. -/
theorem askLine_constrained_differs :
    (((Act.askLine Store.engine (scoreLine.constrained tavernContext) none).runIn
        tavernSession).1 = .ok [] ∧
      tavernSession.replaced tavernContext scoreLine = [tavernContext]) ∧
    (((Act.askLine Store.engine (likesLine.constrained samContext) none).runIn
        tavernSession).1 = .ok [samContext] ∧
      tavernSession.replaced samContext likesLine = [samContext, samContext]) ∧
    (((Act.askLine Store.engine (likesLine.constrained samContext) none).runIn
        strangerSession).1 = .ok [.ofList [("who", .text "zed")], samContext] ∧
      strangerSession.replaced samContext likesLine = [samContext, samContext]) :=
  ⟨⟨rfl, rfl⟩, ⟨rfl, rfl⟩, ⟨rfl, rfl⟩⟩

end PassageLogic
