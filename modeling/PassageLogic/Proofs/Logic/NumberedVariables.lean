import PassageLogic.Proofs.Logic.CanonicalForms

/-! # Numbering variables in turn

A canonical form can be made in one pass through a clause: each variable that has not been met before gets
the next number, and one that has been met keeps its own. The variables met so far, in order, are all that
the pass has to know, through head and body. It gives each variable its place among all variables of the
clause (`Clause.numberedInTurn_eq`), since that place does not change when further ones are met.

`Clause.canonical_exact`: canonical forms decide whether clauses are renamings of each other, and are
renamings themselves, with the variables named by their numbers in order. -/

namespace PassageLogic

/-! ### One pass -/

/-- Change elements from left to right, and hand on the names that have been met. -/
def inTurn {α : Type} (change : List String → α → α × List String) :
    List String → List α → List α × List String
  | met, [] => ([], met)
  | met, a :: as =>
    let (b, next) := change met a
    let (bs, last) := inTurn change next as
    (b :: bs, last)

/-- The term with its variable numbered, and the variables met after it. -/
def Term.numberNext (met : List String) : Term → Term × List String
  | .var name =>
    if name ∈ met then (.var (Clause.canonicalName (met.idxOf name)), met)
    else (.var (Clause.canonicalName met.length), met ++ [name])
  | .const value => (.const value, met)

/-- The literal with its variables numbered, and the variables met after it. -/
def Literal.numberNext (met : List String) (l : Literal) : Literal × List String :=
  let (terms, next) := inTurn Term.numberNext met l.terms
  ({ l with terms := terms }, next)

/-- **The clause with its variables numbered in one pass**, from the head through the body. -/
def Clause.numberedInTurn (c : Clause) : Clause :=
  let (head, met) := c.head.numberNext []
  let (body, _) := inTurn Literal.numberNext met c.body
  ⟨head, body⟩

/-! ### What the pass does -/

/-- The name of the place that a variable has in a list. -/
def placeName (names : List String) (x : String) : String := Clause.canonicalName (names.idxOf x)

/-- If the change is made after these names have been met, then it gives each variable its place among all
that are met, up to here or later, and hands on those that are met up to here. -/
def NumbersInTurn {α : Type} (change : List String → α → α × List String) (names : α → List String)
    (mapVars : (String → String) → α → α) : Prop :=
  ∀ (before : List String) (a : α) (all : List String), (before ++ names a).eraseDups <+: all →
    change before.eraseDups a = (mapVars (placeName all) a, (before ++ names a).eraseDups)

/-- A change of elements is a change of lists of them. -/
theorem NumbersInTurn.list {α : Type} {change : List String → α → α × List String}
    {names : α → List String} {mapVars : (String → String) → α → α}
    (h : NumbersInTurn change names mapVars) :
    NumbersInTurn (inTurn change) (List.flatMap names) fun f => List.map (mapVars f) := by
  intro before as all hall
  induction as generalizing before with
  | nil => rw [List.flatMap_nil, List.append_nil]; rfl
  | cons a as ih =>
    rw [List.flatMap_cons, ← List.append_assoc] at hall ⊢
    simp only [inTurn, h before a all ((eraseDups_isPrefix _ _).trans hall), ih _ hall, List.map_cons]

theorem Term.numbersInTurn :
    NumbersInTurn numberNext (fun t => t.name?.toList) Term.mapVars := by
  rintro before t _ ⟨later, rfl⟩
  cases t with
  | const value => exact Prod.ext rfl (congrArg List.eraseDups (List.append_nil before).symm)
  | var name =>
    show numberNext _ _ = (Term.var (placeName ((before ++ [name]).eraseDups ++ later) name),
      (before ++ [name]).eraseDups)
    have hany : (before.any fun a => name == a) = true ↔ name ∈ before.eraseDups := by simp
    rw [numberNext, eraseDups_append_singleton, placeName]
    simp only [hany]
    split_ifs with hmet
    · -- met before: nothing is added, and its place is among the earlier ones
      rw [List.append_nil, List.idxOf_append_of_mem hmet]
    · rw [List.append_assoc, List.idxOf_append_of_notMem hmet, List.singleton_append,
        List.idxOf_cons_self, Nat.add_zero]

theorem Literal.numbersInTurn :
    NumbersInTurn numberNext (fun l => l.terms.filterMap Term.name?) Literal.mapVars := by
  intro before l all hall
  have hnames : l.terms.filterMap Term.name? = l.terms.flatMap fun t => t.name?.toList :=
    List.filterMap_eq_flatMap_toList _ _
  simp only [hnames] at hall ⊢
  simp only [numberNext, Term.numbersInTurn.list before l.terms all hall]
  rfl

namespace Clause

variable (c : Clause)

/-- **The pass gives each variable the number of its first occurrence.** -/
theorem numberedInTurn_eq : c.numberedInTurn = c.canonical := by
  have hhead := Literal.numbersInTurn [] c.head c.vars (eraseDups_isPrefix _ _)
  have hbody := Literal.numbersInTurn.list (c.head.terms.filterMap Term.name?) c.body c.vars
    (List.prefix_refl _)
  have hnone : ([] : List String).eraseDups = [] := rfl
  rw [hnone] at hhead
  simp only [numberedInTurn, hhead, List.nil_append, hbody]
  rfl

/-- A canonical form has the canonical names in their order. -/
theorem vars_canonical : c.canonical.vars = (List.range c.vars.length).map canonicalName := by
  have hplaces : c.vars.map c.vars.idxOf = List.range c.vars.length := by
    refine List.ext_getElem (by simp) fun k hk _ => ?_
    have hnodup : c.vars.Nodup := nodup_eraseDups _
    rw [List.getElem_map, List.getElem_range, hnodup.idxOf_getElem]
  rw [canonical_eq_mapVars, vars_mapVars c.injOn_numberName, ← hplaces, List.map_map]
  rfl

/-- **Canonical forms decide whether clauses are renamings of each other.** They are equal if and only if a
one-to-one renaming of the variables turns the one clause into the other. A canonical form is its own, it
is the clause with its variables renamed one to one, to the canonical names in their order, and it is made
in one pass. -/
theorem canonical_exact :
    (∀ d : Clause, (c.canonical == d.canonical) = true ↔ c.Renames d) ∧
      c.canonical.canonical = c.canonical ∧
      (∃ f, Set.InjOn f {x | x ∈ c.vars} ∧ c.canonical = c.mapVars f) ∧
      c.canonical.vars = (List.range c.vars.length).map canonicalName ∧
      c.canonical = c.numberedInTurn := by
  refine ⟨fun d => isVariant_iff_renames, ?_, ⟨c.numberName, c.injOn_numberName, rfl⟩,
    c.vars_canonical, c.numberedInTurn_eq.symm⟩
  exact canonical_mapVars c.injOn_numberName

/-- Names that look like canonical ones are renamed like all others. -/
example :
    let c : Clause := ⟨.of "near % %" [.var "_1", .var "_0"], [.of "near % %" [.var "_0", .var "_1"]]⟩
    c.canonical = ⟨.of "near % %" [.var "_0", .var "_1"], [.of "near % %" [.var "_1", .var "_0"]]⟩ ∧
      c.Renames c.canonical := by
  decide +kernel

end Clause
end PassageLogic
