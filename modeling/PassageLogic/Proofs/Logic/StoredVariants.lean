import PassageLogic.Proofs.Logic.Correspondence
import PassageLogic.Proofs.Logic.CanonicalForms
import PassageLogic.Proofs.Logic.Streams

/-! # Stores with variants of the same clauses

Stored clauses matter only up to the names of their variables: a store in which clauses are replaced by
variants gives a query the same stream (`Store.answers_variants`). The two searches start from the query
and no bindings, with every name paired to itself (`SameUnmarked`), and use alike clauses at every step, so
that they end alike; the variables of the query are then given alike values (`Follows.project`). -/

namespace PassageLogic

variable {E : Value → Value → Prop}

/-! ### Searches for a query -/

/-- The same name, without a mark. -/
def SameUnmarked (x x' : String) : Prop := x = x' ∧ '#' ∉ x.toList

theorem corresponds_sameUnmarked : Corresponds SameUnmarked 0 0 [] [] where
  acyclic := Substitution.acyclic_nil
  acyclic' := Substitution.acyclic_nil
  names := Substitution.namesIn_nil
  names' := Substitution.namesIn_nil
  pairing := by
    constructor
    · rintro x x' y' ⟨rfl, -⟩ ⟨rfl, -⟩
      rfl
    · rintro x y x' ⟨rfl, -⟩ ⟨rfl, -⟩
      rfl
  old := by
    rintro x _ ⟨rfl, hx⟩
    exact ⟨old_of_no_hash hx 0, old_of_no_hash hx 0⟩

/-- A query without marks in its names is alike to itself. -/
theorem Literal.alike_unmarked (hE : Indistinct E) {q : Literal}
    (hq : ∀ name ∈ q.vars, '#' ∉ name.toList) : q.Alike E SameUnmarked [] [] q := by
  refine ⟨rfl, rfl, List.forall₂_same.2 fun a ha => ?_⟩
  cases a with
  | var x => exact Term.Paired.var ⟨rfl, hq x (Literal.mem_vars.2 ha)⟩
  | const v => exact Term.Paired.const (hE.refl v)

/-- Solutions that correspond give a query without marks in its names alike records. -/
theorem Follows.project {q : Literal} (hq : ∀ name ∈ q.vars, '#' ∉ name.toList)
    {t t' : Substitution} (h : Follows E SameUnmarked [] [] t t') :
    (t.project q).Alike E (t'.project q) := by
  obtain ⟨W, -, -, ha⟩ := h
  intro y
  rw [Substitution.get?_project, Substitution.get?_project]
  split_ifs with hy
  · exact (ha (.var y) (.var y) (.var ⟨rfl, hq y hy⟩)).value?
  · exact .none

/-- The same fault, or alike records. -/
inductive Item.Alike (E : Value → Value → Prop) : Item → Item → Prop
  | record {r r' : Record} (h : r.Alike E r') : Alike E (.ok r) (.ok r')
  | fault (f : Fault) : Alike E (.error f) (.error f)

theorem Item.eq_of_alike {i i' : Item} (h : Item.Alike Eq i i') : i = i' := by
  cases h with
  | record h => rw [Record.eq_of_alike h]
  | fault f => rfl

/-- **Searches that end alike give alike streams.** -/
theorem Store.answers_alike {store store' : Store} {q : Literal}
    (hq : ∀ name ∈ q.vars, '#' ∉ name.toList)
    (h : Search.EndsAlike E SameUnmarked [] [] (store.search q) (store'.search q))
    (hl : store'.limits = store.limits) :
    List.Forall₂ (Item.Alike E) (store.answers q) (store'.answers q) := by
  rw [answers_eq, answers_eq, h.fault, h.length_eq, hl]
  refine List.rel_append ?_ ?_
  · rw [List.forall₂_map_left_iff, List.forall₂_map_right_iff]
    exact (List.forall₂_take _ h.found).imp fun {_} {_} ht => .record (ht.project hq)
  · have hrefl : ∀ fs : List Fault, List.Forall₂ (Item.Alike E) (fs.map .error) (fs.map .error) := by
      intro fs
      rw [List.forall₂_map_left_iff, List.forall₂_map_right_iff, List.forall₂_same]
      exact fun f _ => .fault f
    cases (store.search q).fault with
    | some f => exact hrefl [f]
    | none =>
      simp only []
      split_ifs
      · exact hrefl [_]
      · exact .nil

/-! ### Variants -/

theorem Term.Paired.of_mapVars {names : List String} {f : String → String} {a a' : Term}
    (h : Term.Paired E Eq (a.mapVars f) a') (ha : ∀ x, a = .var x → x ∈ names) :
    Term.Paired E (fun y y' => y ∈ names ∧ f y = y') a a' := by
  cases a with
  | var x =>
    obtain ⟨x', rfl, hx⟩ := h.of_var
    exact .var ⟨ha x rfl, hx⟩
  | const v =>
    cases h with
    | const hv => exact .const hv

theorem Term.paired_of_beq {a a' : Term} (h : (a == a') = true) :
    Term.Paired Value.Alike Eq a a' := by
  cases a <;> cases a'
  · exact .var (eq_of_beq (α := String) h)
  · cases h
  · cases h
  · exact .const (.inr h)

theorem Literal.alike_of_beq {l l' : Literal} (h : (l == l') = true) :
    l.Alike Value.Alike Eq [] [] l' := by
  obtain ⟨hp, ht, hn⟩ := Literal.beq_iff.1 h
  exact ⟨hp.symm, hn.symm, (beq_iff_forall₂.1 ht).imp fun {_} {_} ha => Term.paired_of_beq ha⟩

namespace Clause

variable {c c' : Clause} {f : String → String}

theorem alike_of_beq (h : (c == c') = true) : c.Alike Value.Alike Eq c' :=
  ⟨Literal.alike_of_beq (beq_iff.1 h).1,
    (beq_iff_forall₂.1 (beq_iff.1 h).2).imp fun {_} {_} hl => Literal.alike_of_beq hl⟩

/-- A clause is alike to what its renamed form is alike to, if no two variables get the same name. -/
theorem SameUpTo.of_mapVars (hf : Set.InjOn f {x | x ∈ c.vars}) (h : (c.mapVars f).Alike E Eq c') :
    c.SameUpTo E c' := by
  have hlit : ∀ l ∈ c.head :: c.body, ∀ l', (l.mapVars f).Alike E Eq [] [] l' →
      l.Alike E (fun y y' => y ∈ c.vars ∧ f y = y') [] [] l' := by
    intro l hl l' hll'
    refine ⟨hll'.predicate, hll'.negated, ?_⟩
    have hterms := hll'.terms
    unfold Literal.mapVars at hterms
    rw [List.forall₂_map_left_iff] at hterms
    refine List.Forall₂.imp ?_ ((List.forall₂_and_left _ _).2 ⟨fun a ha => ha, hterms⟩)
    rintro a a' ⟨ha, haa'⟩
    exact Term.Paired.of_mapVars haa' fun x hx => mem_vars.2 ⟨l, hl, hx ▸ ha⟩
  have hbody := h.body
  unfold mapVars at hbody
  rw [List.forall₂_map_left_iff] at hbody
  refine ⟨fun y y' => y ∈ c.vars ∧ f y = y', ⟨?_, ?_⟩, hlit _ List.mem_cons_self _ h.head, ?_⟩
  · rintro y _ _ ⟨-, rfl⟩ ⟨-, rfl⟩
    rfl
  · rintro y z _ ⟨hy, rfl⟩ ⟨hz, hyz⟩
    exact (hf hz hy hyz).symm
  · refine List.Forall₂.imp ?_ ((List.forall₂_and_left _ _).2 ⟨fun l hl => hl, hbody⟩)
    rintro l l' ⟨hl, hll'⟩
    exact hlit l (List.mem_cons_of_mem _ hl) l' hll'

end Clause

namespace Store

theorem search_alikeClauses (hE : Indistinct E) (limits : Limits) {cs cs' : List Clause}
    (hcs : List.Forall₂ (Clause.SameUpTo E) cs cs') {q : Literal}
    (hq : ∀ name ∈ q.vars, '#' ∉ name.toList) :
    Search.EndsAlike E SameUnmarked [] [] ((Store.mk limits cs).search q)
      ((Store.mk limits cs').search q) :=
  Search.solve_alikeClauses hE hcs corresponds_sameUnmarked (.cons (Literal.alike_unmarked hE hq) .nil)
    _ _

/-- **Stored clauses matter only up to the names of their variables.** If clauses are replaced, at their
positions, by clauses with their variables renamed one-to-one, then the stream of a query without marks in
its names is the same, faults included. If they are replaced by what the store takes for variants, whose
values need only be equal and not identical, then the streams differ in equal values at most; a value of the
query itself is the same in both, also if it is NaN. -/
theorem answers_variants (limits : Limits) {cs cs' : List Clause} {q : Literal}
    (hq : ∀ name ∈ q.vars, '#' ∉ name.toList) :
    (List.Forall₂ (fun c c' => ∃ f : String → String,
        Set.InjOn f {x | x ∈ c.vars} ∧ c.mapVars f = c') cs cs' →
      (Store.mk limits cs).answers q = (Store.mk limits cs').answers q) ∧
    (List.Forall₂ (fun c c' => c.isVariant c' = true) cs cs' →
      List.Forall₂ (Item.Alike Value.Alike) ((Store.mk limits cs).answers q)
        ((Store.mk limits cs').answers q)) := by
  constructor
  · intro hcs
    have hsame : List.Forall₂ (Clause.SameUpTo Eq) cs cs' := by
      refine hcs.imp ?_
      rintro c _ ⟨f, hf, rfl⟩
      exact .of_mapVars hf (.refl indistinct_eq _)
    have hitems := answers_alike hq (search_alikeClauses indistinct_eq limits hsame hq) rfl
    rw [← List.forall₂_eq_eq_eq]
    exact hitems.imp fun {_} {_} hi => Item.eq_of_alike hi
  · intro hcs
    have hsame : List.Forall₂ (Clause.SameUpTo Value.Alike) cs cs' := by
      refine hcs.imp fun {c} {c'} h => ?_
      obtain ⟨f, hf, hc⟩ := Clause.renames_of_isVariant h
      exact .of_mapVars hf (Clause.alike_of_beq hc)
    exact answers_alike hq (search_alikeClauses indistinct_alike limits hsame hq) rfl

/-- Who is hungry and not full eats what food there is; `x` and `y` are the names of the two variables. -/
def tableClauses (x y : String) : List Clause :=
  [⟨.of "eats % %" [.var x, .var y],
      [.of "hungry %" [.var x], { Literal.of "full %" [.var x] with negated := true },
        .of "food %" [.var y]]⟩,
    .fact (.of "hungry %" [.const (.text "alex")]), .fact (.of "full %" [.const (.text "alex")]),
    .fact (.of "hungry %" [.const (.text "sam")]), .fact (.of "food %" [.const (.text "pizza")])]

/-- Who eats what? -/
def tableQuery : Literal := .of "eats % %" [.var "who", .var "what"]

/-- The one name of a variable of the rule becomes the other, and the other one that looks like a use. -/
def renameTable (name : String) : String := if name = "x" then "y" else "x#1"

theorem answers_variants_table :
    (∀ name ∈ tableQuery.vars, '#' ∉ name.toList) ∧
    List.Forall₂ (fun c c' => ∃ f : String → String, Set.InjOn f {x | x ∈ c.vars} ∧ c.mapVars f = c')
      (tableClauses "x" "y") (tableClauses "y" "x#1") ∧
    List.Forall₂ (fun c c' => c.isVariant c' = true) (tableClauses "x" "y") (tableClauses "y" "x#1") ∧
    (Store.mk {} (tableClauses "y" "x#1")).answers tableQuery =
      [.ok (.ofList [("who", .text "sam"), ("what", .text "pizza")])] ∧
    List.Forall₂ (Item.Alike Value.Alike)
      ((Store.mk {} (tableClauses "x" "y")).answers tableQuery)
      ((Store.mk {} (tableClauses "y" "x#1")).answers tableQuery) := by
  have hq : ∀ name ∈ tableQuery.vars, '#' ∉ name.toList := by decide
  have hvars : ∀ c ∈ tableClauses "x" "y", ∀ x ∈ c.vars, ∀ y ∈ c.vars,
      renameTable x = renameTable y → x = y := by decide +kernel
  have hrenamed : List.Forall₂ (fun c c' => ∃ f : String → String,
      Set.InjOn f {x | x ∈ c.vars} ∧ c.mapVars f = c') (tableClauses "x" "y")
      (tableClauses "y" "x#1") := by
    have hmap : (tableClauses "x" "y").map (Clause.mapVars renameTable) = tableClauses "y" "x#1" := by
      decide +kernel
    rw [← hmap, List.forall₂_map_right_iff, List.forall₂_same]
    exact fun c hc => ⟨renameTable, fun x hx y hy => hvars c hc x hx y hy, rfl⟩
  have hvariants : List.Forall₂ (fun c c' => c.isVariant c' = true) (tableClauses "x" "y")
      (tableClauses "y" "x#1") := by decide +kernel
  obtain ⟨hsame, halike⟩ := answers_variants {} hq
  refine ⟨hq, hrenamed, hvariants, (hsame hrenamed).symm.trans ?_, halike hvariants⟩
  rfl

end Store

end PassageLogic
