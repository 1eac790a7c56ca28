import PassageLogic.Proofs.Logic.Renaming
import PassageLogic.Proofs.Logic.Streams
import PassageLogic.Proofs.Statement.WellFormed
import Mathlib.Data.Fintype.Sum
import Mathlib.Algebra.Group.End

/-! # The names of the variables of a query

The stream of a query depends on the names of its variables only in the names of its records
(`Store.answers_mapVars`): the query renamed by any map that is injective on its variables has the
renamed stream. The map is extended to a permutation of all names that moves no others, and a search is
the same under such a permutation.

A name that the use of a stored clause gives to one of its variables is an exception: the query and the
clause then share the variable (`Store.answers_shared_name`). -/

namespace PassageLogic

/-! ### Extending a renaming -/

/-- An injective map of finitely many names extends to a permutation of all names that moves only these
names and their images. -/
theorem exists_perm_extension (names : Finset String) {f : String → String}
    (hf : Set.InjOn f names) : ∃ g : Equiv.Perm String, (∀ x ∈ names, g x = f x) ∧
      ∀ y, y ∉ names → (∀ x ∈ names, y ≠ f x) → g y = y := by
  classical
  let moved : Finset String := names ∪ names.image f
  let s : Finset moved := Finset.univ.filter fun x => x.1 ∈ names
  have hmem : ∀ x ∈ names, x ∈ moved := fun x hx => Finset.mem_union_left _ hx
  have himage : (s.image fun x => f x.1) ⊆ moved := by
    intro y hy
    obtain ⟨x, hx, rfl⟩ := Finset.mem_image.1 hy
    exact Finset.mem_union_right _ (Finset.mem_image_of_mem f (Finset.mem_filter.1 hx).2)
  have hinj : Set.InjOn (fun x : moved => f x.1) s := fun x hx y hy h =>
    Subtype.ext (hf (Finset.mem_filter.1 hx).2 (Finset.mem_filter.1 hy).2 h)
  obtain ⟨e, he⟩ := Finset.exists_equiv_extend_of_card_eq (Fintype.card_coe moved) himage hinj
  refine ⟨Equiv.Perm.ofSubtype (p := (· ∈ moved)) e, fun x hx => ?_, fun y hy hy' => ?_⟩
  · rw [Equiv.Perm.ofSubtype_apply_of_mem (p := (· ∈ moved)) e (hmem x hx)]
    exact he ⟨x, hmem x hx⟩ (Finset.mem_filter.2 ⟨Finset.mem_univ _, hx⟩)
  · refine Equiv.Perm.ofSubtype_apply_of_not_mem (p := (· ∈ moved)) e fun hm => ?_
    rcases Finset.mem_union.1 hm with hm | hm
    · exact hy hm
    · obtain ⟨x, hx, hxy⟩ := Finset.mem_image.1 hm
      exact hy' x hx hxy.symm

/-! ### Renamed records -/

namespace Record

/-- The record with its names mapped. -/
def mapNames (f : String → String) (r : Record) : Record :=
  ofList (r.entries.map fun e => (f e.1, e.2))

theorem mapNames_congr {f g : String → String} {r : Record} (h : ∀ e ∈ r.entries, f e.1 = g e.1) :
    r.mapNames f = r.mapNames g := by
  unfold mapNames
  rw [List.map_congr_left fun e he => by rw [h e he]]

/-- A renamed name has the value that the name had. -/
theorem get?_mapNames (g : Equiv.Perm String) (r : Record) (x : String) :
    (r.mapNames g).get? (g x) = r.get? x := by
  have hnodup : ((r.entries.map fun e => (g e.1, e.2)).map Prod.fst).Nodup := by
    have hnames : (r.entries.map fun e => (g e.1, e.2)).map Prod.fst =
        (r.entries.map Prod.fst).map g := by
      rw [List.map_map, List.map_map]
      rfl
    rw [hnames]
    exact r.nodup_names.map g.injective
  rw [mapNames, get?_ofList hnodup]
  exact (lookup_map_entries g.injective id r.entries x).trans (congrFun Option.map_id _)

end Record

/-- A renamed solution gives a renamed literal the renamed record. -/
theorem Substitution.project_mapVars (g : Equiv.Perm String) (t : Substitution) (q : Literal) :
    (t.mapVars g).project (q.mapVars g) = (t.project q).mapNames g := by
  refine Record.ext_get? fun y => ?_
  obtain ⟨x, rfl⟩ := g.surjective y
  have hmem : g x ∈ (q.mapVars g).vars ↔ x ∈ q.vars := by
    rw [Literal.mem_vars, Literal.mem_vars]
    constructor
    · intro h
      obtain ⟨u, hu, he⟩ := List.mem_map.1 h
      cases u with
      | var y =>
        rw [← g.injective (Term.var.inj he)]
        exact hu
      | const v => cases he
    · exact fun h => List.mem_map.2 ⟨_, h, rfl⟩
  rw [Record.get?_mapNames, get?_project, get?_project, value?_walk_mapVars g.injective]
  simp only [hmem]

/-- A record of a literal names variables of the literal only. -/
theorem Substitution.mem_vars_of_mem_project {t : Substitution} {q : Literal} {e : String × Value}
    (h : e ∈ (t.project q).entries) : e.1 ∈ q.vars := by
  by_contra hvars
  have hnone : (t.project q).get? e.1 = none := by rw [get?_project, if_neg hvars]
  have hne := List.lookup_eq_none_iff.1 hnone e h
  rw [bne_self_eq_false] at hne
  cases hne

/-! ### Streams -/

namespace Store

variable {store : Store}

theorem search_mapVars (store : Store) {f : String → String} (hf : Function.Injective f)
    (h : SparesUses store.clauses f 0) (q : Literal) :
    store.search (q.mapVars f) = (store.search q).mapVars f :=
  Search.solve_mapVars hf h _ [q] [] _

/-- Some use of a stored clause gives this name to a variable of the clause. -/
def UsesName (store : Store) (name : String) : Prop :=
  ∃ c ∈ store.clauses, ∃ x ∈ c.vars, ∃ n > 0, name = Clause.useName n x

theorem answers_mapVars_perm (g : Equiv.Perm String) (h : SparesUses store.clauses g 0)
    (q : Literal) :
    store.answers (q.mapVars g) = (store.answers q).map (Except.map (Record.mapNames g)) := by
  rw [answers_eq, answers_eq, store.search_mapVars g.injective h, List.map_append]
  refine congrArg₂ _ ?_ ?_
  · show (((store.search q).found.map _).take _).map _ = _
    rw [← List.map_take, List.map_map, List.map_map]
    refine List.map_congr_left fun t _ => ?_
    show Except.ok _ = Except.ok _
    rw [Substitution.project_mapVars]
  · have hlen : ((store.search q).mapVars g).found.length = (store.search q).found.length :=
      List.length_map _
    have hfault : ((store.search q).mapVars g).fault = (store.search q).fault := rfl
    rw [hlen, hfault]
    cases (store.search q).fault with
    | some fault => rfl
    | none =>
      simp only []
      split_ifs <;> rfl

/-- **Answers do not depend on how the query names its variables.** The query under a renaming that is
injective on its variables has the renamed stream, faults included, if none of the names is one that a
stored clause uses. -/
theorem answers_mapVars (store : Store) (q : Literal) {f : String → String}
    (hf : Set.InjOn f {x | x ∈ q.vars})
    (hq : ∀ x ∈ q.vars, ¬ store.UsesName x ∧ ¬ store.UsesName (f x)) :
    store.answers (q.mapVars f) = (store.answers q).map (Except.map (Record.mapNames f)) := by
  have hset : (↑q.vars.toFinset : Set String) = {x | x ∈ q.vars} := by
    ext x
    simp
  obtain ⟨g, hg, hother⟩ := exists_perm_extension q.vars.toFinset (hset ▸ hf)
  have hgf : ∀ x ∈ q.vars, f x = g x := fun x hx => (hg x (List.mem_toFinset.2 hx)).symm
  have hspares : SparesUses store.clauses g 0 := by
    intro n hn c hc x hx
    refine hother _ (fun hm => ?_) fun y hy he => ?_
    · exact (hq _ (List.mem_toFinset.1 hm)).1 ⟨c, hc, x, hx, n, hn, rfl⟩
    · exact (hq y (List.mem_toFinset.1 hy)).2 ⟨c, hc, x, hx, n, hn, he.symm⟩
  have hquery : q.mapVars f = q.mapVars g :=
    Literal.mapVars_congr fun x hx => hgf x (Literal.mem_vars.2 hx)
  rw [hquery, answers_mapVars_perm g hspares]
  refine List.map_congr_left fun item hitem => ?_
  cases item with
  | error fault => rfl
  | ok r =>
    refine congrArg Except.ok (Record.mapNames_congr fun e he => ?_)
    obtain ⟨t, -, rfl⟩ := mem_answers hitem
    exact (hgf e.1 (Substitution.mem_vars_of_mem_project he)).symm

/-- Sam likes pizza when he is hungry, and he is. -/
def snackStore : Store where
  limits := { depth := 5, answers := 10 }
  clauses :=
    [⟨.of "likes % %" [.var "x", .const (.text "pizza")], [.of "hungry %" [.var "x"]]⟩,
      .fact (.of "hungry %" [.const (.text "sam")])]

/-- Who likes what? One of the names looks like the use of a clause. -/
def snackQuery : Literal := .of "likes % %" [.var "z#1", .var "y"]

/-- The two names of the query exchanged. -/
def exchange : String → String := Equiv.swap "y" "z#1"

theorem answers_mapVars_exchange :
    Set.InjOn exchange {x | x ∈ snackQuery.vars} ∧
      (∀ x ∈ snackQuery.vars, ¬ snackStore.UsesName x ∧ ¬ snackStore.UsesName (exchange x)) ∧
        snackStore.answers (.of "likes % %" [.var "y", .var "z#1"]) =
          [.ok (.ofList [("y", .text "sam"), ("z#1", .text "pizza")])] := by
  have hf : Set.InjOn exchange {x | x ∈ snackQuery.vars} := (Equiv.swap "y" "z#1").injective.injOn
  have hvar : ∀ c ∈ snackStore.clauses, ∀ v ∈ c.vars, v = "x" := by decide +kernel
  have hz : ¬ snackStore.UsesName "z#1" := by
    rintro ⟨c, hc, v, hv, n, -, hn⟩
    have hzv : "z" = v := (useName_inj.1 (show Clause.useName 1 "z" = _ from hn)).2
    exact absurd (hzv.trans (hvar c hc v hv)) (by decide)
  have hy : ¬ snackStore.UsesName "y" := by
    rintro ⟨c, -, v, -, n, hn, he⟩
    exact old_of_no_hash (show '#' ∉ "y".toList by decide) 0 n hn v he
  have hq : ∀ x ∈ snackQuery.vars, ¬ snackStore.UsesName x ∧ ¬ snackStore.UsesName (exchange x) := by
    have hvars : snackQuery.vars = ["z#1", "y"] := by decide
    rw [hvars]
    simp only [List.forall_mem_cons, List.not_mem_nil, false_implies, implies_true, and_true]
    exact ⟨⟨hz, hy⟩, ⟨hy, hz⟩⟩
  have hanswers : snackStore.answers snackQuery =
      [.ok (.ofList [("z#1", .text "sam"), ("y", .text "pizza")])] := by
    rfl
  refine ⟨hf, hq, (snackStore.answers_mapVars snackQuery hf hq).trans ?_⟩
  rw [hanswers]
  rfl

/-- **A query that names a variable of a use shares it with the clause**: the fact `pair (x) "a"` is
about all `x`, but the one name is then to be `"b"` and `"a"` at once. -/
theorem answers_shared_name : ¬ ∀ (store : Store) (q : Literal) (f : String → String),
    (∀ x ∈ q.vars, (Token.var x).WellFormed ∧ (Token.var (f x)).WellFormed) →
      Set.InjOn f {x | x ∈ q.vars} →
        store.answers (q.mapVars f) = (store.answers q).map (Except.map (Record.mapNames f)) := by
  intro h
  have hsame := h ⟨{}, [.fact (.of "pair % %" [.var "x", .const (.text "a")])]⟩
    (.of "pair % %" [.const (.text "b"), .var "z"]) (fun _ => "x#1") (by decide +kernel)
    (fun x hx y hy _ => (List.mem_singleton.1 hx).trans (List.mem_singleton.1 hy).symm)
  exact absurd (congrArg List.length hsame) (by decide +kernel)

end Store

end PassageLogic
