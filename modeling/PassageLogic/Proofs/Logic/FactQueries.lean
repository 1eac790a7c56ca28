import PassageLogic.Proofs.Logic.Relevance
import PassageLogic.Proofs.Logic.Unification
import PassageLogic.Proofs.Session.Asking

/-! # Queries for the facts of a predicate

A query whose terms are different variables matches every fact of its predicate, and gives the variables the
values of the fact.

* `records_of_fact`: a stored fact is among the answers if there is no fault.
* `records_withClause`: a fact of a predicate that no body mentions adds one answer, after all others.
  `answers_withClause`: queries for other predicates are answered as before. -/

namespace PassageLogic

/-- The query for the facts of a predicate, with these variables. -/
def Literal.openQuery (p : String) (es : List (String × Value)) : Literal :=
  .of p (es.map fun e => .var e.1)

/-- The fact of a predicate with the values of these variables. -/
def Clause.openFact (p : String) (es : List (String × Value)) : Clause :=
  .fact (.of p (es.map fun e => .const e.2))

/-! ### Variables against values -/

namespace Substitution

/-- **Variables that are not bound yet are unified with values**, if no two of them are the same. -/
theorem unifyAll_values {es : List (String × Value)} (hes : (es.map Prod.fst).Nodup)
    {s : Substitution} (hs : s.Acyclic) (hfree : ∀ e ∈ es, s.lookup e.1 = none) :
    ∃ t, s.unifyAll (es.map fun e => .var e.1) (es.map fun e => .const e.2) = some t ∧
      (∀ e ∈ es, t.walk (.var e.1) = .const e.2) ∧
      ∀ y v, s.walk (.var y) = .const v → t.walk (.var y) = .const v := by
  induction es generalizing s with
  | nil => exact ⟨s, rfl, fun e he => absurd he List.not_mem_nil, fun _ _ h => h⟩
  | cons e es ih =>
    obtain ⟨x, v⟩ := e
    obtain ⟨hx, hes⟩ := List.nodup_cons.1 hes
    obtain ⟨hxs, hfree⟩ := List.forall_mem_cons.1 hfree
    have hwalk : s.walk (.var x) = .var x := walk_unbound hs hxs
    have hunify : s.unify (.var x) (.const v) = some ((x, .const v) :: s) := by
      unfold unify
      rw [hwalk, walk_const]
    have hne : Term.const v ≠ .var x := by simp
    have hbind : ∀ y, walk ((x, .const v) :: s) (.var y) =
        if s.walk (.var y) = .var x then .const v else s.walk (.var y) := fun y =>
      walk_bind (r := .const v) hs hxs trivial hne (.var y)
    have hs' : Acyclic ((x, .const v) :: s) := hs.bind (r := .const v) hxs trivial hne
    obtain ⟨t, ht, hvalues, hkept⟩ := ih hes hs' fun e he => by
      have hne : e.1 ≠ x := fun h => hx (List.mem_map.2 ⟨e, he, h⟩)
      rw [lookup_cons_entry, if_neg hne]
      exact hfree e he
    refine ⟨t, ?_, ?_, fun y w hy => hkept y w ?_⟩
    · simp only [List.map_cons, unifyAll, hunify]
      exact ht
    · rintro e (_ | ⟨_, he⟩)
      · exact hkept x v (by rw [hbind, if_pos hwalk])
      · exact hvalues e he
    · rw [hbind, hy, if_neg (by simp)]

end Substitution

variable {p : String} {es : List (String × Value)}

theorem Literal.mem_vars_openQuery {name : String} :
    name ∈ (Literal.openQuery p es).vars ↔ name ∈ es.map Prod.fst := by
  rw [Literal.mem_vars]
  simp [openQuery, Literal.of]

@[simp] theorem Clause.mapVars_openFact (f : String → String) (p : String)
    (es : List (String × Value)) : (openFact p es).mapVars f = openFact p es := by
  unfold openFact fact mapVars Literal.mapVars Literal.of
  simp only [List.map_map, List.map_nil]
  rfl

/-- Terms that equal texts are these texts, whatever becomes of variables. -/
theorem Term.eq_of_beq_texts {f : String → String} {ts : List Term}
    (hes : ∀ e ∈ es, ∃ text, e.2 = .text text)
    (h : (ts.map (mapVars f) == es.map fun e => .const e.2) = true) :
    ts = es.map fun e => .const e.2 := by
  induction es generalizing ts with
  | nil =>
    cases ts with
    | nil => rfl
    | cons t ts => cases h
  | cons e es ih =>
    obtain ⟨⟨text, he⟩, hes⟩ := List.forall_mem_cons.1 hes
    cases ts with
    | nil => cases h
    | cons t ts =>
      rw [List.map_cons, List.map_cons, List.cons_beq_cons, Bool.and_eq_true] at h
      cases t with
      | var x => cases h.1
      | const v =>
        have hv : v = e.2 := he ▸ Value.eq_text_of_beq (he ▸ h.1)
        rw [List.map_cons, ← ih hes h.2, hv]

/-- **A variant of a fact about texts is the fact itself.** -/
theorem Clause.eq_of_isVariant_openFact {c : Clause} (hes : ∀ e ∈ es, ∃ text, e.2 = .text text)
    (h : c.isVariant (openFact p es) = true) : c = openFact p es := by
  unfold isVariant canonical at h
  rw [mapVars_openFact, beq_iff, Literal.beq_iff] at h
  obtain ⟨⟨hp, hterms, hnegated⟩, hbody⟩ := h
  obtain ⟨⟨predicate, terms, negated⟩, body⟩ := c
  obtain rfl : predicate = p := hp
  obtain rfl : terms = es.map fun e => .const e.2 := Term.eq_of_beq_texts hes hterms
  obtain rfl : negated = false := hnegated
  cases body with
  | nil => rfl
  | cons l ls => cases hbody

/-- The query unified with the fact gives the variables their values. -/
theorem Clause.exists_unifyAll_openFact (hes : (es.map Prod.fst).Nodup) (p : String) (n : Nat) :
    ∃ t, Substitution.unifyAll [] (Literal.openQuery p es).terms ((openFact p es).renamed n).head.terms =
      some t ∧ t.project (Literal.openQuery p es) = .ofList es := by
  obtain ⟨t, ht, hvalues, -⟩ := Substitution.unifyAll_values hes Substitution.acyclic_nil
    fun _ _ => rfl
  refine ⟨t, by rw [renamed, mapVars_openFact]; exact ht, Record.ext_get? fun name => ?_⟩
  rw [Substitution.get?_project, Record.get?_ofList hes]
  by_cases hname : name ∈ es.map Prod.fst
  · rw [if_pos (Literal.mem_vars_openQuery.2 hname)]
    obtain ⟨e, he, rfl⟩ := List.mem_map.1 hname
    rw [hvalues e he, lookup_of_mem hes he]
    rfl
  · rw [if_neg (mt Literal.mem_vars_openQuery.1 hname), eq_comm]
    exact lookup_eq_none_of_ne fun e he hne => hname (List.mem_map.2 ⟨e, he, hne.symm⟩)

/-! ### The search through the clauses of a goal -/

namespace Search

variable {deeper deeper' : Solver} {goal : Literal} {rest : List Literal} {s : Substitution}
  {want : Nat} {o : Outcome} {next : Nat → Nat → Outcome}

/-- A search that was not cut short is followed by the next one. -/
theorem andThen_finished (h : Finished want o) : andThen o want next =
    ⟨o.found ++ (next (want - o.found.length) o.uses).found,
      (next (want - o.found.length) o.uses).uses, (next (want - o.found.length) o.uses).fault⟩ := by
  obtain ⟨k, hk⟩ : ∃ k, want - o.found.length = k + 1 := Nat.exists_eq_add_of_le' (by have := h.2; omega)
  unfold andThen
  rw [h.1, hk]

theorem andThen_of_not_finished (h : ¬ Finished want o) : andThen o want next = o := by
  unfold andThen
  rcases not_finished_iff.1 h with hf | hle
  · obtain ⟨fault, hf⟩ := Option.ne_none_iff_exists'.1 hf
    rw [hf]
  · rw [Nat.sub_eq_zero_of_le hle]
    cases o.fault <;> rfl

/-- The first part of a search that was not cut short was not cut short either. -/
theorem Finished.of_andThen (h : Finished want (andThen o want next)) : Finished want o := by
  by_contra hno
  exact hno (andThen_of_not_finished hno ▸ h)

theorem andThen_assoc (o : Outcome) (want : Nat) (f g : Nat → Nat → Outcome) :
    andThen (andThen o want f) want g = andThen o want fun k n => andThen (f k n) k g := by
  by_cases h : Finished want o
  · rw [andThen_finished h, andThen_finished h]
    generalize f (want - o.found.length) o.uses = o'
    by_cases h' : Finished (want - o.found.length) o'
    · have hboth : Finished want ⟨o.found ++ o'.found, o'.uses, o'.fault⟩ := by
        refine ⟨h'.1, ?_⟩
        have := h'.2
        rw [List.length_append]
        omega
      rw [andThen_finished hboth, andThen_finished h', List.append_assoc, List.length_append,
        Nat.sub_sub]
    · rw [andThen_of_not_finished (mt Finished.of_append h'), andThen_of_not_finished h']
  · rw [andThen_of_not_finished h, andThen_of_not_finished h, andThen_of_not_finished h]

/-- **Two lists of clauses are gone through one after the other.** -/
theorem resolve_append_andThen (cs ds : List Clause) {want : Nat} (hw : want ≠ 0) (uses : Nat) :
    resolve deeper goal rest s (cs ++ ds) want uses =
      andThen (resolve deeper goal rest s cs want uses) want (resolve deeper goal rest s ds) := by
  induction cs generalizing want uses with
  | nil =>
    rw [andThen_finished ⟨rfl, Nat.pos_of_ne_zero hw⟩]
    rfl
  | cons c cs ih =>
    simp only [List.cons_append, resolve]
    split_ifs
    · cases s.unifyAll goal.terms (c.renamed (uses + 1)).head.terms with
      | none => exact ih hw (uses + 1)
      | some t =>
        simp only [andThen_assoc]
        exact andThen_congr fun k n => ih (Nat.succ_ne_zero k) n
    · exact ih hw uses

/-- Nothing but the goals after the use of a clause is looked at one step deeper. -/
theorem resolve_congr {cs : List Clause}
    (h : ∀ c ∈ cs, ∀ n t want uses, deeper' ((c.renamed n).body ++ rest) t want uses =
      deeper ((c.renamed n).body ++ rest) t want uses) (want uses : Nat) :
    resolve deeper' goal rest s cs want uses = resolve deeper goal rest s cs want uses := by
  induction cs generalizing want uses with
  | nil => rfl
  | cons c cs ih =>
    obtain ⟨hc, hcs⟩ := List.forall_mem_cons.1 h
    simp only [resolve, hc]
    split_ifs
    · cases s.unifyAll goal.terms (c.renamed (uses + 1)).head.terms with
      | none => exact ih hcs want (uses + 1)
      | some t => exact andThen_congr fun k n => ih hcs (k + 1) n
    · exact ih hcs want uses

theorem found_subset_andThen (o : Outcome) (want : Nat) (next : Nat → Nat → Outcome) :
    o.found ⊆ (andThen o want next).found := by
  by_cases h : Finished want o
  · rw [andThen_finished h]
    exact List.subset_append_left _ _
  · rw [andThen_of_not_finished h]
    exact List.Subset.refl _

theorem found_andThen_resolve_nil (o : Outcome) (want : Nat) :
    (andThen o want (resolve deeper goal rest s [])).found = o.found := by
  by_cases h : Finished want o
  · rw [andThen_finished h]
    exact List.append_nil _
  · rw [andThen_of_not_finished h]

/-- **The query finds its fact**, and gives its variables the values of the fact. -/
theorem resolve_openFact (hes : (es.map Prod.fst).Nodup) (p : String) (clauses : List Clause)
    (bound room : Nat) (ds : List Clause) (hw : want ≠ 0) (uses : Nat) :
    ∃ t, resolve (solve clauses bound room) (.openQuery p es) [] [] (.openFact p es :: ds) want uses =
        andThen ⟨[t], uses + 1, none⟩ want
          (resolve (solve clauses bound room) (.openQuery p es) [] [] ds) ∧
      t.project (.openQuery p es) = .ofList es := by
  obtain ⟨t, ht, hproject⟩ := Clause.exists_unifyAll_openFact hes p (uses + 1)
  have hsame : (Clause.openFact p es).head.samePredicate (.openQuery p es) = true := by
    rw [Literal.samePredicate_iff_signature]
    simp [Literal.signature, Clause.openFact, Clause.fact, Literal.openQuery, Literal.of,
      Literal.arity]
  have hbody : solve clauses bound room (((Clause.openFact p es).renamed (uses + 1)).body ++ []) t want
      (uses + 1) = ⟨[t], uses + 1, none⟩ := by
    show solve clauses bound room [] t want (uses + 1) = _
    rw [solve_nil, if_neg hw]
  refine ⟨t, ?_, hproject⟩
  simp only [resolve, hsame, if_true, ht, hbody]

end Search

/-! ### Streams -/

namespace Store

/-- The search through some clauses for the last goal there is. -/
def through (store : Store) (goal : Literal) : List Clause → Nat → Nat → Outcome :=
  Search.resolve (Search.solve store.clauses store.limits.depth store.limits.depth) goal [] []

theorem through_openFact (store : Store) (hes : (es.map Prod.fst).Nodup) (p : String)
    (ds : List Clause) {want : Nat} (hw : want ≠ 0) (uses : Nat) :
    ∃ t, store.through (.openQuery p es) (.openFact p es :: ds) want uses =
        Search.andThen ⟨[t], uses + 1, none⟩ want (store.through (.openQuery p es) ds) ∧
      t.project (.openQuery p es) = .ofList es :=
  Search.resolve_openFact hes p store.clauses _ _ ds hw uses

section

variable {store : Store} (hp : p ≠ equalsPredicate)
include hp

theorem search_openQuery (store : Store) (es : List (String × Value)) :
    store.search (.openQuery p es) =
      store.through (.openQuery p es) store.clauses (Limits.above store.limits.answers) 0 := by
  refine Search.solve_resolved (Limits.above_ne_zero _) rfl ?_
  exact Bool.and_eq_false_imp.2 fun h => absurd (beq_iff_eq.1 h) hp

/-- The search goes through the clauses in two parts. -/
theorem search_two_parts {cs ds : List Clause} (h : store.clauses = cs ++ ds)
    (es : List (String × Value)) : store.search (.openQuery p es) =
      Search.andThen (store.through (.openQuery p es) cs (Limits.above store.limits.answers) 0)
        (Limits.above store.limits.answers) (store.through (.openQuery p es) ds) := by
  rw [search_openQuery hp, h]
  exact Search.resolve_append_andThen cs ds (Limits.above_ne_zero _) 0

variable (hes : (es.map Prod.fst).Nodup) (hok : ¬ store.Fails (.openQuery p es))
  (hlen : (store.answers (.openQuery p es)).length < Limits.largest)
include hes hok hlen

/-- **A stored fact is found.** -/
theorem records_of_fact (hfact : Clause.openFact p es ∈ store.clauses) :
    Record.ofList es ∈ store.records (.openQuery p es) := by
  obtain ⟨cs, ds, hcs⟩ := List.append_of_mem hfact
  have hfin : Search.Finished _ (store.search (.openQuery p es)) := search_finished hok hlen
  have hsearch := search_two_parts hp hcs es
  have hbefore := (hsearch ▸ hfin).of_andThen
  obtain ⟨t, ht, hproject⟩ := store.through_openFact hes p ds (Nat.sub_ne_zero_of_lt hbefore.2)
    (store.through (.openQuery p es) cs (Limits.above store.limits.answers) 0).uses
  rw [records_of_not_fails hok, List.mem_map]
  refine ⟨t, ?_, hproject⟩
  rw [hsearch, Search.andThen_finished hbefore, ht]
  exact List.mem_append_right _ (Search.found_subset_andThen _ _ _ (List.mem_singleton_self t))

/-- **A fact of a predicate that no body mentions adds one answer, after all others.** -/
theorem records_withClause (hbodies : ∀ c ∈ store.clauses, ∀ l ∈ c.body, l.predicate ≠ p)
    (hok' : ¬ (store.withClause (.openFact p es)).Fails (.openQuery p es)) :
    (store.withClause (.openFact p es)).records (.openQuery p es) =
      store.records (.openQuery p es) ++ [.ofList es] := by
  have hfin : Search.Finished _ (store.search (.openQuery p es)) := search_finished hok hlen
  -- the stored clauses find what they found, since none of their bodies needs the fact
  have hbefore : (store.withClause (.openFact p es)).through (.openQuery p es) store.clauses
      (Limits.above store.limits.answers) 0 = store.search (.openQuery p es) := by
    rw [search_openQuery hp]
    refine Search.resolve_congr (fun c hc n t want uses => ?_) _ _
    refine Search.solve_added hbodies rfl _ (fun g hg => ?_) t want uses
    rw [List.append_nil] at hg
    obtain ⟨l, hl, rfl⟩ := List.mem_map.1 hg
    exact hbodies c hc l hl
  have hsearch : (store.withClause (.openFact p es)).search (.openQuery p es) = Search.andThen
      ((store.withClause (.openFact p es)).through (.openQuery p es) store.clauses
        (Limits.above store.limits.answers) 0) (Limits.above store.limits.answers)
      ((store.withClause (.openFact p es)).through (.openQuery p es) [.openFact p es]) :=
    search_two_parts hp rfl es
  obtain ⟨t, ht, hproject⟩ := (store.withClause (.openFact p es)).through_openFact hes p []
    (Nat.sub_ne_zero_of_lt hfin.2) (store.search (.openQuery p es)).uses
  have hfound : ((store.withClause (.openFact p es)).search (.openQuery p es)).found =
      (store.search (.openQuery p es)).found ++ [t] := by
    rw [hsearch, hbefore, Search.andThen_finished hfin, ht]
    exact congrArg (_ ++ ·) (Search.found_andThen_resolve_nil _ _)
  rw [records_of_not_fails hok', records_of_not_fails hok, hfound, List.map_append, List.map_singleton,
    hproject]

end

/-- A clause of a predicate that no body mentions only changes the streams for that predicate. -/
theorem answers_withClause {store : Store} {c : Clause}
    (hbodies : ∀ d ∈ store.clauses, ∀ l ∈ d.body, l.predicate ≠ c.head.predicate) {q : Literal}
    (hq : q.predicate ≠ c.head.predicate) : (store.withClause c).answers q = store.answers q := by
  have hsearch : (store.withClause c).search q = store.search q :=
    Search.solve_added hbodies rfl _ (fun g hg => List.mem_singleton.1 hg ▸ hq) _ _ _
  rw [answers_eq, answers_eq, hsearch]
  rfl

end Store
end PassageLogic
