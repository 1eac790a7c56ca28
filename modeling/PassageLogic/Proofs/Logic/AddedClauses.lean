import PassageLogic.Proofs.Logic.StoredVariants
import PassageLogic.Proofs.Logic.HerbrandModel

/-! # Further clauses

Further clauses never remove or reorder the answers of a program without denials
(`Store.answers_sublist`). A search in the larger store that is not cut short does all that the search in
the smaller one does, in the same order, and more in between. The numbers of the clause uses are not the
same, so that the solutions of the smaller search are found up to the names of clause variables:
it is embedded in the larger one (`Embedded`, `solve_embedded`). -/

namespace PassageLogic

namespace Search

variable {clauses smaller : List Clause} {bound : Nat} {V W : String → String → Prop}
  {s s' t t' : Substitution} {o o' : Outcome}

/-- The search with the outcome `o'` had no fault, and what it found was found, in this order and among
others, by the one with the outcome `o`. -/
def Embedded (V : String → String → Prop) (s s' : Substitution) (o o' : Outcome) : Prop :=
  o'.fault = none ∧
    ∃ found, found.Sublist o.found ∧ List.Forall₂ (Follows Eq V s s') found o'.found

namespace Embedded

theorem nil {n : Nat} : Embedded V s s' o ⟨[], n, none⟩ := ⟨rfl, [], List.nil_sublist _, .nil⟩

theorem length_le (h : Embedded V s s' o o') : o'.found.length ≤ o.found.length := by
  obtain ⟨-, found, hsub, hf⟩ := h
  rw [← hf.length_eq]
  exact hsub.length_le

theorem of_imp (h : Embedded W t t' o o') (hVW : ∀ x x', V x x' → W x x')
    (ht : ∀ a a', Alike Eq V s s' a a' → Alike Eq W t t' a a') : Embedded V s s' o o' := by
  obtain ⟨hfault, found, hsub, hf⟩ := h
  exact ⟨hfault, found, hsub, hf.imp fun {_} {_} hu => hu.of_imp hVW ht⟩

/-- What is embedded in the second part of a search is embedded in the whole. -/
theorem of_append {n : Nat} {f : Option Fault} (h : Embedded V s s' o o')
    (found : List Substitution) : Embedded V s s' ⟨found ++ o.found, n, f⟩ o' := by
  obtain ⟨hfault, found', hsub, hf⟩ := h
  exact ⟨hfault, found', hsub.trans (List.sublist_append_right _ _), hf⟩

theorem append {p p' : Outcome} {n : Nat} {f : Option Fault} (h : Embedded V s s' o o')
    (hp : Embedded V s s' p p') : Embedded V s s' ⟨o.found ++ p.found, n, f⟩
      ⟨o'.found ++ p'.found, p'.uses, p'.fault⟩ := by
  obtain ⟨-, found, hsub, hf⟩ := h
  obtain ⟨hfault, more, hsub', hf'⟩ := hp
  exact ⟨hfault, found ++ more, hsub.append hsub', List.rel_append hf hf'⟩

end Embedded

theorem embedded_steps (hd : DenialFree clauses) (hcs : smaller.Sublist clauses) :
    Steps clauses bound
    (fun room goals s want uses o => (∀ g ∈ goals, g.negated = false) → Finished want o →
      ∀ V uses' s' goals' want', want ≤ want' → Corresponds V uses uses' s s' →
      List.Forall₂ (Literal.Alike Eq V s s') goals goals' →
      Embedded V s s' o (solve smaller bound room goals' s' want' uses'))
    (fun room goal rest s cs want uses o => (∀ g ∈ rest, g.negated = false) → Finished want o →
      ∀ V uses' s' goal' rest' cs' want', cs'.Sublist cs → want ≤ want' →
      Corresponds V uses uses' s s' → goal.Alike Eq V s s' goal' →
      List.Forall₂ (Literal.Alike Eq V s s') rest rest' →
      Embedded V s s' o (resolve (solve smaller bound room) goal' rest' s' cs' want' uses')) where
  done := by
    intro room s want uses _ hfin V uses' s' goals' want' hle hc hg
    have hw := hfin.want_ne_zero
    cases hg
    rw [solve_nil, if_neg hw, if_neg (by omega)]
    exact ⟨rfl, [s], List.Sublist.refl _, .cons (.refl hc.pairing) .nil⟩
  sated := fun _ hfin => absurd rfl hfin.want_ne_zero
  tooDeep := fun _ _ hfin => by cases hfin.1
  probeFault := fun _ _ _ _ _ _ hfin => by cases hfin.1
  probeFound := by
    intro room goal rest s want uses probe _ hn _ _ _ _ hpos
    rw [hpos goal List.mem_cons_self] at hn
    cases hn
  probeEmpty := by
    intro room goal rest s want uses probe o _ hn _ _ _ _ _ hpos
    rw [hpos goal List.mem_cons_self] at hn
    cases hn
  equated := by
    intro room goal rest s a b t want uses o hw hn he hab hu ih hpos hfin V uses' s' goals' want' hle
      hc hgs
    obtain ⟨goal', rest', hg, hr, rfl⟩ := List.forall₂_cons_left_iff.1 hgs
    obtain ⟨a', b', t', hab', hu', hc', himp⟩ := hc.equated indistinct_eq hg hab hu
    rw [solve_equated (by omega) (hg.negated.trans hn) (hg.isEquality.trans he) hab' hu']
    have hr' := hr.imp fun {l} {l'} hl => hl.imp himp
    have hpos' : ∀ g ∈ rest, g.negated = false := fun g h => hpos g (List.mem_cons_of_mem _ h)
    exact (ih hpos' hfin V uses' t' rest' want' hle hc' hr').of_imp (fun _ _ hx => hx) himp
  unequal := by
    intro room goal rest s a b want uses hw hn he hab hu _ _ V uses' s' goals' want' hle hc hgs
    obtain ⟨goal', rest', hg, hr, rfl⟩ := List.forall₂_cons_left_iff.1 hgs
    obtain ⟨a', b', hab', hu'⟩ := hc.unequal indistinct_eq hg hab hu
    rw [solve_unequal (by omega) (hg.negated.trans hn) (hg.isEquality.trans he) hab' hu']
    exact .nil
  resolved := by
    intro room goal rest s want uses o hw hn he ih hpos hfin V uses' s' goals' want' hle hc hgs
    obtain ⟨goal', rest', hg, hr, rfl⟩ := List.forall₂_cons_left_iff.1 hgs
    rw [solve_resolved (by omega) (hg.negated.trans hn) (hg.isEquality.trans he)]
    have hpos' : ∀ g ∈ rest, g.negated = false := fun g h => hpos g (List.mem_cons_of_mem _ h)
    exact ih hpos' hfin V uses' s' goal' rest' smaller want' hcs hle hc hg hr
  exhausted := by
    intro room goal rest s want uses _ _ V uses' s' goal' rest' cs' want' hsub _ _ _ _
    rw [List.sublist_nil.1 hsub]
    exact .nil
  other := by
    intro room goal rest s c cs want uses o _ hp ih hpos hfin V uses' s' goal' rest' cs' want' hsub hle
      hc hg hr
    cases hsub with
    | cons _ hsub => exact ih hpos hfin V uses' s' goal' rest' cs' want' hsub hle hc hg hr
    | cons_cons _ hsub =>
      rw [resolve_other ((hg.samePredicate c.head).trans hp)]
      exact ih hpos hfin V uses' s' goal' rest' _ want' hsub hle hc hg hr
  clash := by
    intro room goal rest s c cs want uses o _ hp hu ih hpos hfin V uses' s' goal' rest' cs' want' hsub
      hle hc hg hr
    cases hsub with
    | cons _ hsub =>
      have hc' := hc.mono (Nat.le_succ uses) (Nat.le_refl uses')
      exact ih hpos hfin V uses' s' goal' rest' cs' want' hsub hle hc' hg hr
    | cons_cons _ hsub =>
      rw [resolve_clash ((hg.samePredicate c.head).trans hp) (hc.clash indistinct_eq hg hu)]
      have hc' := hc.mono (Nat.le_succ uses) (Nat.le_succ uses')
      exact ih hpos hfin V _ s' goal' rest' _ want' hsub hle hc' hg hr
  ended := by
    rintro room goal rest s c cs t want uses o _ _ _ _ _ (he | he) _ hfin
    · exact absurd hfin.1 he
    · exact absurd hfin.2 (by omega)
  more := by
    intro room goal rest s c cs t want uses o o₂ hmem hp hu ih ho hf hlt ih₂ hpos hfin V uses' s' goal'
      rest' cs' want' hsub hle hc hg hr
    have huses := uses_le_of_solve ho
    cases hsub with
    | cons _ hsub =>
      -- a clause that the smaller store does not have: all that is embedded comes after it
      have hc' := hc.mono (Nat.le_of_succ_le huses) (Nat.le_refl uses')
      have hmore := ih₂ hpos hfin.of_append V uses' s' goal' rest' cs' want' hsub (by omega) hc' hg hr
      exact hmore.of_append _
    | cons_cons _ hsub =>
      -- a clause of both stores: its use in the one is embedded in its use in the other
      obtain ⟨t', hu', hct, himp, hbody⟩ := hc.used indistinct_eq hg hr hu
      have hfirst := ih (hd.body_append hmem _ hpos) ⟨hf, hlt⟩ _ (uses' + 1) t' _ want' hle hct hbody
      have huses' : uses' + 1 ≤ (solve smaller bound room ((c.renamed (uses' + 1)).body ++ rest') t'
          want' (uses' + 1)).uses := uses_le _ _ _ _ _
      generalize hq : solve smaller bound room ((c.renamed (uses' + 1)).body ++ rest') t' want'
        (uses' + 1) = q at hfirst huses'
      have hlen := hfirst.length_le
      have hc' := hc.mono (Nat.le_of_succ_le huses) (Nat.le_of_succ_le huses')
      have hmore := ih₂ hpos hfin.of_append V q.uses s' goal' rest' _ (want' - q.found.length) hsub
        (by omega) hc' hg hr
      rw [resolve_more ((hg.samePredicate c.head).trans hp) hu' hq hfirst.1 (by omega) rfl]
      exact (hfirst.of_imp (subset_withUses _ _) himp).append hmore

/-- **A search in a store with fewer clauses is embedded in the search in the larger one**, if nothing is
denied and the larger search is not cut short. -/
theorem solve_embedded (hd : DenialFree clauses) (hcs : smaller.Sublist clauses)
    {goals goals' : List Literal} (hpos : ∀ g ∈ goals, g.negated = false) {room want uses uses' : Nat}
    (hf : Finished want (solve clauses bound room goals s want uses))
    (h : Corresponds V uses uses' s s')
    (hg : List.Forall₂ (Literal.Alike Eq V s s') goals goals') :
    Embedded V s s' (solve clauses bound room goals s want uses)
      (solve smaller bound room goals' s' want uses') :=
  (embedded_steps hd hcs).solve room goals s want uses hpos hf V uses' s' goals' want (Nat.le_refl _) h hg

end Search

namespace Store

/-- **Further clauses never remove or reorder answers.** If neither the clauses nor the query deny
anything and the stream in the larger store shows no fault, then the stream in the smaller store shows
none either and is a part of it, in the same order. A stream of `Limits.largest` records, more than any
memory holds, is cut off there without a fault; it is the only exception. -/
theorem answers_sublist {store larger : Store} (hcs : store.clauses.Sublist larger.clauses)
    (hl : larger.limits = store.limits) (hd : DenialFree larger.clauses) {q : Literal}
    (hq : q.negated = false) (hv : ∀ name ∈ q.vars, '#' ∉ name.toList) (hok : ¬ larger.Fails q)
    (hlen : (larger.answers q).length < Limits.largest) :
    ¬ store.Fails q ∧ (store.answers q).Sublist (larger.answers q) := by
  have hpos : ∀ g ∈ [q], g.negated = false := fun g hg => by rw [List.mem_singleton.1 hg, hq]
  obtain ⟨hfault, found, hsub, hfollows⟩ := Search.solve_embedded hd hcs hpos
    (search_finished hok hlen) corresponds_sameUnmarked
    (.cons (Literal.alike_unmarked indistinct_eq hv) .nil)
  have hsearch : Search.solve store.clauses larger.limits.depth (larger.limits.depth + 1) [q] []
      (Limits.above larger.limits.answers) 0 = store.search q := by
    rw [hl]
    rfl
  rw [hsearch] at hfault hfollows
  have hrecords : found.map (fun t => (.ok (t.project q) : Item)) =
      (store.search q).found.map fun t => .ok (t.project q) := by
    rw [← List.forall₂_eq_eq_eq, List.forall₂_map_left_iff, List.forall₂_map_right_iff]
    exact hfollows.imp fun {_} {_} ht => congrArg Except.ok (Record.eq_of_alike (ht.project hv))
  have hno : ¬ store.Fails q := by
    refine not_fails_iff.2 ⟨hfault, ?_⟩
    calc (store.search q).found.length = found.length := hfollows.length_eq.symm
      _ ≤ (larger.search q).found.length := hsub.length_le
      _ ≤ store.limits.answers := hl ▸ (not_fails_iff.1 hok).2
  refine ⟨hno, ?_⟩
  rw [answers_of_not_fails hno, answers_of_not_fails hok, ← hrecords]
  exact hsub.map _

/-- Roads from `a` to `b` and from `b` to `c`, further ones in between, and where they lead. -/
def pathStore (further : List Clause) : Store where
  limits := {}
  clauses :=
    .fact (.of "road % %" [.const (.text "a"), .const (.text "b")]) :: further ++
      [.fact (.of "road % %" [.const (.text "b"), .const (.text "c")]),
        ⟨.of "leads % %" [.var "x", .var "y"], [.of "road % %" [.var "x", .var "y"]]⟩,
        ⟨.of "leads % %" [.var "x", .var "z"],
          [.of "road % %" [.var "x", .var "y"], .of "leads % %" [.var "y", .var "z"]]⟩]

/-- Where do the roads from `a` lead? -/
def pathQuery : Literal := .of "leads % %" [.const (.text "a"), .var "to"]

/-- One more road. -/
def sideRoad : Clause := .fact (.of "road % %" [.const (.text "b"), .const (.text "d")])

theorem answers_sublist_sideRoad :
    (pathStore []).clauses.Sublist (pathStore [sideRoad]).clauses ∧
    DenialFree (pathStore [sideRoad]).clauses ∧ pathQuery.negated = false ∧
    (∀ name ∈ pathQuery.vars, '#' ∉ name.toList) ∧ ¬ (pathStore [sideRoad]).Fails pathQuery ∧
    ((pathStore [sideRoad]).answers pathQuery).length < Limits.largest ∧
    (pathStore []).answers pathQuery =
      [.ok (.ofList [("to", .text "b")]), .ok (.ofList [("to", .text "c")])] ∧
    (pathStore [sideRoad]).answers pathQuery = [.ok (.ofList [("to", .text "b")]),
      .ok (.ofList [("to", .text "d")]), .ok (.ofList [("to", .text "c")])] ∧
    ((pathStore []).answers pathQuery).Sublist ((pathStore [sideRoad]).answers pathQuery) := by
  have hcs : (pathStore []).clauses.Sublist (pathStore [sideRoad]).clauses :=
    (List.sublist_cons_self sideRoad _).cons_cons _
  have hd : DenialFree (pathStore [sideRoad]).clauses := by decide
  have hv : ∀ name ∈ pathQuery.vars, '#' ∉ name.toList := by decide
  have hok : ¬ (pathStore [sideRoad]).Fails pathQuery :=
    not_fails_iff.2 ⟨by decide +kernel, by decide +kernel⟩
  have hlen : ((pathStore [sideRoad]).answers pathQuery).length < Limits.largest := by decide +kernel
  exact ⟨hcs, hd, rfl, hv, hok, hlen, by rfl, by rfl,
    (answers_sublist hcs rfl hd rfl hv hok hlen).2⟩

end Store

end PassageLogic
