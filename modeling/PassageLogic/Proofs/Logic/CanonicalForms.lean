import PassageLogic.Proofs.Logic.Variants
import PassageLogic.Proofs.Logic.Renaming
import PassageLogic.Proofs.Logic.Distinct
import Mathlib.Data.List.Forall2
import Mathlib.Data.Set.Function

/-! # Canonical forms

Clauses are equal up to a one-to-one renaming of their variables (`Renames`) if and only if their
canonical forms are equal (`isVariant_iff_renames`). A renaming keeps the order in which the variables
first occur, so that the numbers are the same (`Renames.isVariant`); and equal canonical forms give a
renaming by way of the numbers (`renames_of_isVariant`). A store that keeps no two variants therefore
keeps no two clauses that rename each other. -/

namespace PassageLogic

/-! ### Equal lists -/

theorem map_beq_map {α β : Type} [BEq α] [BEq β] {f : α → β} {as bs : List α}
    (hf : ∀ a b : α, (a == b) = true → (f a == f b) = true) (h : (as == bs) = true) :
    (as.map f == bs.map f) = true := by
  rw [beq_iff_forall₂, List.forall₂_map_left_iff, List.forall₂_map_right_iff]
  exact (beq_iff_forall₂.1 h).imp hf

theorem map_eq_map_of_beq {α β : Type} [BEq α] {f : α → β} {as bs : List α}
    (hf : ∀ a b : α, (a == b) = true → f a = f b) (h : (as == bs) = true) :
    as.map f = bs.map f := by
  rw [← List.forall₂_eq_eq_eq, List.forall₂_map_left_iff, List.forall₂_map_right_iff]
  exact (beq_iff_forall₂.1 h).imp hf

/-! ### Equal clauses -/

theorem Term.name?_congr {t u : Term} (h : (t == u) = true) : t.name? = u.name? := by
  cases t <;> cases u
  · exact congrArg some (eq_of_beq (α := String) h)
  · cases h
  · cases h
  · rfl

theorem Term.mapVars_beq (f : String → String) {t u : Term} (h : (t == u) = true) :
    (t.mapVars f == u.mapVars f) = true := by
  cases t <;> cases u
  · rename_i x y
    obtain rfl : x = y := eq_of_beq (α := String) h
    exact beq_self_eq_true (f x)
  · cases h
  · cases h
  · exact h

theorem Literal.mapVars_beq (f : String → String) {l m : Literal} (h : (l == m) = true) :
    (l.mapVars f == m.mapVars f) = true := by
  obtain ⟨hp, ht, hn⟩ := Literal.beq_iff.1 h
  exact Literal.beq_iff.2 ⟨hp, map_beq_map (fun _ _ => Term.mapVars_beq f) ht, hn⟩

namespace Clause

variable {c d : Clause} {f g : String → String}

theorem mapVars_beq (f : String → String) (h : (c == d) = true) :
    (c.mapVars f == d.mapVars f) = true := by
  obtain ⟨hhead, hbody⟩ := beq_iff.1 h
  exact beq_iff.2 ⟨Literal.mapVars_beq f hhead, map_beq_map (fun _ _ => Literal.mapVars_beq f) hbody⟩

/-- Equal clauses have the same variables. -/
theorem vars_congr (h : (c == d) = true) : c.vars = d.vars := by
  have hnames : ∀ l m : Literal, (l == m) = true →
      l.terms.filterMap Term.name? = m.terms.filterMap Term.name? := by
    intro l m hlm
    have hmap := map_eq_map_of_beq (fun _ _ => Term.name?_congr) (Literal.beq_iff.1 hlm).2.1
    have hid : ∀ ts : List Term, (ts.map Term.name?).filterMap id = ts.filterMap Term.name? :=
      fun ts => List.filterMap_map
    rw [← hid, hmap, hid]
  have hlits : (c.head :: c.body == d.head :: d.body) = true := by
    rw [List.cons_beq_cons, Bool.and_eq_true]
    exact beq_iff.1 h
  unfold vars
  rw [List.flatMap_def, List.flatMap_def, map_eq_map_of_beq hnames hlits]

/-- Equal clauses have equal canonical forms. -/
theorem canonical_beq (h : (c == d) = true) : (c.canonical == d.canonical) = true := by
  unfold canonical
  rw [vars_congr h]
  exact mapVars_beq _ h

/-! ### Renamed clauses -/

theorem mapVars_congr (h : ∀ x ∈ c.vars, f x = g x) : c.mapVars f = c.mapVars g := by
  have hlit : ∀ l ∈ c.head :: c.body, l.mapVars f = l.mapVars g := fun l hl =>
    Literal.mapVars_congr fun x hx => h x (mem_vars.2 ⟨l, hl, hx⟩)
  unfold mapVars
  rw [hlit _ List.mem_cons_self, List.map_congr_left fun l hl => hlit l (List.mem_cons_of_mem _ hl)]

theorem mapVars_mapVars (c : Clause) (f g : String → String) :
    (c.mapVars g).mapVars f = c.mapVars (f ∘ g) := by
  unfold mapVars
  rw [Literal.mapVars_mapVars, List.map_map]
  congr 1
  exact List.map_congr_left fun l _ => l.mapVars_mapVars

/-- The variables of a renamed clause are the renamed variables, in the same order. -/
theorem vars_mapVars (hf : Set.InjOn f {x | x ∈ c.vars}) : (c.mapVars f).vars = c.vars.map f := by
  have hnames : ∀ l : Literal, (l.mapVars f).terms.filterMap Term.name? =
      (l.terms.filterMap Term.name?).map f := by
    intro l
    show (l.terms.map (Term.mapVars f)).filterMap Term.name? = _
    rw [List.filterMap_map, List.map_filterMap]
    congr 1
    funext t
    cases t <;> rfl
  have hall : ((c.mapVars f).head :: (c.mapVars f).body).flatMap (fun l => l.terms.filterMap Term.name?) =
      ((c.head :: c.body).flatMap fun l => l.terms.filterMap Term.name?).map f := by
    show ((c.head :: c.body).map (Literal.mapVars f)).flatMap _ = _
    rw [List.flatMap_map, List.map_flatMap]
    simp only [hnames]
  unfold vars at hf ⊢
  rw [hall]
  refine eraseDups_map fun x hx y hy => ?_
  rw [Bool.eq_iff_iff, beq_iff_eq, beq_iff_eq]
  exact hf.eq_iff (List.mem_eraseDups.2 hx) (List.mem_eraseDups.2 hy)

theorem idxOf_map_of_injOn {names : List String} (hf : Set.InjOn f {x | x ∈ names}) {x : String}
    (hx : x ∈ names) : (names.map f).idxOf (f x) = names.idxOf x := by
  induction names with
  | nil => cases hx
  | cons y names ih =>
    have hbeq : (f y == f x) = (y == x) := by
      rw [Bool.eq_iff_iff, beq_iff_eq, beq_iff_eq]
      exact hf.eq_iff List.mem_cons_self hx
    rw [List.map_cons, List.idxOf_cons, List.idxOf_cons, hbeq]
    cases hyx : y == x with
    | true => rfl
    | false =>
      have hx' : x ∈ names := by
        rcases List.mem_cons.1 hx with rfl | hx
        · simp at hyx
        · exact hx
      rw [ih (hf.mono fun z hz => List.mem_cons_of_mem _ hz) hx']

/-- **A renamed clause has the same canonical form.** -/
theorem canonical_mapVars (hf : Set.InjOn f {x | x ∈ c.vars}) :
    (c.mapVars f).canonical = c.canonical := by
  unfold canonical
  rw [vars_mapVars hf, mapVars_mapVars]
  refine mapVars_congr fun x hx => ?_
  rw [Function.comp_apply, idxOf_map_of_injOn hf hx]

/-- The clauses are equal up to a one-to-one renaming of the variables. -/
def Renames (c d : Clause) : Prop :=
  ∃ f : String → String, Set.InjOn f {x | x ∈ c.vars} ∧ (c.mapVars f == d) = true

/-- **Clauses that rename each other are found to be variants.** -/
theorem Renames.isVariant (h : c.Renames d) : c.isVariant d = true := by
  obtain ⟨f, hf, hd⟩ := h
  have hcanonical := canonical_beq hd
  rwa [canonical_mapVars hf] at hcanonical

/-! ### Renamings from canonical forms -/

theorem mapVars_id (c : Clause) : c.mapVars id = c := by
  have hterms : ∀ ts : List Term, ts.map (Term.mapVars id) = ts := by
    intro ts
    refine (List.map_congr_left fun t _ => ?_).trans (List.map_id ts)
    cases t <;> rfl
  have hlit : ∀ l : Literal, l.mapVars id = l := by
    intro l
    unfold Literal.mapVars
    rw [hterms]
  unfold mapVars
  rw [hlit, List.map_congr_left fun l _ => hlit l, List.map_id']

theorem canonicalName_injective : Function.Injective canonicalName := by
  intro m n h
  have hl := congrArg String.toList h
  simp only [canonicalName, String.toList_append] at hl
  have hm : (toString m).toList = Nat.toDigits 10 m := Nat.toList_repr
  have hn : (toString n).toList = Nat.toDigits 10 n := Nat.toList_repr
  rw [List.append_right_inj, hm, hn] at hl
  exact toDigits_inj hl

/-- The name of a variable in the canonical form of the clause. -/
def numberName (c : Clause) (x : String) : String := canonicalName (c.vars.idxOf x)

theorem canonical_eq_mapVars (c : Clause) : c.canonical = c.mapVars c.numberName := rfl

/-- Different variables of a clause have different numbers. -/
theorem injOn_numberName (c : Clause) : Set.InjOn c.numberName {x | x ∈ c.vars} :=
  fun _ hx _ _ h => (List.idxOf_inj hx).1 (canonicalName_injective h)

/-- The variable of the clause that has this name in the canonical form. -/
noncomputable def numbered (c : Clause) : String → String :=
  Function.invFunOn c.numberName {x | x ∈ c.vars}

theorem numbered_numberName {x : String} (hx : x ∈ c.vars) : c.numbered (c.numberName x) = x :=
  c.injOn_numberName.leftInvOn_invFunOn hx

/-- A clause is found again from its canonical form. -/
theorem mapVars_numbered_canonical (c : Clause) : c.canonical.mapVars c.numbered = c := by
  have hback : ∀ x ∈ c.vars, (c.numbered ∘ c.numberName) x = id x := fun x hx =>
    numbered_numberName hx
  rw [canonical_eq_mapVars, mapVars_mapVars, mapVars_congr hback, mapVars_id]

/-- **Equal canonical forms give a renaming**: a variable of the one clause becomes the variable of the
other that has its number. -/
theorem renames_of_isVariant (h : c.isVariant d = true) : c.Renames d := by
  refine ⟨d.numbered ∘ c.numberName, fun x hx y hy hxy => ?_, ?_⟩
  · -- the numbers of variables of the one clause are numbers of variables of the other
    have hnumbers : c.vars.map c.numberName = d.vars.map d.numberName := by
      rw [← vars_mapVars c.injOn_numberName, ← vars_mapVars d.injOn_numberName]
      exact vars_congr h
    have hnumber : ∀ z ∈ c.vars, ∃ z' ∈ d.vars, d.numberName z' = c.numberName z := fun z hz =>
      List.mem_map.1 (hnumbers ▸ List.mem_map_of_mem hz)
    obtain ⟨x', hx', hnx⟩ := hnumber x hx
    obtain ⟨y', hy', hny⟩ := hnumber y hy
    rw [Function.comp_apply, Function.comp_apply, ← hnx, ← hny, numbered_numberName hx',
      numbered_numberName hy'] at hxy
    refine c.injOn_numberName hx hy ?_
    rw [← hnx, ← hny, hxy]
  · have hmap := mapVars_beq d.numbered (c := c.canonical) (d := d.canonical) h
    rwa [mapVars_numbered_canonical, canonical_eq_mapVars, mapVars_mapVars] at hmap

/-- **Variants are the clauses that rename each other.** -/
theorem isVariant_iff_renames : c.isVariant d = true ↔ c.Renames d :=
  ⟨renames_of_isVariant, Renames.isVariant⟩

instance (c d : Clause) : Decidable (c.Renames d) := decidable_of_iff _ isVariant_iff_renames

end Clause
end PassageLogic
