import PassageLogic.Proofs.Logic.Unification

/-! # Names of clause variables

A variable of a clause carries the number of the use as a mark at the end of its name. A name is old
after `n` uses if its mark is of no later use; variables of queries without such marks are always
old. Names of different uses, and different names of one use, are different (`useName_inj`), so that
the variables of the next use are new to a state whose names are all old. -/

namespace PassageLogic

/-! ### Marks -/

theorem toList_useName (n : Nat) (name : String) :
    (Clause.useName n name).toList = name.toList ++ '#' :: Nat.toDigits 10 n := by
  simp [Clause.useName, Nat.toList_repr]

theorem hash_not_mem_toDigits (n : Nat) : '#' ∉ Nat.toDigits 10 n := fun h =>
  absurd (Nat.isDigit_of_mem_toDigits (by decide) (by decide) h) (by decide)

theorem toDigits_inj {m n : Nat} (h : Nat.toDigits 10 m = Nat.toDigits 10 n) : m = n := by
  rw [← Nat.ofDigitChars_ten_toDigits (n := m), h, Nat.ofDigitChars_ten_toDigits]

/-- The text before the last mark and the mark are determined by the whole. -/
theorem append_mark_inj {a b d e : List Char} (hd : '#' ∉ d) (he : '#' ∉ e)
    (h : a ++ '#' :: d = b ++ '#' :: e) : a = b ∧ d = e := by
  rcases List.append_eq_append_iff.1 h with ⟨c, hc, hd'⟩ | ⟨c, hc, he'⟩
  · cases c with
    | nil => simp at hd' hc; exact ⟨hc.symm, hd'⟩
    | cons x c =>
      rw [List.cons_append] at hd'
      cases hd'
      exact absurd (List.mem_append_right _ List.mem_cons_self) hd
  · cases c with
    | nil => simp at he' hc; exact ⟨hc, he'.symm⟩
    | cons x c =>
      rw [List.cons_append] at he'
      cases he'
      exact absurd (List.mem_append_right _ List.mem_cons_self) he

/-- **Marked names are equal only if the names and the uses are.** -/
theorem useName_inj {m n : Nat} {x y : String} :
    Clause.useName m x = Clause.useName n y ↔ m = n ∧ x = y := by
  constructor
  · intro h
    have hl := congrArg String.toList h
    rw [toList_useName, toList_useName] at hl
    obtain ⟨hxy, hmn⟩ := append_mark_inj (hash_not_mem_toDigits m) (hash_not_mem_toDigits n) hl
    exact ⟨toDigits_inj hmn, String.toList_inj.1 hxy⟩
  · rintro ⟨rfl, rfl⟩
    rfl

/-- The name is not marked with a use after the first `uses`. -/
def Old (uses : Nat) (name : String) : Prop := ∀ n > uses, ∀ x, name ≠ Clause.useName n x

theorem Old.mono {uses uses' : Nat} {name : String} (h : Old uses name) (hle : uses ≤ uses') :
    Old uses' name := fun n hn => h n (by omega)

theorem old_useName (n : Nat) (x : String) : Old n (Clause.useName n x) := by
  intro m hm y h
  have := (useName_inj.1 h).1
  omega

theorem Old.ne_useName {uses : Nat} {name x : String} (h : Old uses name) :
    name ≠ Clause.useName (uses + 1) x := h _ (by omega) x

theorem old_of_no_hash {name : String} (h : '#' ∉ name.toList) (uses : Nat) : Old uses name := by
  rintro n - x rfl
  refine h ?_
  rw [toList_useName]
  exact List.mem_append_right _ List.mem_cons_self

/-! ### The names of a state -/

/-- All names in the term have the property. -/
def Term.NamesIn (p : String → Prop) (t : Term) : Prop := ∀ name, t = .var name → p name

/-- All names in the literal have the property. -/
def Literal.NamesIn (p : String → Prop) (l : Literal) : Prop := ∀ t ∈ l.terms, t.NamesIn p

/-- All names that the substitution binds, or binds variables to, have the property. -/
def Substitution.NamesIn (p : String → Prop) (s : Substitution) : Prop :=
  ∀ name t, s.lookup name = some t → p name ∧ t.NamesIn p

section NamesIn
variable {p q : String → Prop} {s t : Substitution} {a b : Term}

theorem Term.NamesIn.mono (h : a.NamesIn p) (hpq : ∀ x, p x → q x) : a.NamesIn q :=
  fun name hn => hpq name (h name hn)

theorem Literal.NamesIn.mono {l : Literal} (h : l.NamesIn p) (hpq : ∀ x, p x → q x) :
    l.NamesIn q := fun t ht => (h t ht).mono hpq

theorem Literal.namesIn_of_vars {l : Literal} (h : ∀ name ∈ l.vars, p name) : l.NamesIn p := by
  rintro t ht name rfl
  exact h name (Literal.mem_vars.2 ht)

theorem Literal.namesIn_mapVars (f : String → String) (l : Literal) (h : ∀ x, p (f x)) :
    (l.mapVars f).NamesIn p := by
  rintro t ht name rfl
  obtain ⟨u, -, hu⟩ := List.mem_map.1 ht
  cases u with
  | var x => cases hu; exact h x
  | const v => cases hu

/-- The variables of the next use of a clause are old after it. -/
theorem Clause.namesIn_renamed (c : Clause) (n : Nat) :
    (c.renamed n).head.NamesIn (Old n) ∧ ∀ l ∈ (c.renamed n).body, l.NamesIn (Old n) := by
  refine ⟨Literal.namesIn_mapVars _ _ (old_useName n), fun l hl => ?_⟩
  obtain ⟨m, -, rfl⟩ := List.mem_map.1 hl
  exact Literal.namesIn_mapVars _ _ (old_useName n)

namespace Substitution

theorem NamesIn.mono (h : s.NamesIn p) (hpq : ∀ x, p x → q x) : s.NamesIn q :=
  fun name t hb => ⟨hpq name (h name t hb).1, (h name t hb).2.mono hpq⟩

theorem namesIn_nil : NamesIn p [] := fun _ _ h => by cases h

theorem Leads.namesIn (h : s.Leads a b) (hs : s.NamesIn p) (ha : a.NamesIn p) : b.NamesIn p := by
  induction h with
  | stop => exact ha
  | step hb _ ih => exact ih (hs _ _ hb).2

/-- A unifier brings in no names. -/
theorem NamesIn.unify (hs : s.Acyclic) (hn : s.NamesIn p) (ha : a.NamesIn p) (hb : b.NamesIn p)
    (h : s.unify a b = some t) : t.NamesIn p := by
  rcases unify_cases hs h with ⟨rfl, -⟩ | ⟨x, r, rfl, -, -, -, hw⟩
  · exact hn
  · have hwa := (walk_leads hs a).namesIn hn ha
    have hwb := (walk_leads hs b).namesIn hn hb
    intro name u hu
    rw [lookup_cons_entry] at hu
    split_ifs at hu with hx
    · cases hu
      subst hx
      rcases hw with ⟨h1, h2⟩ | ⟨h1, h2⟩
      · rw [h2] at hwb
        exact ⟨hwa name h1, hwb⟩
      · rw [h1] at hwa
        exact ⟨hwb name h2, hwa⟩
    · exact hn name u hu

theorem NamesIn.unifyAll {as bs : List Term} (hs : s.Acyclic) (hn : s.NamesIn p)
    (ha : ∀ a ∈ as, a.NamesIn p) (hb : ∀ b ∈ bs, b.NamesIn p)
    (h : s.unifyAll as bs = some t) : t.NamesIn p := by
  induction as generalizing s bs with
  | nil =>
    obtain ⟨-, rfl⟩ := unifyAll_nil_eq_some h
    exact hn
  | cons a as ih =>
    obtain ⟨b, bs, u, rfl, hu, h⟩ := unifyAll_cons_eq_some h
    rw [List.forall_mem_cons] at ha hb
    exact ih (acyclic_unify hs hu) (hn.unify hs ha.1 hb.1 hu) ha.2 hb.2 h

/-- Assignments that agree on the names of a substitution satisfy it together. -/
theorem SatisfiedBy.congr {E : Value → Value → Prop} {θ η : Assignment} (h : s.SatisfiedBy E θ)
    (hn : s.NamesIn p) (hag : ∀ name, p name → η name = θ name) : s.SatisfiedBy E η := by
  intro name t hb
  obtain ⟨h1, h2⟩ := hn name t hb
  have ht : t.valueIn η = t.valueIn θ := by
    cases t with
    | const v => rfl
    | var y => exact hag y (h2 y rfl)
  rw [hag name h1, ht]
  exact h name t hb

end Substitution
end NamesIn
end PassageLogic
