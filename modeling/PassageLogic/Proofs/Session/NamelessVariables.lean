import PassageLogic.Proofs.Session.Renumbering
import PassageLogic.Proofs.Session.UnderValues

/-! # Nameless variables under names of their own

A query with nameless variables has the answers of the query in which each of them has a new name of its
own, less what these answers give the new names (`askLine_named`).

* `Token.named`, `Line.named`: the nameless variables of a line are given names in order.
* `literals_named`: under a number and under its new name a nameless variable occurs in the same places;
  the names are paired by `GivenName`, and the searches for both queries end alike.
* `Follows.keep_answer`: what a solution gives the old names is what its partner gives them.
* `gather_keep`: records that only differ in the new names are answers to the one query, and one answer
  to the other. -/

namespace PassageLogic

/-! ### Names for the nameless -/

/-- The tokens with names for the nameless variables, if `n` of them came before, and how many there
are after. -/
def Token.named (ν : Nat → String) : List Token → Nat → List Token × Nat
  | [], n => ([], n)
  | t :: ts, n =>
    if t.isAnonymous then
      let (rest, m) := Token.named ν ts (n + 1)
      (.var (ν n) :: rest, m)
    else
      let (rest, m) := Token.named ν ts n
      (t :: rest, m)

/-- The statement with names for the nameless variables. -/
def Statement.named (ν : Nat → String) (st : Statement) (n : Nat) : Statement × Nat :=
  let (tokens, m) := Token.named ν st.tokens n
  ({ st with tokens }, m)

/-- The statements with names for the nameless variables, one after the other. -/
def Statement.allNamed (ν : Nat → String) : List Statement → Nat → List Statement × Nat
  | [], n => ([], n)
  | st :: sts, n =>
    let (st', m) := st.named ν n
    let (sts', k) := Statement.allNamed ν sts m
    (st' :: sts', k)

/-- The line with the name `ν i` for the `i`-th nameless variable. -/
def Line.named (ν : Nat → String) : Line → Line
  | .claim st => .claim (st.named ν 0).1
  | .rule head body => .rule (head.named ν 0).1 (Statement.allNamed ν body (head.named ν 0).2).1
  | .conjunction sts => .conjunction (Statement.allNamed ν sts 0).1

/-- The number of nameless variables of statements. -/
def Statement.nameless (sts : List Statement) : Nat :=
  (sts.flatMap Statement.tokens).countP Token.isAnonymous

/-- The names for the nameless variables of the statements differ from each other, and no statement has
any of them. They have neither opening parentheses nor marks. -/
structure NewNames (ν : Nat → String) (sts : List Statement) : Prop where
  plain : ∀ i < Statement.nameless sts, IsPlainName (ν i)
  new : ∀ i < Statement.nameless sts, ∀ st ∈ sts, .var (ν i) ∉ st.tokens
  distinct : ∀ i < Statement.nameless sts, ∀ j < Statement.nameless sts, ν i = ν j → i = j

/-- The answers without what they give the first `n` new names, each once. -/
def hidden (ν : Nat → String) (n : Nat) (L : List Record) : List Record :=
  (L.map fun r => r.keep fun x => !((List.range n).map ν).contains x).eraseDups

/-! ### Paired names -/

/-- A plain name that is none of the `n` new ones, or a nameless variable by its number and by its new
name. -/
def GivenName (ν : Nat → String) (n k : Nat) (z z' : String) : Prop :=
  (z = z' ∧ IsPlainName z ∧ ∀ i < n, ν i ≠ z) ∨ ∃ i < n, z = anonymousName (k + i) ∧ z' = ν i

variable {ν : Nat → String} {n k m : Nat} {sts : List Statement}

theorem GivenName.no_hash {z z' : String} (hν : ∀ i < n, IsPlainName (ν i))
    (h : GivenName ν n k z z') : '#' ∉ z.toList ∧ '#' ∉ z'.toList := by
  rcases h with ⟨rfl, h, -⟩ | ⟨i, hi, rfl, rfl⟩
  · exact ⟨h.2, h.2⟩
  · exact ⟨hash_not_mem_anonymousName _, (hν i hi).2⟩

theorem GivenName.pairing (hν : ∀ i < n, ∀ j < n, ν i = ν j → i = j) (k : Nat) :
    Pairing (GivenName ν n k) where
  right := by
    rintro x x' y' (⟨rfl, hx, -⟩ | ⟨i, -, rfl, rfl⟩) (⟨rfl, hy, -⟩ | ⟨j, -, hj, rfl⟩)
    · rfl
    · exact absurd hj (hx.ne_anonymousName _)
    · exact absurd rfl (hy.ne_anonymousName _)
    · rw [Nat.add_left_cancel (anonymousName_inj hj)]
  left := by
    rintro x y x' (⟨rfl, -, hx⟩ | ⟨i, hi, rfl, rfl⟩) (⟨rfl, -, hy⟩ | ⟨j, hj, rfl, hij⟩)
    · rfl
    · exact absurd hij.symm (hx j hj)
    · exact absurd rfl (hy i hi)
    · rw [hν i hi j hj hij]

namespace NewNames

theorem nonempty (h : NewNames ν sts) : ∀ i < Statement.nameless sts, ν i ≠ "" := by
  intro i hi he
  obtain ⟨t, ht, hanon⟩ := List.countP_pos_iff.1 (Nat.zero_lt_of_lt hi)
  obtain ⟨st, hst, ht⟩ := List.mem_flatMap.1 ht
  have hvar : t = .var "" := by simpa [Token.isAnonymous] using hanon
  exact h.new i hi st hst (by rw [he, ← hvar]; exact ht)

/-- The names of the statements are paired with themselves. -/
theorem givenName (h : NewNames ν sts) (hsts : ∀ st ∈ sts, st.IsPlain) {x : String}
    (hx : x ∈ Act.visibleNames sts) (k : Nat) : GivenName ν (Statement.nameless sts) k x x := by
  obtain ⟨st, hst, hx⟩ := mem_visibleNames.1 hx
  have hmem := (Statement.mem_vars.1 hx).1
  exact .inl ⟨rfl, hsts st hst x hmem, fun i hi he => h.new i hi st hst (he ▸ hmem)⟩

end NewNames

/-! ### Literals -/

section Tokens

variable {t : Token} {ts : List Token} {x : String}

theorem terms_anonymous (ts : List Token) (k : Nat) : Token.terms (.var "" :: ts) k =
    (.var (anonymousName k) :: (Token.terms ts (k + 1)).1, (Token.terms ts (k + 1)).2) := by
  simp [Token.terms]

theorem terms_var (hx : x ≠ "") (ts : List Token) (k : Nat) : Token.terms (.var x :: ts) k =
    (.var x :: (Token.terms ts k).1, (Token.terms ts k).2) := by
  simp [Token.terms, hx]

theorem named_anonymous (ts : List Token) (j : Nat) : Token.named ν (.var "" :: ts) j =
    (.var (ν j) :: (Token.named ν ts (j + 1)).1, (Token.named ν ts (j + 1)).2) := rfl

theorem named_of_not_anonymous (ht : t.isAnonymous = false) (ts : List Token) (j : Nat) :
    Token.named ν (t :: ts) j = (t :: (Token.named ν ts j).1, (Token.named ν ts j).2) := by
  simp [Token.named, ht]

theorem isAnonymous_var (hx : x ≠ "") : (Token.var x).isAnonymous = false := by
  simpa [Token.isAnonymous] using hx

/-- **The terms of tokens and of the named tokens differ in paired names only.** -/
theorem terms_named {j : Nat} (hν : ∀ i < n, ν i ≠ "")
    (hts : ∀ x, .var x ∈ ts → x ≠ "" → IsPlainName x ∧ ∀ i < n, ν i ≠ x)
    (hj : j + ts.countP Token.isAnonymous ≤ n) :
    (Token.terms ts (k + j)).2 = k + (j + ts.countP Token.isAnonymous) ∧
      (Token.named ν ts j).2 = j + ts.countP Token.isAnonymous ∧
      (Token.terms (Token.named ν ts j).1 m).2 = m ∧
      List.Forall₂ (Term.Paired Eq (GivenName ν n k)) (Token.terms ts (k + j)).1
        (Token.terms (Token.named ν ts j).1 m).1 := by
  induction ts generalizing j with
  | nil => exact ⟨rfl, rfl, rfl, .nil⟩
  | cons t ts ih =>
    have hrest : ∀ x, .var x ∈ ts → x ≠ "" → IsPlainName x ∧ ∀ i < n, ν i ≠ x :=
      fun x hx => hts x (List.mem_cons_of_mem _ hx)
    cases t with
    | const value =>
      obtain ⟨hk, hj', hm, hp⟩ := ih hrest hj
      exact ⟨hk, hj', hm, .cons (.const rfl) hp⟩
    | var x =>
      by_cases hx : x = ""
      · subst hx
        rw [List.countP_cons_of_pos rfl] at hj ⊢
        obtain ⟨hk, hj', hm, hp⟩ := ih (j := j + 1) hrest (by omega)
        rw [terms_anonymous, named_anonymous, terms_var (hν j (by omega))]
        refine ⟨?_, ?_, hm, .cons (.var (.inr ⟨j, by omega, rfl, rfl⟩)) hp⟩
        · simp only [Nat.add_assoc k j 1, hk]
          omega
        · simp only [hj']
          omega
      · have hanon := isAnonymous_var hx
        rw [List.countP_cons_of_neg (by simp [hanon])] at hj ⊢
        obtain ⟨hk, hj', hm, hp⟩ := ih hrest hj
        rw [terms_var hx, named_of_not_anonymous hanon, terms_var hx]
        exact ⟨hk, hj', hm, .cons (.var (.inl ⟨rfl, hts x List.mem_cons_self hx⟩)) hp⟩

/-- The names of named tokens are names of the tokens or new ones. -/
theorem of_mem_named {j : Nat} (h : .var x ∈ (Token.named ν ts j).1) :
    (.var x ∈ ts ∧ x ≠ "") ∨ ∃ i < j + ts.countP Token.isAnonymous, x = ν i := by
  induction ts generalizing j with
  | nil => cases h
  | cons t ts ih =>
    cases ht : t.isAnonymous with
    | true =>
      obtain rfl : t = .var "" := by simpa [Token.isAnonymous] using ht
      rw [named_anonymous] at h
      rw [List.countP_cons_of_pos ht]
      rcases List.mem_cons.1 h with h | h
      · cases h
        exact .inr ⟨j, by omega, rfl⟩
      · rcases ih h with ⟨hx, hne⟩ | ⟨i, hi, hx⟩
        · exact .inl ⟨List.mem_cons_of_mem _ hx, hne⟩
        · exact .inr ⟨i, by omega, hx⟩
    | false =>
      rw [named_of_not_anonymous ht] at h
      rw [List.countP_cons_of_neg (by simp [ht])]
      rcases List.mem_cons.1 h with rfl | h
      · exact .inl ⟨List.mem_cons_self, by simpa [Token.isAnonymous] using ht⟩
      · exact (ih h).imp_left fun ⟨hx, hne⟩ => ⟨List.mem_cons_of_mem _ hx, hne⟩

theorem mem_named {j : Nat} (h : .var x ∈ ts) (hx : x ≠ "") : .var x ∈ (Token.named ν ts j).1 := by
  induction ts generalizing j with
  | nil => cases h
  | cons t ts ih =>
    cases ht : t.isAnonymous with
    | true =>
      obtain rfl : t = .var "" := by simpa [Token.isAnonymous] using ht
      rw [named_anonymous]
      refine List.mem_cons_of_mem _ (ih ?_)
      exact (List.mem_cons.1 h).resolve_left fun he => hx (Token.var.inj he)
    | false =>
      rw [named_of_not_anonymous ht]
      rcases List.mem_cons.1 h with rfl | h
      · exact List.mem_cons_self
      · exact List.mem_cons_of_mem _ (ih h)

theorem named_append (ts us : List Token) (j : Nat) : Token.named ν (ts ++ us) j =
    ((Token.named ν ts j).1 ++ (Token.named ν us (Token.named ν ts j).2).1,
      (Token.named ν us (Token.named ν ts j).2).2) := by
  induction ts generalizing j with
  | nil => rfl
  | cons t ts ih =>
    rw [List.cons_append]
    cases ht : t.isAnonymous with
    | true =>
      obtain rfl : t = .var "" := by simpa [Token.isAnonymous] using ht
      simp only [named_anonymous, ih, List.cons_append]
    | false => simp only [named_of_not_anonymous ht, ih, List.cons_append]

end Tokens

section Statements

variable {us : List Statement} {x : String} {j : Nat}

theorem nameless_cons (st : Statement) (sts : List Statement) : Statement.nameless (st :: sts) =
    st.tokens.countP Token.isAnonymous + Statement.nameless sts := by
  unfold Statement.nameless
  rw [List.flatMap_cons, List.countP_append]

/-- **Statements and the named statements have the same literals up to paired names.** -/
theorem literals_named (hν : ∀ i < n, ν i ≠ "")
    (hus : ∀ st ∈ us, ∀ x, .var x ∈ st.tokens → x ≠ "" → IsPlainName x ∧ ∀ i < n, ν i ≠ x)
    (hj : j + Statement.nameless us ≤ n) :
    List.Forall₂ (Literal.Paired (GivenName ν n k)) (Statement.literals us (k + j)).1
        (Statement.literals (Statement.allNamed ν us j).1 m).1 := by
  induction us generalizing j with
  | nil => exact .nil
  | cons st us ih =>
    rw [nameless_cons] at hj
    obtain ⟨hk, hj', hm, hp⟩ := terms_named (k := k) (m := m) (j := j) hν
      (hus st List.mem_cons_self) (by omega)
    have hrest := ih (j := j + st.tokens.countP Token.isAnonymous)
      (fun u hu => hus u (List.mem_cons_of_mem _ hu)) (by omega)
    have hlit : (st.literal (k + j)).2 = k + (j + st.tokens.countP Token.isAnonymous) := hk
    have hlit' : ((st.named ν j).1.literal m).2 = m := hm
    have hnum : (st.named ν j).2 = j + st.tokens.countP Token.isAnonymous := hj'
    unfold Statement.allNamed Statement.literals
    simp only [hlit, hlit', hnum]
    exact .cons ⟨rfl, rfl, hp⟩ hrest

theorem tokens_allNamed (us : List Statement) (j : Nat) :
    (Statement.allNamed ν us j).1.flatMap Statement.tokens =
      (Token.named ν (us.flatMap Statement.tokens) j).1 := by
  induction us generalizing j with
  | nil => rfl
  | cons st us ih =>
    rw [List.flatMap_cons, named_append, ← ih]
    rfl

theorem mem_visibleNames_iff : x ∈ Act.visibleNames us ↔
    .var x ∈ us.flatMap Statement.tokens ∧ x ≠ "" := by
  simp only [mem_visibleNames, Statement.mem_vars, List.mem_flatMap]
  constructor
  · rintro ⟨st, hst, hx, hne⟩
    exact ⟨⟨st, hst, hx⟩, hne⟩
  · rintro ⟨⟨st, hst, hx⟩, hne⟩
    exact ⟨st, hst, hx, hne⟩

/-- The names of named statements are those of the statements and the new ones. -/
theorem of_mem_visibleNames_named (h : x ∈ Act.visibleNames (Statement.allNamed ν us 0).1) :
    x ∈ Act.visibleNames us ∨ ∃ i < Statement.nameless us, x = ν i := by
  rw [mem_visibleNames_iff, tokens_allNamed] at h
  rcases of_mem_named h.1 with hx | ⟨i, hi, hx⟩
  · exact .inl (mem_visibleNames_iff.2 hx)
  · exact .inr ⟨i, by rwa [Nat.zero_add] at hi, hx⟩

theorem mem_visibleNames_named (h : x ∈ Act.visibleNames us) :
    x ∈ Act.visibleNames (Statement.allNamed ν us 0).1 := by
  rw [mem_visibleNames_iff] at h ⊢
  rw [tokens_allNamed]
  exact ⟨mem_named h.1 h.2, h.2⟩

theorem predicate_of_mem_allNamed {st : Statement} (h : st ∈ (Statement.allNamed ν us j).1) :
    ∃ u ∈ us, st.predicate = u.predicate := by
  induction us generalizing j with
  | nil => cases h
  | cons u us ih =>
    rcases List.mem_cons.1 h with rfl | h
    · exact ⟨u, List.mem_cons_self, rfl⟩
    · obtain ⟨v, hv, he⟩ := ih h
      exact ⟨v, List.mem_cons_of_mem _ hv, he⟩

end Statements

/-! ### Answers -/

section Answers

variable {visible visible' : List String} {p : String → Bool} {items items' : List Item}

/-- Records that are the same once they are cut down further are one answer then. -/
theorem gather_keep (h : items.map (Except.map fun r => r.keep visible.contains) =
      items'.map (Except.map fun r => (r.keep visible'.contains).keep p)) :
    gather visible none [] items = (gather visible' none [] items').map fun L =>
      (L.map fun r => r.keep p).eraseDups := by
  have hfault := congrArg firstFault? h
  have hrecords := congrArg recordsOf h
  rw [firstFault?_map, firstFault?_map] at hfault
  rw [recordsOf_map, recordsOf_map] at hrecords
  rw [gather_all, gather_all, hfault, hrecords]
  cases firstFault? items' with
  | some fault => rfl
  | none =>
    refine congrArg Except.ok ?_
    have hp : ∀ a b : Record, a == b → a.keep p == b.keep p := fun a b hab =>
      Record.same_iff.2 ((Record.same_iff.1 hab).keep p)
    have hkeep := eraseDups_map_eraseDups hp ((recordsOf items').map fun r => r.keep visible'.contains)
    rw [List.map_map] at hkeep
    exact hkeep.symm

/-- **What a solution gives the names that are kept is what its partner gives them.** -/
theorem Follows.keep_answer {V : String → String → Prop} {s s' t t' : Substitution}
    (hf : Follows Eq V s s' t t') (hnd : visible.Nodup) (hnd' : visible'.Nodup)
    (hkept : ∀ x, x ∈ visible ↔ x ∈ visible' ∧ p x = true)
    (hx : ∀ x ∈ visible, Alike Eq V s s' (.var x) (.var x)) :
    (t'.answer visible').keep p = t.answer visible := by
  obtain ⟨W, -, -, ha⟩ := hf
  refine Record.ext_get? fun x => ?_
  rw [Record.get?_keep, Substitution.get?_answer hnd', Substitution.get?_answer hnd]
  by_cases hxv : x ∈ visible
  · obtain ⟨hxv', hp⟩ := (hkept x).1 hxv
    rw [if_pos hp, if_pos hxv', if_pos hxv]
    exact (Term.Paired.value?_eq (ha _ _ (hx x hxv))).symm
  · rw [if_neg hxv]
    by_cases hp : p x = true
    · rw [if_pos hp, if_neg fun hx' => hxv ((hkept x).2 ⟨hx', hp⟩)]
    · rw [if_neg hp]

/-- Corresponding searches of one store end alike. -/
theorem Store.solve_alike (store : Store) {V : String → String → Prop} {uses uses' : Nat}
    {s s' : Substitution} (h : Corresponds V uses uses' s s') {goals goals' : List Literal}
    (hg : List.Forall₂ (Literal.Alike Eq V s s') goals goals') (room want : Nat) :
    Search.EndsAlike Eq V s s' (Search.solve store.clauses store.limits.depth room goals s want uses)
      (Search.solve store.clauses store.limits.depth room goals' s' want uses') :=
  Search.solve_alike indistinct_eq h hg room want

/-- **Queries whose searches end alike have the same answers but for the names that are not kept.** -/
theorem gather_of_endsAlike {store store' : Store} {q q' : Literal} {V : String → String → Prop}
    {s s' : Substitution} {o o' : Outcome} (hl : store'.limits = store.limits)
    (hends : Search.EndsAlike Eq V s s' o o')
    (ho : (store.search q).found = o.found ∧ (store.search q).fault = o.fault)
    (ho' : (store'.search q').found = o'.found ∧ (store'.search q').fault = o'.fault)
    (hq : ∀ x ∈ visible, x ∈ q.vars) (hq' : ∀ x ∈ visible', x ∈ q'.vars) (hnd : visible.Nodup)
    (hnd' : visible'.Nodup) (hkept : ∀ x, x ∈ visible ↔ x ∈ visible' ∧ p x = true)
    (hx : ∀ x ∈ visible, Alike Eq V s s' (.var x) (.var x)) :
    gather visible none [] (store.answers q) = (gather visible' none [] (store'.answers q')).map
      fun L => (L.map fun r => r.keep p).eraseDups := by
  refine gather_keep (Store.answers_map_congr hl ?_ ?_).symm
  · rw [ho.2, ho'.2, hends.fault]
  · rw [ho.1, ho'.1, eq_comm, ← List.forall₂_eq_eq_eq, List.forall₂_map_left_iff,
      List.forall₂_map_right_iff]
    refine hends.found.imp fun {t} {t'} hf => ?_
    rw [Substitution.keep_project hnd hq, Substitution.keep_project hnd' hq']
    exact (hf.keep_answer hnd hnd' hkept hx).symm

end Answers

/-! ### Queries -/

namespace NewNames

variable (h : NewNames ν sts) (hsts : ∀ st ∈ sts, st.IsPlain)
include h

/-- The names that are not new are those of the statements. -/
theorem mem_kept (x : String) : x ∈ Act.visibleNames sts ↔
    x ∈ Act.visibleNames (Statement.allNamed ν sts 0).1 ∧
      (!((List.range (Statement.nameless sts)).map ν).contains x) = true := by
  have hnew : (!((List.range (Statement.nameless sts)).map ν).contains x) = true ↔
      ∀ i < Statement.nameless sts, ν i ≠ x := by
    simp
  rw [hnew]
  constructor
  · intro hx
    refine ⟨mem_visibleNames_named hx, fun i hi he => ?_⟩
    obtain ⟨st, hst, hx⟩ := mem_visibleNames.1 hx
    exact h.new i hi st hst (he ▸ (Statement.mem_vars.1 hx).1)
  · rintro ⟨hx, hno⟩
    refine (of_mem_visibleNames_named hx).resolve_right ?_
    rintro ⟨i, hi, rfl⟩
    exact hno i hi rfl

theorem corresponds (k : Nat) :
    Corresponds (GivenName ν (Statement.nameless sts) k) 0 0 [] [] where
  acyclic := Substitution.acyclic_nil
  acyclic' := Substitution.acyclic_nil
  names := Substitution.namesIn_nil
  names' := Substitution.namesIn_nil
  pairing := GivenName.pairing h.distinct k
  old hx := ⟨old_of_no_hash (hx.no_hash h.plain).1 0, old_of_no_hash (hx.no_hash h.plain).2 0⟩

include hsts

theorem literals_paired (k m : Nat) :
    List.Forall₂ (Literal.Paired (GivenName ν (Statement.nameless sts) k))
      (Statement.literals sts k).1 (Statement.literals (Statement.allNamed ν sts 0).1 m).1 :=
  literals_named (j := 0) h.nonempty
    (fun st hst x hx _ => ⟨hsts st hst x hx, fun i hi he => h.new i hi st hst (he ▸ hx)⟩) (by omega)

/-- **The answers to a claim are those under new names, without the new names.** -/
theorem gather_claim {st : Statement} (he : sts = [st]) (store : Store) (k m : Nat) :
    gather st.vars none [] (store.answers (st.literal k).1) =
      (gather (st.named ν 0).1.vars none []
        (store.answers ((st.named ν 0).1.literal m).1)).map (hidden ν (Statement.nameless sts)) := by
  have hvars : ∀ (u : Statement) (x : String), x ∈ Act.visibleNames [u] ↔ x ∈ u.vars := fun u x => by
    rw [mem_visibleNames]
    simp
  have hpaired := h.literals_paired hsts k m
  have hkept := h.mem_kept
  subst he
  obtain ⟨hlit, -⟩ := List.forall₂_cons.1 hpaired
  have hends := store.solve_alike (h.corresponds k)
    (.cons ⟨hlit.predicate, hlit.negated, hlit.terms⟩ .nil) (store.limits.depth + 1)
    (Limits.above store.limits.answers)
  refine gather_of_endsAlike rfl hends ⟨rfl, rfl⟩ ⟨rfl, rfl⟩
    (fun x hx => Statement.mem_vars_literal hx k) (fun x hx => Statement.mem_vars_literal hx m)
    (nodup_eraseDups _) (nodup_eraseDups _) (fun x => ?_) fun x hx => ?_
  · rw [← hvars, ← hvars]
    exact hkept x
  · exact .var (h.givenName hsts ((hvars st x).2 hx) k)

/-- **The answers to a conjunction are those under new names, without the new names.** -/
theorem gather_conjunction (hpred : ∀ st ∈ sts, '_' ∉ st.predicate.toList) (store : Store)
    {n n' : Nat} (k m : Nat)
    (hn : Unmentioned (Act.transientHead n (Act.visibleNames sts)).predicate store.clauses)
    (hn' : Unmentioned (Act.transientHead n'
      (Act.visibleNames (Statement.allNamed ν sts 0).1)).predicate store.clauses) :
    gather (Act.visibleNames sts) none []
        ((store.withClause (conjunctionRule sts n k)).answers (conjunctionRule sts n k).head) =
      (gather (Act.visibleNames (Statement.allNamed ν sts 0).1) none []
        ((store.withClause (conjunctionRule (Statement.allNamed ν sts 0).1 n' m)).answers
          (conjunctionRule (Statement.allNamed ν sts 0).1 n' m).head)).map
        (hidden ν (Statement.nameless sts)) := by
  have hnames : ∀ x ∈ Act.visibleNames sts, '#' ∉ x.toList := by
    intro x hx
    obtain ⟨st, hst, hx⟩ := mem_visibleNames.1 hx
    exact (hsts st hst x (Statement.mem_vars.1 hx).1).2
  have hnames' : ∀ x ∈ Act.visibleNames (Statement.allNamed ν sts 0).1, '#' ∉ x.toList := by
    intro x hx
    rcases of_mem_visibleNames_named hx with hx | ⟨i, hi, rfl⟩
    · exact hnames x hx
    · exact (h.plain i hi).2
  have hpred' : ∀ st ∈ (Statement.allNamed ν sts 0).1, '_' ∉ st.predicate.toList := by
    intro st hst
    obtain ⟨u, hu, he⟩ := predicate_of_mem_allNamed hst
    rw [he]
    exact hpred u hu
  obtain ⟨s, hs, ho⟩ := store.search_conjunctionRule n k
    (fun st hst => ne_transientHead (hpred st hst) _ _) hnames hn
  obtain ⟨s', hs', ho'⟩ := store.search_conjunctionRule n' m
    (fun st hst => ne_transientHead (hpred' st hst) _ _) hnames' hn'
  have hends := store.solve_alike (hs.corresponds hs' (GivenName.pairing h.distinct k))
    (hs.alike_goals hs' (h.literals_paired hsts k m)) store.limits.depth
    (Limits.above store.limits.answers)
  refine gather_of_endsAlike rfl hends ho ho' (fun x hx => mem_vars_conjunctionRule _ _ hx)
    (fun x hx => mem_vars_conjunctionRule _ _ hx) (nodup_visibleNames _) (nodup_visibleNames _)
    h.mem_kept fun x hx => ?_
  have hx' := ((h.mem_kept x).1 hx).1
  unfold Alike
  rw [hs.walk_name hx, hs'.walk_name hx']
  exact .var ⟨x, x, h.givenName hsts hx k, rfl, rfl⟩

end NewNames

/-! ### Asking -/

theorem toOption_mapError {ε δ α : Type} (f : ε → δ) (r : Except ε α) :
    (r.mapError f).toOption = r.toOption := by
  cases r <;> rfl

theorem toOption_map {ε α β : Type} (f : α → β) (r : Except ε α) :
    (r.map f).toOption = r.toOption.map f := by
  cases r <;> rfl

/-- The next transient rule, if the line is asked through one, is of a predicate that is new. -/
def Session.FreshFor (S : Session Store) : Line → Prop
  | .conjunction sts =>
    Unmentioned (Act.transientHead S.transient (Act.visibleNames sts)).predicate S.engine.clauses
  | _ => True

instance (S : Session Store) : (l : Line) → Decidable (S.FreshFor l)
  | .conjunction _ => inferInstanceAs (Decidable (Unmentioned _ _))
  | .claim _ => isTrue trivial
  | .rule _ _ => isTrue trivial

/-- The answers to a conjunction are gathered from the stream of its rule. -/
theorem Session.FreshFor.toOption_askLine {S : Session Store} (h : S.FreshFor (.conjunction sts)) :
    ((Act.askLine Store.engine (.conjunction sts) none).runIn S).1.toOption =
      (gather (Act.visibleNames sts) none []
        ((S.engine.withClause (conjunctionRule sts S.transient S.anonymous)).answers
          (conjunctionRule sts S.transient S.anonymous).head)).toOption := by
  rw [Act.askLine, Act.runIn_askAll, toOption_mapError]
  have hassert := Store.assert_unmentioned (c := conjunctionRule sts S.transient S.anonymous) rfl h
  rw [hassert]

/-- **Nameless variables behave like variables with names of their own that are hidden then.** A line that
can be read is asked over a store, and asked over the same store with a new name for each nameless
variable. The one fails if and only if the other does; otherwise the answers to the one are the answers
to the other without the new names, each once. -/
theorem Act.askLine_named {l : Line} {S S' : Session Store} (hread : ∃ text, Line.read text = .ok l)
    (hmarks : ∀ st ∈ l.statements, ∀ x ∈ st.vars, '#' ∉ x.toList)
    (hν : NewNames ν l.statements) (he : S'.engine = S.engine) (hS : S.FreshFor l)
    (hS' : S'.FreshFor (l.named ν)) :
    ((askLine Store.engine l none).runIn S).1.toOption =
      ((askLine Store.engine (l.named ν) none).runIn S').1.toOption.map
        (hidden ν (Statement.nameless l.statements)) := by
  obtain ⟨text, hread⟩ := hread
  have hask : ∀ st ∈ l.statements, st.Askable := fun st hst =>
    ⟨⟨text, l, hread, hst⟩, hmarks st hst⟩
  have hplain : ∀ st ∈ l.statements, st.IsPlain := fun st hst => (hask st hst).isPlain
  cases l with
  | claim st =>
    have hgather := NewNames.gather_claim hν hplain rfl S.engine S.anonymous S'.anonymous
    rw [Line.named, runIn_askLine_claim, runIn_askLine_claim, toOption_mapError, toOption_mapError, he,
      hgather, toOption_map]
  | conjunction sts =>
    have hpred : ∀ st ∈ sts, '_' ∉ st.predicate.toList := fun st hst =>
      (hask st hst).fromText.grammatical.no_underscore
    have hn' := hS'
    rw [Line.named, Session.FreshFor, he] at hn'
    have hν : NewNames ν sts := hν
    have hgather := hν.gather_conjunction hplain hpred S.engine S.anonymous
      S'.anonymous hS hn'
    rw [hS.toOption_askLine, Line.named, Session.FreshFor.toOption_askLine hS', he, hgather,
      toOption_map]
    rfl
  | rule head body => rfl

/-- Who likes and who hates what. -/
def tasteStore : Store where
  limits := {}
  clauses :=
    [.fact (.of "likes % %" [.const (.text "sam"), .const (.text "pizza")]),
      .fact (.of "likes % %" [.const (.text "sam"), .const (.text "pasta")]),
      .fact (.of "likes % %" [.const (.text "ana"), .const (.text "pie")]),
      .fact (.of "hates % %" [.const (.text "ana"), .const (.text "soup")])]

/-- Who likes something and hates nothing: `likes (who) (), !hates (who) ()`. -/
def contented : Line := .conjunction
  [⟨["likes", "%", "%"], [.var "who", .var ""], false⟩,
    ⟨["hates", "%", "%"], [.var "who", .var ""], true⟩]

/-- Names for the two nameless variables. -/
def tasteName (i : Nat) : String := if i = 0 then "liked" else "hated"

theorem Act.askLine_named_contented :
    let S : Session Store := ⟨tasteStore, 7, 0⟩
    let S' : Session Store := ⟨tasteStore, 0, 1⟩
    ((∃ text, Line.read text = .ok contented) ∧
      (∀ st ∈ contented.statements, ∀ x ∈ st.vars, '#' ∉ x.toList) ∧
      NewNames tasteName contented.statements ∧ S'.engine = S.engine ∧ S.FreshFor contented ∧
      S'.FreshFor (contented.named tasteName)) ∧
    ((askLine Store.engine (contented.named tasteName) none).runIn S').1.toOption =
        some [.ofList [("liked", .text "pizza"), ("who", .text "sam")],
          .ofList [("liked", .text "pasta"), ("who", .text "sam")]] ∧
    ((askLine Store.engine contented none).runIn S).1.toOption =
        some [.ofList [("who", .text "sam")]] := by
  have hread : Line.read "likes (who) (), !hates (who) ()" = .ok contented := by decide +kernel
  have hmarks : ∀ st ∈ contented.statements, ∀ x ∈ st.vars, '#' ∉ x.toList := by decide
  have hν : NewNames tasteName contented.statements :=
    ⟨by unfold IsPlainName; decide, by decide, by decide⟩
  have hS : Session.FreshFor ⟨tasteStore, 7, 0⟩ contented := by decide +kernel
  have hS' : Session.FreshFor ⟨tasteStore, 0, 1⟩ (contented.named tasteName) := by decide +kernel
  have hanswers : ((askLine Store.engine (contented.named tasteName) none).runIn
      (⟨tasteStore, 0, 1⟩ : Session Store)).1.toOption =
        some [.ofList [("liked", .text "pizza"), ("who", .text "sam")],
          .ofList [("liked", .text "pasta"), ("who", .text "sam")]] := by rfl
  refine ⟨⟨⟨_, hread⟩, hmarks, hν, rfl, hS, hS'⟩, hanswers, ?_⟩
  have hsame := Act.askLine_named ⟨_, hread⟩ hmarks hν (by rfl) hS hS'
  rw [hsame, hanswers]
  rfl

end PassageLogic
