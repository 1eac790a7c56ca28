import PassageLogic.Session.Clauses
import PassageLogic.Session.Ask
import PassageLogic.Proofs.Logic.Correspondence

/-! # Literals of statements under different numberings

The nameless variables of statements are numbered from wherever the session stands. Two numberings of
the same statements differ in the names of these variables only: `NamePair` pairs the names, and
`literals_paired` the literals. A name in a literal is that of a named variable, or it is numbered
below the count after the statements (`name_of_mem_literals`). -/

namespace PassageLogic

/-! ### Names -/

theorem anonymousName_inj {m n : Nat} (h : anonymousName m = anonymousName n) : m = n := by
  have hl := congrArg String.toList h
  simp only [anonymousName, String.toList_append] at hl
  have hd := List.append_cancel_left (List.append_cancel_right hl)
  have hm : (toString m).toList = Nat.toDigits 10 m := Nat.toList_repr
  have hn : (toString n).toList = Nat.toDigits 10 n := Nat.toList_repr
  rw [hm, hn] at hd
  exact toDigits_inj hd

theorem opening_mem_anonymousName (n : Nat) : '(' ∈ (anonymousName n).toList := by
  simp [anonymousName]

theorem hash_not_mem_anonymousName (n : Nat) : '#' ∉ (anonymousName n).toList := by
  have hn : (toString n).toList = Nat.toDigits 10 n := Nat.toList_repr
  have hd := hash_not_mem_toDigits n
  simp only [anonymousName, String.toList_append, hn, List.mem_append, not_or]
  exact ⟨⟨by decide, hd⟩, by decide⟩

/-- A name that neither a nameless variable nor a clause use can have. -/
def IsPlainName (name : String) : Prop := '(' ∉ name.toList ∧ '#' ∉ name.toList

/-- The same named variable, or the nameless variables that are as far from `k` and `k'`. -/
def NamePair (k k' : Nat) (z z' : String) : Prop :=
  (z = z' ∧ IsPlainName z) ∨ ∃ j, z = anonymousName (k + j) ∧ z' = anonymousName (k' + j)

theorem IsPlainName.ne_anonymousName {name : String} (h : IsPlainName name) (n : Nat) :
    name ≠ anonymousName n := by
  rintro rfl
  exact h.1 (opening_mem_anonymousName n)

namespace NamePair

variable {k k' : Nat} {z z' : String}

theorem pairing (k k' : Nat) : Pairing (NamePair k k') where
  right := by
    rintro x x' y' (⟨rfl, hx⟩ | ⟨i, rfl, rfl⟩) (⟨rfl, hy⟩ | ⟨j, hj, rfl⟩)
    · rfl
    · exact absurd hj (hx.ne_anonymousName _)
    · exact absurd rfl (hy.ne_anonymousName _)
    · have := anonymousName_inj hj
      obtain rfl : i = j := by omega
      rfl
  left := by
    rintro x y x' (⟨rfl, hx⟩ | ⟨i, rfl, rfl⟩) (⟨rfl, hy⟩ | ⟨j, rfl, hj⟩)
    · rfl
    · exact absurd hj (hx.ne_anonymousName _)
    · exact absurd rfl (hy.ne_anonymousName _)
    · have := anonymousName_inj hj
      obtain rfl : i = j := by omega
      rfl

theorem no_hash (h : NamePair k k' z z') : '#' ∉ z.toList ∧ '#' ∉ z'.toList := by
  rcases h with ⟨rfl, h⟩ | ⟨j, rfl, rfl⟩
  · exact ⟨h.2, h.2⟩
  · exact ⟨hash_not_mem_anonymousName _, hash_not_mem_anonymousName _⟩

end NamePair

/-! ### Literals -/

/-- The variables of the statement have plain names. -/
def Statement.IsPlain (st : Statement) : Prop := ∀ name, .var name ∈ st.tokens → IsPlainName name

/-- The literals differ in their terms only, and these in names that are paired. -/
structure Literal.Paired (V : String → String → Prop) (l l' : Literal) : Prop where
  predicate : l'.predicate = l.predicate
  negated : l'.negated = l.negated
  terms : List.Forall₂ (Term.Paired Eq V) l.terms l'.terms

theorem terms_paired (k k' : Nat) {ts : List Token} (h : ∀ name, .var name ∈ ts → IsPlainName name)
    (j : Nat) : ∃ i, (Token.terms ts (k + j)).2 = k + i ∧ (Token.terms ts (k' + j)).2 = k' + i ∧
      List.Forall₂ (Term.Paired Eq (NamePair k k')) (Token.terms ts (k + j)).1
        (Token.terms ts (k' + j)).1 := by
  induction ts generalizing j with
  | nil => exact ⟨j, rfl, rfl, .nil⟩
  | cons t ts ih =>
    have hts : ∀ name, .var name ∈ ts → IsPlainName name := fun name hn =>
      h name (List.mem_cons_of_mem _ hn)
    cases t with
    | const value =>
      obtain ⟨i, hi, hi', hp⟩ := ih hts j
      exact ⟨i, hi, hi', .cons (.const rfl) hp⟩
    | var name =>
      unfold Token.terms
      by_cases hn : name = ""
      · rw [if_pos hn, if_pos hn]
        obtain ⟨i, hi, hi', hp⟩ := ih hts (j + 1)
        exact ⟨i, hi, hi', .cons (.var (.inr ⟨j, rfl, rfl⟩)) hp⟩
      · rw [if_neg hn, if_neg hn]
        obtain ⟨i, hi, hi', hp⟩ := ih hts j
        exact ⟨i, hi, hi', .cons (.var (.inl ⟨rfl, h name (by simp)⟩)) hp⟩

theorem literal_paired (k k' : Nat) {st : Statement} (h : st.IsPlain) (j : Nat) :
    ∃ i, (st.literal (k + j)).2 = k + i ∧ (st.literal (k' + j)).2 = k' + i ∧
      Literal.Paired (NamePair k k') (st.literal (k + j)).1 (st.literal (k' + j)).1 := by
  obtain ⟨i, hi, hi', hp⟩ := terms_paired k k' h j
  exact ⟨i, hi, hi', rfl, rfl, hp⟩

theorem literals_paired (k k' : Nat) {sts : List Statement} (h : ∀ st ∈ sts, st.IsPlain) (j : Nat) :
    ∃ i, (Statement.literals sts (k + j)).2 = k + i ∧
      (Statement.literals sts (k' + j)).2 = k' + i ∧
      List.Forall₂ (Literal.Paired (NamePair k k')) (Statement.literals sts (k + j)).1
        (Statement.literals sts (k' + j)).1 := by
  induction sts generalizing j with
  | nil => exact ⟨j, rfl, rfl, .nil⟩
  | cons st sts ih =>
    obtain ⟨i, hi, hi', hl⟩ := literal_paired k k' (h st (by simp)) j
    obtain ⟨n, hn, hn', hls⟩ := ih (fun u hu => h u (List.mem_cons_of_mem _ hu)) i
    unfold Statement.literals
    simp only [hi, hi']
    exact ⟨n, hn, hn', .cons hl hls⟩

/-- The nameless variables of later statements are numbered after those of the earlier ones. -/
theorem literals_append (sts us : List Statement) (k : Nat) :
    Statement.literals (sts ++ us) k =
      ((Statement.literals sts k).1 ++ (Statement.literals us (Statement.literals sts k).2).1,
        (Statement.literals us (Statement.literals sts k).2).2) := by
  induction sts generalizing k with
  | nil => rfl
  | cons st sts ih => simp only [List.cons_append, Statement.literals, ih]

theorem predicate_of_mem_literals {sts : List Statement} {k : Nat} {l : Literal}
    (h : l ∈ (Statement.literals sts k).1) : ∃ st ∈ sts, l.predicate = st.predicate := by
  induction sts generalizing k with
  | nil => cases h
  | cons st sts ih =>
    rcases List.mem_cons.1 h with rfl | h
    · exact ⟨st, by simp, rfl⟩
    · obtain ⟨u, hu, he⟩ := ih h
      exact ⟨u, List.mem_cons_of_mem _ hu, he⟩

/-! ### Names in literals -/

theorem Statement.mem_vars {st : Statement} {z : String} :
    z ∈ st.vars ↔ .var z ∈ st.tokens ∧ z ≠ "" := by
  unfold Statement.vars
  rw [List.mem_eraseDups, List.mem_filterMap]
  constructor
  · rintro ⟨t, ht, hz⟩
    unfold Token.name? at hz
    split at hz
    · cases hz
    · rename_i name hne
      cases hz
      exact ⟨ht, by simpa using hne⟩
    · cases hz
  · rintro ⟨ht, hz⟩
    refine ⟨_, ht, ?_⟩
    unfold Token.name?
    split
    · rename_i he
      cases he
      exact absurd rfl hz
    · rename_i he
      cases he
      rfl
    · rename_i he
      cases he

theorem mem_visibleNames {sts : List Statement} {z : String} :
    z ∈ Act.visibleNames sts ↔ ∃ st ∈ sts, z ∈ st.vars := by
  unfold Act.visibleNames
  rw [List.mem_eraseDups, List.mem_flatMap]

theorem mem_visibleNames_append {sts us : List Statement} {z : String} :
    z ∈ Act.visibleNames (sts ++ us) ↔ z ∈ Act.visibleNames sts ∨ z ∈ Act.visibleNames us := by
  simp only [mem_visibleNames, List.mem_append, or_and_right, exists_or]

theorem terms_count_le (ts : List Token) (k : Nat) : k ≤ (Token.terms ts k).2 := by
  induction ts generalizing k with
  | nil => exact Nat.le_refl _
  | cons t ts ih =>
    cases t with
    | const value => exact ih k
    | var name =>
      unfold Token.terms
      split
      · exact Nat.le_trans (Nat.le_succ k) (ih (k + 1))
      · exact ih k

theorem literals_count_le (sts : List Statement) (k : Nat) : k ≤ (Statement.literals sts k).2 := by
  induction sts generalizing k with
  | nil => exact Nat.le_refl _
  | cons st sts ih => exact Nat.le_trans (terms_count_le st.tokens k) (ih (st.literal k).2)

theorem name_of_mem_terms {ts : List Token} {k : Nat} {z : String}
    (h : .var z ∈ (Token.terms ts k).1) :
    (.var z ∈ ts ∧ z ≠ "") ∨ ∃ i < (Token.terms ts k).2, z = anonymousName i := by
  induction ts generalizing k with
  | nil => cases h
  | cons t ts ih =>
    have hrest : ∀ {n : Nat}, .var z ∈ (Token.terms ts n).1 →
        (.var z ∈ t :: ts ∧ z ≠ "") ∨ ∃ i < (Token.terms ts n).2, z = anonymousName i := by
      intro n hn
      rcases ih hn with ⟨hz, hne⟩ | hz
      · exact .inl ⟨List.mem_cons_of_mem _ hz, hne⟩
      · exact .inr hz
    cases t with
    | const value =>
      rcases List.mem_cons.1 h with h | h
      · cases h
      · exact hrest h
    | var name =>
      unfold Token.terms at h ⊢
      split_ifs at h ⊢ with hn
      · rcases List.mem_cons.1 h with h | h
        · cases h
          exact .inr ⟨k, terms_count_le ts (k + 1), rfl⟩
        · exact hrest h
      · rcases List.mem_cons.1 h with h | h
        · cases h
          exact .inl ⟨by simp, hn⟩
        · exact hrest h

theorem mem_terms_of_name {ts : List Token} {z : String} (h : .var z ∈ ts) (hz : z ≠ "") (k : Nat) :
    .var z ∈ (Token.terms ts k).1 := by
  induction ts generalizing k with
  | nil => cases h
  | cons t ts ih =>
    cases t with
    | const value =>
      rcases List.mem_cons.1 h with h | h
      · cases h
      · exact List.mem_cons_of_mem _ (ih h k)
    | var name =>
      unfold Token.terms
      split_ifs with hn
      · rcases List.mem_cons.1 h with h | h
        · cases h
          exact absurd hn hz
        · exact List.mem_cons_of_mem _ (ih h (k + 1))
      · rcases List.mem_cons.1 h with h | h
        · cases h
          exact List.mem_cons_self
        · exact List.mem_cons_of_mem _ (ih h k)

/-- A name in the literals is that of a named variable, or it was given to a nameless one. -/
theorem name_of_mem_literals {sts : List Statement} {k : Nat} {l : Literal} {z : String}
    (hl : l ∈ (Statement.literals sts k).1) (h : .var z ∈ l.terms) :
    z ∈ Act.visibleNames sts ∨ ∃ i < (Statement.literals sts k).2, z = anonymousName i := by
  rw [mem_visibleNames]
  induction sts generalizing k with
  | nil => cases hl
  | cons st sts ih =>
    rcases List.mem_cons.1 hl with rfl | hl
    · rcases name_of_mem_terms h with hz | ⟨i, hi, rfl⟩
      · exact .inl ⟨st, by simp, Statement.mem_vars.2 hz⟩
      · exact .inr ⟨i, Nat.lt_of_lt_of_le hi (literals_count_le sts _), rfl⟩
    · rcases ih hl with ⟨u, hu, hz⟩ | hz
      · exact .inl ⟨u, List.mem_cons_of_mem _ hu, hz⟩
      · exact .inr hz

/-- Every named variable occurs in a literal. -/
theorem exists_mem_literals {sts : List Statement} {z : String} (h : z ∈ Act.visibleNames sts)
    (k : Nat) : ∃ l ∈ (Statement.literals sts k).1, .var z ∈ l.terms := by
  rw [mem_visibleNames] at h
  obtain ⟨st, hst, hz⟩ := h
  obtain ⟨hz, hne⟩ := Statement.mem_vars.1 hz
  induction sts generalizing k with
  | nil => cases hst
  | cons u sts ih =>
    rcases List.mem_cons.1 hst with rfl | hst
    · exact ⟨_, List.mem_cons_self, mem_terms_of_name hz hne k⟩
    · obtain ⟨l, hl, hm⟩ := ih (u.literal k).2 hst
      exact ⟨l, List.mem_cons_of_mem _ hl, hm⟩

end PassageLogic
