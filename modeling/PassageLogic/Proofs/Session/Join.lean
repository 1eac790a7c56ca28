import Mathlib.Data.List.Perm.Subperm
import PassageLogic.Proofs.Logic.Continuation
import PassageLogic.Proofs.Session.Extensions

/-! # A conjunction is a join from left to right

The answers to statements with one more at the end are found by going through the answers to the
statements before it: each one is extended by the answers to the last statement under its values, or
kept if a denied last statement has no answer under them.

The two conjunctions are asked through rules of their own, so their searches run under other names.
Up to these the second search is the first one, continued with the last statement at each solution;
there the state carries the record of the solution (`carries_branch`, `exists_branches`), and what
the last statement adds are the extensions of this record (`answers_conjoin`).

An answer that holds NaN is not found again among the answers, since it does not equal itself, so that it is
given as often as it is found (`Record.Repeats`, `conjunction_repeats_nan`). -/

namespace PassageLogic

/-- The names of the same statements, numbered from `k` and from `k'`, in the uses of two rules. -/
abbrev MarkedPair (k k' : Nat) : String → String → Prop :=
  ImagePair (NamePair k k') (Clause.useName 1) (Clause.useName 1)

section Marked

variable {names names' : List String} {s s' t b : Substitution} {k k' : Nat} {P : List Statement}
  {clauses : List Clause} {bound room want : Nat}

/-- If the name has the mark of the first use, then the statements mention the name without it. -/
def MarksMentioned (P : List Statement) (k : Nat) (name : String) : Prop :=
  ∀ y, name = Clause.useName 1 y → ∃ l ∈ (Statement.literals P k).1, .var y ∈ l.terms

theorem marksMentioned_useName {l : Literal} {y : String} (hl : l ∈ (Statement.literals P k).1)
    (hy : .var y ∈ l.terms) : MarksMentioned P k (Clause.useName 1 y) := by
  intro y' he
  obtain rfl := useName_injective 1 he
  exact ⟨l, hl, hy⟩

theorem Links.within_markedGoals (h : Links (Act.visibleNames P) s) (k : Nat) :
    Search.Within (MarksMentioned P k) 1 s (markedGoals P k) where
  acyclic := h.acyclic
  names := by
    refine h.namesIn fun x hx => ⟨fun y he => ?_, ?_⟩
    · exact absurd he (ne_useName_of_no_hash (h.no_hash x hx) 1 y)
    · obtain ⟨l, hl, hlx⟩ := exists_mem_literals hx k
      exact marksMentioned_useName hl hlx
  goals := by
    rintro g hg a ha name rfl
    obtain ⟨l, hl, rfl⟩ := List.mem_map.1 hg
    obtain ⟨c, hc, he⟩ := List.mem_map.1 ha
    cases c with
    | const v => cases he
    | var y =>
      cases he
      exact marksMentioned_useName hl hc
  fresh := by
    intro n hn x y he
    have := (useName_inj.1 he).1
    omega

/-- A name that the statements do not mention stays unbound in the use of their rule. -/
theorem Links.walk_unmentioned (h : Links (Act.visibleNames P) s)
    (ht : t ∈ (Search.solve clauses bound room (markedGoals P k) s want 1).found) {z : String}
    (hz : ∀ l ∈ (Statement.literals P k).1, .var z ∉ l.terms) :
    t.walk (.var (Clause.useName 1 z)) = .var (Clause.useName 1 z) := by
  obtain ⟨hacyclic, hnames⟩ := Search.solve_within (h.within_markedGoals k) ht
  refine Substitution.walk_unbound hacyclic ?_
  by_contra hb
  obtain ⟨a, ha⟩ := Option.ne_none_iff_exists'.1 hb
  obtain ⟨l, hl, hlz⟩ := (hnames _ _ ha).1 z rfl
  exact hz l hl hlz

/-- What is unbound in a solution is so in its branch. -/
theorem Follows.walk_marked (hf : Follows Eq (MarkedPair k k') s s' t b) (h : Links names s)
    {z z' : String} (hz : NamePair k k' z z')
    (ht : t.walk (.var (Clause.useName 1 z)) = .var (Clause.useName 1 z)) {c : Term}
    (hc : s'.walk c = .var (Clause.useName 1 z')) : b.walk c = .var (Clause.useName 1 z') := by
  obtain ⟨W, hW, hVW, ha⟩ := hf
  have hs : Alike Eq (MarkedPair k k') s s' (.var (Clause.useName 1 z)) c := by
    unfold Alike
    rw [h.walk_marked, hc]
    exact .var ⟨z, z', hz, rfl, rfl⟩
  have hb := ha _ _ hs
  unfold Alike at hb
  rw [ht] at hb
  obtain ⟨d, hd, hzd⟩ := hb.of_var
  rw [hd, hW.right hzd (hVW _ _ ⟨z, z', hz, rfl, rfl⟩)]

/-- A value in a solution is a value in its branch. -/
theorem Follows.walk_value (hf : Follows Eq (MarkedPair k k') s s' t b) {x : String} {v : Value}
    (hx : s.walk (.var x) = .var (Clause.useName 1 x)) (hp : IsPlainName x)
    (ht : t.walk (.var x) = .const v) {c : Term} (hc : s'.walk c = .var (Clause.useName 1 x)) :
    b.walk c = .const v := by
  obtain ⟨W, -, -, ha⟩ := hf
  have hs : Alike Eq (MarkedPair k k') s s' (.var x) c := by
    unfold Alike
    rw [hx, hc]
    exact .var ⟨x, x, .inl ⟨rfl, hp⟩, rfl, rfl⟩
  have hb := (ha _ _ hs).value?_eq
  rw [ht] at hb
  exact Term.value?_eq_some.1 hb.symm

end Marked

/-! ### Names that earlier statements do not mention -/

section Later

variable {P : List Statement} {st : Statement} {k : Nat} {x : String}

theorem not_mem_literals_of_plain (k : Nat) (hx : IsPlainName x) (hv : x ∉ Act.visibleNames P) :
    ∀ l ∈ (Statement.literals P k).1, .var x ∉ l.terms := by
  intro l hl hm
  rcases name_of_mem_literals hl hm with h | ⟨i, -, rfl⟩
  · exact hv h
  · exact absurd rfl (hx.ne_anonymousName i)

theorem not_mem_literals_of_later (hP : ∀ x ∈ Act.visibleNames P, IsPlainName x) {i : Nat}
    (hi : (Statement.literals P k).2 ≤ i) :
    ∀ l ∈ (Statement.literals P k).1, .var (anonymousName i) ∉ l.terms := by
  intro l hl hm
  rcases name_of_mem_literals hl hm with h | ⟨j, hj, he⟩
  · exact absurd rfl ((hP _ h).ne_anonymousName i)
  · have := anonymousName_inj he
    omega

theorem mem_visibleNames_snoc : x ∈ Act.visibleNames (P ++ [st]) ↔
    x ∈ Act.visibleNames P ∨ x ∈ st.vars := by
  rw [mem_visibleNames_append]
  refine or_congr_right (mem_visibleNames.trans ?_)
  simp

theorem markedGoals_append : markedGoals (P ++ [st]) k = markedGoals P k ++
    [st.marked (Statement.literals P k).2] := by
  unfold markedGoals
  rw [literals_append, List.map_append]
  rfl

end Later

/-! ### The branches of the longer conjunction -/

theorem forall₂_of_mem {α β : Type} {R Q : α → β → Prop} {l : List α} {l' : List β}
    (h : List.Forall₂ R l l') (hRQ : ∀ a ∈ l, ∀ b ∈ l', R a b → Q a b) : List.Forall₂ Q l l' := by
  rw [List.forall₂_iff_get] at h ⊢
  refine ⟨h.1, fun i hi hi' => ?_⟩
  exact hRQ _ (List.get_mem _ _) _ (List.get_mem _ _) (h.2 i hi hi')

theorem exists_of_mem_forall₂ {α β : Type} {R : α → β → Prop} {l : List α} {l' : List β}
    (h : List.Forall₂ R l l') {a : α} (ha : a ∈ l) : ∃ b, R a b := by
  obtain ⟨b, -, hb⟩ := exists_mem_of_forall₂ h.flip ha
  exact ⟨b, hb⟩

theorem flatMap_eq_of_forall₂ {α β γ : Type} {R : α → β → Prop} {f : α → List γ} {g : β → List γ}
    {l : List α} {l' : List β} (h : List.Forall₂ R l l')
    (hfg : ∀ a ∈ l, ∀ b ∈ l', R a b → f a = g b) : l.flatMap f = l'.flatMap g := by
  induction h with
  | nil => rfl
  | @cons a b l l' hab _ ih =>
    rw [List.flatMap_cons, List.flatMap_cons, hfg a List.mem_cons_self b List.mem_cons_self hab,
      ih fun c hc d hd => hfg c (List.mem_cons_of_mem _ hc) d (List.mem_cons_of_mem _ hd)]

section Branches

variable {store : Store} {P : List Statement} {st : Statement} {k k' : Nat} {s s' : Substitution}
  (hask : ∀ u ∈ P ++ [st], u.Askable) (h : Links (Act.visibleNames P) s)
  (h' : Links (Act.visibleNames (P ++ [st])) s')
include hask h h'

/-- **A branch carries the record of its solution**, if this gives a value to every name. -/
theorem carries_branch {t b : Substitution} {uses : Nat}
    (ht : t ∈ (store.conjoin P k s).found)
    (hall : ∀ x ∈ Act.visibleNames P, (t.answer (Act.visibleNames P)).contains x = true)
    (hf : Follows Eq (MarkedPair k k') s s' t b) (hacyclic : b.Acyclic)
    (hold : b.NamesIn (Old uses)) (hused : 1 ≤ uses) :
    Carries (t.answer (Act.visibleNames P)) (Act.visibleNames (P ++ [st]))
      (Statement.literals P k').2 uses b := by
  have hplain : ∀ x ∈ Act.visibleNames (P ++ [st]), IsPlainName x := fun x hx =>
    isPlainName_of_mem_visibleNames hask hx
  have hsub : ∀ x ∈ Act.visibleNames P, x ∈ Act.visibleNames (P ++ [st]) := fun x hx =>
    mem_visibleNames_snoc.2 (.inl hx)
  have hnd := nodup_visibleNames P
  obtain ⟨i, hi, hi', -⟩ := literals_paired k k'
    (fun u hu => (hask u (List.mem_append_left _ hu)).isPlain) 0
  refine ⟨hacyclic, hold, hused, ?_, ?_, ?_, ?_⟩
  · intro x v hx
    exact hplain x (hsub x (Substitution.of_get?_answer hnd hx).1)
  · intro x v hx
    obtain ⟨hxP, hw⟩ := Substitution.of_get?_answer hnd hx
    have hxp := hplain x (hsub x hxP)
    exact ⟨hf.walk_value (h.walk_name hxP) hxp hw (h'.walk_name (hsub x hxP)),
      hf.walk_value (h.walk_name hxP) hxp hw (h'.walk_marked x)⟩
  · intro x hx hr
    have hnew := not_mem_literals_of_plain k (hplain x hx) (Record.not_mem_of_get?_none hall hr)
    have hw := h.walk_unmentioned ht hnew
    exact hf.walk_marked h (.inl ⟨rfl, hplain x hx⟩) hw (h'.walk_name hx)
  · rintro m z z' (⟨rfl, hz⟩ | ⟨j, rfl, -⟩) hr
    · have hnew := not_mem_literals_of_plain k hz (Record.not_mem_of_get?_none hall hr)
      have hw := h.walk_unmentioned ht hnew
      exact hf.walk_marked h (.inl ⟨rfl, hz⟩) hw (h'.walk_marked z)
    · -- the nameless variables of the last statement come after those of the others on both sides
      have hlater : (Statement.literals P k).2 ≤ k + (i + j) := by
        have : (Statement.literals P k).2 = k + i := hi
        omega
      have hnew := not_mem_literals_of_later (fun x hx => hplain x (hsub x hx)) hlater
      have hnum : (Statement.literals P k').2 + j = k' + (i + j) := by
        have : (Statement.literals P k').2 = k' + i := hi'
        omega
      rw [hnum]
      exact hf.walk_marked h (.inr ⟨i + j, rfl, rfl⟩) (h.walk_unmentioned ht hnew)
        (h'.walk_marked _)

variable (hall : ∀ t ∈ (store.conjoin P k s).found, ∀ x ∈ Act.visibleNames P,
    (t.answer (Act.visibleNames P)).contains x = true)
  (hf : Search.Finished (Limits.above store.limits.answers) (store.conjoin P k s))
  (hf' : Search.Finished (Limits.above store.limits.answers) (store.conjoin (P ++ [st]) k' s'))
include hall hf hf'

/-- **The longer search goes on from each solution of the shorter one.** -/
theorem exists_branches : ∃ bs : List Search.Branch,
    List.Forall₂ (fun t b => Search.Branch.GoesOn store st (t.answer (Act.visibleNames P))
      (Act.visibleNames (P ++ [st])) (Statement.literals P k').2 b) (store.conjoin P k s).found bs ∧
      (store.conjoin (P ++ [st]) k' s').found =
        bs.flatMap fun b => (b.goOn store st (Statement.literals P k').2).found := by
  obtain ⟨-, -, -, hls⟩ :=
    literals_paired k k' (fun u hu => (hask u (List.mem_append_left _ hu)).isPlain) 0
  have hgoals : List.Forall₂ (Literal.Alike Eq (MarkedPair k k') s s') (markedGoals P k)
      (markedGoals P k') := h.alike_goals h' hls
  unfold Store.conjoin at hf' ⊢
  rw [markedGoals_append] at hf' ⊢
  obtain ⟨bs, hbs, hfound⟩ :=
    Search.solve_append indistinct_eq (h.corresponds h' (NamePair.pairing k k')) hgoals _ hf hf'
  refine ⟨bs, forall₂_of_mem hbs fun t ht b hb hr => ?_, hfound⟩
  refine ⟨carries_branch hask h h' ht (hall t ht) hr.follows hr.acyclic hr.names hr.uses_le,
    Nat.le_succ_of_le hr.room_le, hr.finished, ?_⟩
  have hlt := hf'.2
  rw [hfound, List.flatMap_def] at hlt
  refine Nat.lt_of_le_of_lt (List.Sublist.length_le ?_) hlt
  exact List.sublist_flatten_of_mem (List.mem_map.2 ⟨b, hb, rfl⟩)

variable (hle : (store.conjoin P k s).found.length ≤ store.limits.answers)
include hle

/-- **The solutions of the longer conjunction give the extensions of the records of the shorter
one**, in the order of the records, and the queries for the extensions succeed. -/
theorem answers_conjoin (m : Nat) :
    (store.conjoin (P ++ [st]) k' s').found.map (fun t => t.answer (Act.visibleNames (P ++ [st]))) =
        ((store.conjoin P k s).found.map fun t => t.answer (Act.visibleNames P)).flatMap
          (store.extensions st m) ∧
      ∀ t ∈ (store.conjoin P k s).found,
        (st.negated = true →
          (store.answersUnder st m (t.answer (Act.visibleNames P))).isEmpty = true) →
        ¬ store.Fails (st.under m (t.answer (Act.visibleNames P))) := by
  have hst : st.IsPlain := (hask st (by simp)).isPlain
  obtain ⟨bs, hbs, hfound⟩ := exists_branches hask h h' hall hf hf'
  have hlim : ∀ t ∈ (store.conjoin P k s).found, store.limits.answers ≠ 0 := by
    intro t ht
    have hpos := List.length_pos_of_mem ht
    omega
  constructor
  · rw [hfound, List.map_flatMap, List.flatMap_map]
    refine (flatMap_eq_of_forall₂ hbs fun t ht b _ hb => ?_).symm
    refine (hb.answers_eq hst (hlim t ht) (nodup_visibleNames _) ?_ ?_ ?_ m).symm
    · intro x hx
      exact mem_visibleNames_snoc.2 (.inr hx)
    · intro x v hx
      have hxP := (Substitution.of_get?_answer (nodup_visibleNames P) hx).1
      exact mem_visibleNames_snoc.2 (.inl hxP)
    · intro x hx hn
      rcases mem_visibleNames_snoc.1 hx with hxP | hxst
      · exact absurd hxP (Record.not_mem_of_get?_none (hall t ht) hn)
      · exact hxst
  · intro t ht hn
    obtain ⟨b, hb⟩ := exists_of_mem_forall₂ hbs ht
    exact hb.not_fails hst (hlim t ht) m hn

end Branches

/-! ### Answers -/

theorem flatMap_ite_eq_filter {α : Type} (p : α → Bool) (l : List α) :
    (l.flatMap fun a => if p a then [a] else []) = l.filter p := by
  induction l with
  | nil => rfl
  | cons a l ih =>
    rw [List.flatMap_cons, ih]
    cases hp : p a with
    | true =>
      rw [List.filter_cons_of_pos hp]
      rfl
    | false =>
      rw [List.filter_cons_of_neg (by simp [hp])]
      rfl

/-- The records joined with a further statement: every record overlaid with each distinct answer under
its values, or, for a denied statement, the records under whose values there is no answer. -/
def Store.join (store : Store) (st : Statement) (k : Nat) (L : List Record) : List Record :=
  if st.negated then L.filter fun r => (store.answersUnder st k r).isEmpty
  else L.flatMap fun r => (store.answersUnder st k r).map r.overlay

/-- The second list is the first one, in which records that hold NaN may be repeated. -/
structure Record.Repeats (J L : List Record) : Prop where
  /-- The records of the first list are in the second one, in their order. -/
  sublist : J.Sublist L
  /-- No two records of the second list are equal. -/
  distinct : L.Pairwise fun r r' => (r' == r) = false
  /-- A record of the second list has the values of one of the first. -/
  alike : ∀ r ∈ L, ∃ r' ∈ J, r.Alike Value.Alike r'

/-- Without NaN no record is repeated. -/
theorem Record.Repeats.eq {J L : List Record} (h : Repeats J L) (hself : ∀ r ∈ L, r == r) : L = J := by
  have : Std.Symm fun r r' : Record => (r' == r) = false := ⟨fun _ _ h => by rwa [BEq.comm]⟩
  have hsub : L ⊆ J := by
    intro r hr
    obtain ⟨r', hr', halike⟩ := h.alike r hr
    have hbeq : r' == r := by
      rw [← halike.beq_congr (.refl r)]
      exact hself r hr
    by_contra hn
    rw [h.distinct.forall hr (h.sublist.subset hr') fun he => hn (he ▸ hr')] at hbeq
    cases hbeq
  have hnodup : L.Nodup := h.distinct.imp_of_mem fun hr _ hne he => by
    rw [← he, hself _ hr] at hne
    cases hne
  exact (h.sublist.eq_of_length_le (hnodup.subperm hsub).length_le).symm

/-- A denied statement keeps and drops equal records alike. -/
theorem Store.eraseDups_flatMap_of_negated (store : Store) {st : Statement} (hst : st.IsPlain)
    (hn : st.negated = true) (m : Nat) (l : List Record) :
    (l.flatMap (store.extensions st m)).eraseDups = store.join st m l.eraseDups := by
  have hext : ∀ r, store.extensions st m r =
      if (store.answersUnder st m r).isEmpty then [r] else [] := fun r => by
    unfold extensions answersUnder
    rw [if_pos hn, isEmpty_eraseDups, List.isEmpty_map]
  unfold join
  rw [if_pos hn, List.flatMap_congr fun r _ => hext r, flatMap_ite_eq_filter]
  refine eraseDups_filter (fun r r' h => ?_) l
  unfold answersUnder
  rw [isEmpty_eraseDups, isEmpty_eraseDups, Bool.eq_iff_iff, List.isEmpty_map, List.isEmpty_map,
    List.isEmpty_iff_length_eq_zero, List.isEmpty_iff_length_eq_zero,
    (store.records_under_congr hst h).length_eq]

/-- **The distinct extensions of records are those that the distinct records are joined with**, but those
that hold NaN may be repeated. -/
theorem Store.repeats_join (store : Store) {st : Statement} (hst : st.IsPlain) (m : Nat)
    {l : List Record} {names : List String} (hl : ∀ r ∈ l, ∀ x, r.contains x = true ↔ x ∈ names) :
    Record.Repeats (store.join st m l.eraseDups) (l.flatMap (store.extensions st m)).eraseDups := by
  cases hn : st.negated with
  | true =>
    have heq := store.eraseDups_flatMap_of_negated hst hn m l
    exact ⟨heq ▸ .refl _, pairwise_eraseDups _, fun r hr => ⟨r, heq ▸ hr, .refl r⟩⟩
  | false =>
    have hjoin : store.join st m l.eraseDups =
        l.eraseDups.flatMap fun r => (store.answersUnder st m r).map r.overlay := by
      unfold join
      rw [hn, if_neg (by decide)]
    rw [hjoin]
    refine ⟨?_, pairwise_eraseDups _, fun x hx => ?_⟩
    · refine (List.Sublist.flatMap_right _ fun r _ => store.overlay_answersUnder_sublist hn m r).trans ?_
      exact sublist_eraseDups_flatMap fun r hr r' hr' x hx y hy =>
        beq_of_extensions_beq (hl r hr) (hl r' hr') hx hy
    · obtain ⟨r, hr, hx⟩ := List.mem_flatMap.1 ((eraseDups_sublist _).subset hx)
      obtain ⟨r', hr', hrr'⟩ := exists_mem_eraseDups hr
      -- an extension of an equal record is alike
      obtain ⟨y, hy, hxy⟩ : ∃ y ∈ store.extensions st m r', x.Alike Value.Alike y := by
        rcases hrr' with rfl | hrr'
        · exact ⟨x, hx, .refl x⟩
        · exact exists_mem_of_forall₂ (store.extensions_congr hst hrr').flip hx
      obtain ⟨a, ha, hya⟩ := exists_alike_overlay hn hy
      exact ⟨_, List.mem_flatMap.2 ⟨r', hr', List.mem_map.2 ⟨a, ha, rfl⟩⟩, hxy.trans hya⟩

namespace Conjoined

variable {store : Store} {P : List Statement} {st : Statement} {S S' : Session Store}
  {L L' : List Record}

/-- What `Conjoined.answers` gives, for a stream that was not cut short. -/
theorem finished (h : Conjoined store P S L) (hP : ∀ u ∈ P, u.Askable)
    (hl : (S.conjunctionStream P).length < Limits.largest) :
    ∃ s, Links (Act.visibleNames P) s ∧
      Search.Finished (Limits.above store.limits.answers) (store.conjoin P S.anonymous s) ∧
      (store.conjoin P S.anonymous s).found.length ≤ store.limits.answers ∧
      L = ((store.conjoin P S.anonymous s).found.map fun t =>
        t.answer (Act.visibleNames P)).eraseDups := by
  obtain ⟨s, hs, hfault, hle, hlen, hL⟩ := h.answers hP
  refine ⟨s, hs, ⟨hfault, ?_⟩, hle, hL⟩
  unfold Limits.above
  omega

/-- **The answers to the longer conjunction are those to the shorter one, joined with the last
statement.** -/
theorem join (hask : ∀ u ∈ P ++ [st], u.Askable) (h : Conjoined store P S L)
    (h' : Conjoined store (P ++ [st]) S' L')
    (hl : (S.conjunctionStream P).length < Limits.largest)
    (hl' : (S'.conjunctionStream (P ++ [st])).length < Limits.largest)
    (hbind : ∀ r ∈ L, ∀ x ∈ Act.visibleNames P, r.contains x = true) (m : Nat) :
    Record.Repeats (store.join st m L) L' ∧ (st.negated = true → L' = store.join st m L) ∧
      ∀ r ∈ L, (st.negated = true → (store.answersUnder st m r).isEmpty = true) →
        ¬ store.Fails (st.under m r) := by
  obtain ⟨s, hs, hf, hle, rfl⟩ := h.finished (fun u hu => hask u (List.mem_append_left _ hu)) hl
  obtain ⟨s', hs', hf', -, rfl⟩ := h'.finished hask hl'
  -- every solution gives values to all names, since it gives an answer or a record that equals one
  have hall : ∀ t ∈ (store.conjoin P S.anonymous s).found, ∀ x ∈ Act.visibleNames P,
      (t.answer (Act.visibleNames P)).contains x = true := by
    intro t ht x hx
    have hmem : t.answer (Act.visibleNames P) ∈ (store.conjoin P S.anonymous s).found.map fun t =>
        t.answer (Act.visibleNames P) := List.mem_map.2 ⟨t, ht, rfl⟩
    obtain ⟨r, hr, rfl | htr⟩ := exists_mem_eraseDups hmem
    · exact hbind _ hr x hx
    · rw [(Record.same_iff.1 htr).contains_eq]
      exact hbind r hr x hx
  obtain ⟨hmap, hok⟩ := answers_conjoin hask hs hs' hall hf hf' hle m
  have hst : st.IsPlain := (hask st (by simp)).isPlain
  have hnames : ∀ r ∈ (store.conjoin P S.anonymous s).found.map fun t =>
      t.answer (Act.visibleNames P), ∀ x, r.contains x = true ↔ x ∈ Act.visibleNames P := by
    intro r hr x
    obtain ⟨t, ht, rfl⟩ := List.mem_map.1 hr
    constructor
    · intro hx
      obtain ⟨v, hv⟩ := Option.isSome_iff_exists.1 hx
      exact (Substitution.of_get?_answer (nodup_visibleNames P) hv).1
    · exact hall t ht x
  rw [hmap]
  refine ⟨store.repeats_join hst m hnames, fun hn => store.eraseDups_flatMap_of_negated hst hn m _, ?_⟩
  intro r hr
  obtain ⟨t, ht, rfl⟩ := List.mem_map.1 ((eraseDups_sublist _).subset hr)
  exact hok t ht

/-- **A conjunction of one statement has the answers of the claim.** -/
theorem eq_claim (hask : st.Askable) (h : Conjoined store [st] S L) (he : S'.engine = store)
    (h' : ((Act.askLine Store.engine (.claim st) none).runIn S').1 = .ok L') : L = L' := by
  have hst := hask.isPlain
  have hvis : ∀ x, x ∈ Act.visibleNames [st] ↔ x ∈ st.vars := fun x => by
    rw [mem_visibleNames]
    simp
  obtain ⟨s, hs, hfault, -, -, rfl⟩ := h.answers (by simpa using hask)
  obtain ⟨hno, rfl⟩ := gather_answers (askLine_claim_eq_ok h')
  subst he
  have hcarries : Carries .empty (Act.visibleNames [st]) S.anonymous 1 s := by
    refine ⟨hs.acyclic, hs.namesIn_old, Nat.le_refl 1, ?_, ?_, fun x hx _ => hs.walk_name hx,
      fun _ z _ _ _ => hs.walk_marked z⟩
    · intro x v hx
      cases hx
    · intro x v hx
      cases hx
  have halike := hcarries.alike_literal hst S'.anonymous
  rw [Literal.withValues_empty] at halike
  have hends : Search.EndsAlike Eq (UnmarkedPair S.anonymous S'.anonymous) s []
      (S'.engine.conjoin [st] S.anonymous s)
      (Search.solve S'.engine.clauses S'.engine.limits.depth S'.engine.limits.depth
        [(st.literal S'.anonymous).1] [] (Limits.above S'.engine.limits.answers) 0) :=
    Search.solve_alike indistinct_eq (hcarries.corresponds S'.anonymous) (.cons halike .nil) _ _
  have hsearch : S'.engine.search (st.literal S'.anonymous).1 = _ :=
    Search.solve_deeper (hends.fault.trans hfault) S'.engine.limits.depth (Nat.le_succ _)
  rw [Store.records_of_not_fails hno, hsearch, List.map_map]
  refine congrArg List.eraseDups ?_
  rw [← List.forall₂_eq_eq_eq, List.forall₂_map_left_iff, List.forall₂_map_right_iff]
  refine hends.found.imp fun {t} {t'} hf => ?_
  have ha := hcarries.answer_eq hst (nodup_visibleNames _) (fun x hx => (hvis x).2 hx)
    (fun x v hx => by cases hx) (fun x hx _ => (hvis x).1 hx) hf
  rw [ha, Record.empty_overlay]
  unfold Statement.under
  rw [Literal.withValues_empty]
  rfl

end Conjoined

/-- **A conjunction is a join from left to right.** Statements, and the same ones with one more at the
end, were asked over one store. If every answer to the former gives values to all their names, then the
answers to the latter are the former joined with the last statement, of which those that hold NaN may be
repeated; if none does, or the last statement is denied, then they are just the join. The queries that the
join takes succeed. Only streams of `Limits.largest` records, more than any memory holds, are excepted. A
conjunction of one statement has the answers of the claim. -/
theorem conjunction_answers (store : Store) :
    (∀ {P : List Statement} {st : Statement} {S S' : Session Store} {L L' : List Record},
      (∀ u ∈ P ++ [st], u.Askable) → Conjoined store P S L → Conjoined store (P ++ [st]) S' L' →
      (S.conjunctionStream P).length < Limits.largest →
      (S'.conjunctionStream (P ++ [st])).length < Limits.largest →
      (∀ r ∈ L, ∀ x ∈ Act.visibleNames P, r.contains x = true) → ∀ m,
        Record.Repeats (store.join st m L) L' ∧
          ((st.negated = true ∨ ∀ r ∈ L', ∀ x v, r.get? x = some v → v.isNaN = false) →
            L' = store.join st m L) ∧
          ∀ r ∈ if st.negated then L' else L, ¬ store.Fails (st.under m r)) ∧
    ∀ {st : Statement} {S S' : Session Store} {L L' : List Record},
      st.Askable → Conjoined store [st] S L → S'.engine = store →
      ((Act.askLine Store.engine (.claim st) none).runIn S').1 = .ok L' → L = L' := by
  constructor
  · intro P st S S' L L' hask h h' hl hl' hbind m
    obtain ⟨hrepeats, hdenied, hok⟩ := Conjoined.join hask h h' hl hl' hbind m
    refine ⟨hrepeats, ?_, ?_⟩
    · rintro (hn | hnan)
      · exact hdenied hn
      · exact hrepeats.eq fun r hr => Record.beq_self_iff.2 (hnan r hr)
    · intro r hr
      cases hn : st.negated with
      | true =>
        rw [if_pos hn, hdenied hn, Store.join, if_pos hn] at hr
        obtain ⟨hr, he⟩ := List.mem_filter.1 hr
        exact hok r hr fun _ => he
      | false =>
        rw [hn, if_neg (by decide)] at hr
        exact hok r hr fun h => by rw [hn] at h; cases h
  · intro st S S' L L' hask h he h'
    exact h.eq_claim hask he h'

/-- Who is where, and a lit yard. -/
def houseStore : Store where
  limits := {}
  clauses :=
    [.fact (.of "in % %" [.const (.text "sam"), .const (.text "hall")]),
      .fact (.of "in % %" [.const (.text "ana"), .const (.text "yard")]),
      .fact (.of "lit %" [.const (.text "yard")])]

/-- The statement `in (who) (room)`. -/
def inRoom : Statement := ⟨["in", "%", "%"], [.var "who", .var "room"], false⟩

/-- The statement `lit (room)`, denied or not. -/
def lit (negated : Bool) : Statement := ⟨["lit", "%"], [.var "room"], negated⟩

/-- Sam is in the hall. -/
def samInHall : Record := .ofList [("who", .text "sam"), ("room", .text "hall")]

/-- Ana is in the yard. -/
def anaInYard : Record := .ofList [("who", .text "ana"), ("room", .text "yard")]

theorem askable_lit (negated : Bool) : ∀ u ∈ [inRoom] ++ [lit negated], u.Askable := by
  have hread : Line.read ("in (who) (room), " ++ (if negated then "!" else "") ++ "lit (room)") =
      .ok (.conjunction [inRoom, lit negated]) := by
    cases negated <;> decide +kernel
  have hhash : ∀ u ∈ [inRoom, lit negated], ∀ x ∈ u.vars, '#' ∉ x.toList := by
    cases negated <;> decide
  intro u hu
  exact ⟨⟨_, _, hread, hu⟩, hhash u hu⟩

theorem conjunction_answers_lit :
    (∀ negated, ∀ u ∈ [inRoom] ++ [lit negated], u.Askable) ∧
      Conjoined houseStore [inRoom] ⟨houseStore, 0, 0⟩ [samInHall, anaInYard] ∧
      Conjoined houseStore ([inRoom] ++ [lit false]) ⟨houseStore, 0, 1⟩ [anaInYard] ∧
      Conjoined houseStore ([inRoom] ++ [lit true]) ⟨houseStore, 0, 1⟩ [samInHall] ∧
      [anaInYard] = houseStore.join (lit false) 0 [samInHall, anaInYard] ∧
      [samInHall] = houseStore.join (lit true) 0 [samInHall, anaInYard] := by
  have h : Conjoined houseStore [inRoom] ⟨houseStore, 0, 0⟩ [samInHall, anaInYard] :=
    ⟨rfl, by decide +kernel, by rfl⟩
  have hlit : Conjoined houseStore ([inRoom] ++ [lit false]) ⟨houseStore, 0, 1⟩ [anaInYard] :=
    ⟨rfl, by decide +kernel, by rfl⟩
  have hdark : Conjoined houseStore ([inRoom] ++ [lit true]) ⟨houseStore, 0, 1⟩ [samInHall] :=
    ⟨rfl, by decide +kernel, by rfl⟩
  have hvalues : ∀ x v, anaInYard.get? x = some v → v.isNaN = false :=
    Record.beq_self_iff.1 (by decide)
  refine ⟨askable_lit, h, hlit, hdark, ?_, ?_⟩
  · exact ((conjunction_answers houseStore).1 (askable_lit false) h hlit (by decide +kernel)
      (by decide +kernel) (by decide +kernel) 0).2.1 (.inr (List.forall_mem_singleton.2 hvalues))
  · exact ((conjunction_answers houseStore).1 (askable_lit true) h hdark (by decide +kernel)
      (by decide +kernel) (by decide +kernel) 0).2.1 (.inl rfl)

/-- NaN has the property `p`, and it is found twice that `1` has the property `q`. -/
def nanStore : Store where
  limits := {}
  clauses := [.fact (.of "p %" [.const .nan]), .fact (.of "q %" [.const (.text "1")]),
    .fact (.of "t" []), ⟨.of "q %" [.const (.text "1")], [.of "t" []]⟩]

/-- The statement `p (x)`. -/
def propertyP : Statement := ⟨["p", "%"], [.var "x"], false⟩

/-- The statement `q (y)`. -/
def propertyQ : Statement := ⟨["q", "%"], [.var "y"], false⟩

/-- **An answer that holds NaN is given as often as it is found.** -/
theorem conjunction_repeats_nan : ¬ ∀ {store : Store} {P : List Statement} {st : Statement}
    {S S' : Session Store} {L L' : List Record}, (∀ u ∈ P ++ [st], u.Askable) →
      Conjoined store P S L → Conjoined store (P ++ [st]) S' L' →
      (∀ r ∈ L, ∀ x ∈ Act.visibleNames P, r.contains x = true) → L' = store.join st 0 L := by
  intro h
  have hask : ∀ u ∈ [propertyP] ++ [propertyQ], u.Askable := by
    have hread : Line.read "p (x), q (y)" = .ok (.conjunction [propertyP, propertyQ]) := by
      decide +kernel
    have hhash : ∀ u ∈ [propertyP, propertyQ], ∀ x ∈ u.vars, '#' ∉ x.toList := by decide
    exact fun u hu => ⟨⟨_, _, hread, hu⟩, hhash u hu⟩
  have hshort : Conjoined nanStore [propertyP] ⟨nanStore, 0, 0⟩ [.ofList [("x", .nan)]] :=
    ⟨rfl, by decide +kernel, by rfl⟩
  have hlong : Conjoined nanStore ([propertyP] ++ [propertyQ]) ⟨nanStore, 0, 1⟩
      [.ofList [("x", .nan), ("y", .text "1")], .ofList [("x", .nan), ("y", .text "1")]] :=
    ⟨rfl, by decide +kernel, by rfl⟩
  have hjoin := congrArg List.length (h hask hshort hlong (by decide +kernel))
  exact absurd hjoin (by decide +kernel)

end PassageLogic
