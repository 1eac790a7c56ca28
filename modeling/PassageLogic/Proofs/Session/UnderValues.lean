import PassageLogic.Proofs.Logic.Continuation
import PassageLogic.Proofs.Session.TransientRule

/-! # A statement under the values of a record

The literal of a statement can be asked with the values of a record in place of its variables
(`Literal.withValues`). A search for the marked statement from a state that carries the record
(`Carries`) finds the same.

* `Carries.search_positive`, `Carries.answer_eq`: the two searches end alike, and what a solution of
  the one gives all names is the record overlaid with what that of the other gives the names of the
  statement.
* `Carries.search_denied`: a denied statement is solved where its positive form has no solution. -/

namespace PassageLogic

/-! ### Values in place of variables -/

/-- The value of the variable, if the record has one. -/
def Term.withValues (r : Record) : Term → Term
  | .var name => match r.get? name with
    | some v => .const v
    | none => .var name
  | .const v => .const v

/-- The literal with the values of the record in place of the variables that it names. -/
def Literal.withValues (r : Record) (l : Literal) : Literal :=
  { l with terms := l.terms.map (Term.withValues r) }

/-- The positive form of the statement with the values of the record, where `k` nameless variables
came before. -/
def Statement.under (st : Statement) (k : Nat) (r : Record) : Literal :=
  (st.literal k).1.positive.withValues r

/-- The distinct answers of the store to the statement with the values of the record. -/
def Store.answersUnder (store : Store) (st : Statement) (k : Nat) (r : Record) : List Record :=
  ((store.records (st.under k r)).map fun a => a.keep st.vars.contains).eraseDups

namespace Term

variable {r : Record} {x : String} {v : Value}

theorem withValues_of_some (h : r.get? x = some v) : (Term.var x).withValues r = .const v := by
  unfold withValues
  simp only [h]

theorem withValues_of_none (h : r.get? x = none) : (Term.var x).withValues r = .var x := by
  unfold withValues
  simp only [h]

end Term

theorem Literal.positive_of_not_negated {l : Literal} (h : l.negated = false) : l.positive = l := by
  cases l
  cases h
  rfl

theorem Literal.mem_vars_withValues {l : Literal} {r : Record} {x : String} :
    x ∈ (l.withValues r).vars ↔ .var x ∈ l.terms ∧ r.get? x = none := by
  rw [mem_vars]
  unfold withValues
  rw [List.mem_map]
  constructor
  · rintro ⟨t, ht, hx⟩
    cases t with
    | const v => cases hx
    | var y =>
      cases hy : r.get? y with
      | some v =>
        rw [Term.withValues_of_some hy] at hx
        cases hx
      | none =>
        rw [Term.withValues_of_none hy] at hx
        cases hx
        exact ⟨ht, hy⟩
  · rintro ⟨ht, hx⟩
    exact ⟨_, ht, Term.withValues_of_none hx⟩

/-- The named variables of the statement that have no value are those of its literal. -/
theorem Statement.mem_vars_under {st : Statement} {k : Nat} {r : Record} {x : String}
    (hx : x ∈ st.vars) : x ∈ (st.under k r).vars ↔ r.get? x = none := by
  unfold Statement.under
  rw [Literal.mem_vars_withValues]
  constructor
  · exact And.right
  · intro hr
    obtain ⟨ht, hne⟩ := Statement.mem_vars.1 hx
    exact ⟨mem_terms_of_name ht hne k, hr⟩

theorem Literal.withValues_empty (l : Literal) : l.withValues .empty = l := by
  have hid : Term.withValues .empty = id := by
    funext t
    cases t <;> rfl
  unfold withValues
  rw [hid, List.map_id]

/-! ### Images of paired names -/

/-- The images of paired names. -/
def ImagePair (N : String → String → Prop) (f g : String → String) : String → String → Prop :=
  fun x x' => ∃ z z', N z z' ∧ x = f z ∧ x' = g z'

theorem ImagePair.pairing {N : String → String → Prop} {f g : String → String} (hN : Pairing N)
    (hf : Function.Injective f) (hg : Function.Injective g) : Pairing (ImagePair N f g) where
  right := by
    rintro _ _ _ ⟨y, y', hy, rfl, rfl⟩ ⟨z, z', hz, hyz, rfl⟩
    obtain rfl := hf hyz
    rw [hN.right hy hz]
  left := by
    rintro _ _ _ ⟨y, y', hy, rfl, rfl⟩ ⟨z, z', hz, rfl, hyz⟩
    obtain rfl := hg hyz
    rw [hN.left hy hz]

theorem useName_injective (n : Nat) : Function.Injective (Clause.useName n) := fun _ _ h =>
  (useName_inj.1 h).2

/-! ### Uses of two transient rules -/

namespace Links

variable {names names' : List String} {s s' : Substitution} {N : String → String → Prop}
  (h : Links names s) (h' : Links names' s')
include h h'

theorem corresponds (hN : Pairing N) :
    Corresponds (ImagePair N (Clause.useName 1) (Clause.useName 1)) 1 1 s s' where
  acyclic := h.acyclic
  acyclic' := h'.acyclic
  names := h.namesIn_old
  names' := h'.namesIn_old
  pairing := ImagePair.pairing hN (useName_injective 1) (useName_injective 1)
  old := by
    rintro _ _ ⟨z, z', -, rfl, rfl⟩
    exact ⟨old_useName 1 z, old_useName 1 z'⟩

theorem alike_marked {z z' : String} (hz : N z z') :
    Alike Eq (ImagePair N (Clause.useName 1) (Clause.useName 1)) s s' (.var (Clause.useName 1 z))
      (.var (Clause.useName 1 z')) := by
  unfold Alike
  rw [h.walk_marked, h'.walk_marked]
  exact .var ⟨z, z', hz, rfl, rfl⟩

theorem alike_goal {l l' : Literal} (hl : Literal.Paired N l l') :
    (l.mapVars (Clause.useName 1)).Alike Eq (ImagePair N (Clause.useName 1) (Clause.useName 1)) s s'
      (l'.mapVars (Clause.useName 1)) := by
  refine ⟨hl.predicate, hl.negated, ?_⟩
  unfold Literal.mapVars
  rw [List.forall₂_map_left_iff, List.forall₂_map_right_iff]
  refine hl.terms.imp fun {a} {a'} ha => ?_
  cases ha with
  | var hz => exact h.alike_marked h' hz
  | const hv =>
    unfold Alike Term.mapVars
    rw [Substitution.walk_const, Substitution.walk_const]
    exact .const hv

/-- Goals with paired names are alike. -/
theorem alike_goals {P P' : List Statement} {k k' : Nat}
    (hls : List.Forall₂ (Literal.Paired N) (Statement.literals P k).1 (Statement.literals P' k').1) :
    List.Forall₂ (Literal.Alike Eq (ImagePair N (Clause.useName 1) (Clause.useName 1)) s s')
      (markedGoals P k) (markedGoals P' k') := by
  unfold markedGoals
  rw [List.forall₂_map_left_iff, List.forall₂_map_right_iff]
  exact hls.imp fun {l} {l'} hl => h.alike_goal h' hl

end Links

/-! ### States that carry a record -/

/-- A state of a search after the use of a transient rule for the names, in which the variables have
the values of the record: the others are unbound, and so are the nameless ones from the `k`-th on. -/
structure Carries (r : Record) (names : List String) (k uses : Nat) (s : Substitution) : Prop where
  acyclic : s.Acyclic
  old : s.NamesIn (Old uses)
  used : 1 ≤ uses
  plain : ∀ x v, r.get? x = some v → IsPlainName x
  bound : ∀ x v, r.get? x = some v →
    s.walk (.var x) = .const v ∧ s.walk (.var (Clause.useName 1 x)) = .const v
  free : ∀ x ∈ names, r.get? x = none → s.walk (.var x) = .var (Clause.useName 1 x)
  unbound : ∀ k' z z', NamePair k k' z z' → r.get? z = none →
    s.walk (.var (Clause.useName 1 z)) = .var (Clause.useName 1 z)

/-- The names of a marked statement and of the statement alone. -/
abbrev UnmarkedPair (k m : Nat) : String → String → Prop :=
  ImagePair (NamePair k m) (Clause.useName 1) id

namespace Carries

variable {r : Record} {names : List String} {k m uses : Nat} {s t t' : Substitution}
  {st : Statement} (h : Carries r names k uses s)
include h

theorem corresponds (m : Nat) : Corresponds (UnmarkedPair k m) uses 0 s [] where
  acyclic := h.acyclic
  acyclic' := Substitution.acyclic_nil
  names := h.old
  names' := Substitution.namesIn_nil
  pairing := ImagePair.pairing (NamePair.pairing k m) (useName_injective 1) Function.injective_id
  old := by
    rintro _ _ ⟨z, z', hz, rfl, rfl⟩
    exact ⟨(old_useName 1 z).mono h.used, old_of_no_hash hz.no_hash.2 0⟩

/-- A marked term is alike to the term with the values of the record. -/
theorem alike_term {a a' : Term} (ha : Term.Paired Eq (NamePair k m) a a') :
    Alike Eq (UnmarkedPair k m) s [] (a.mapVars (Clause.useName 1)) (a'.withValues r) := by
  unfold Alike
  cases ha with
  | const hv =>
    unfold Term.mapVars Term.withValues
    rw [Substitution.walk_const, Substitution.walk_const]
    exact .const hv
  | @var z z' hz =>
    cases hr : r.get? z with
    | some v =>
      have hzz : z = z' := by
        rcases hz with ⟨hzz, -⟩ | ⟨j, rfl, -⟩
        · exact hzz
        · exact absurd rfl ((h.plain _ v hr).ne_anonymousName _)
      subst hzz
      rw [Term.withValues_of_some hr, Substitution.walk_const]
      unfold Term.mapVars
      rw [(h.bound z v hr).2]
      exact .const rfl
    | none =>
      have hr' : r.get? z' = none := by
        rcases hz with ⟨rfl, -⟩ | ⟨j, -, rfl⟩
        · exact hr
        · cases hv : r.get? (anonymousName (m + j)) with
          | none => rfl
          | some v => exact absurd rfl ((h.plain _ v hv).ne_anonymousName _)
      rw [Term.withValues_of_none hr', Substitution.walk_unbound Substitution.acyclic_nil rfl]
      unfold Term.mapVars
      rw [h.unbound m z z' hz hr]
      exact .var ⟨z, z', hz, rfl, rfl⟩

theorem alike_literal (hst : st.IsPlain) (m : Nat) :
    (st.marked k).Alike Eq (UnmarkedPair k m) s [] ((st.literal m).1.withValues r) := by
  obtain ⟨-, -, -, hp⟩ := literal_paired k m hst 0
  refine ⟨hp.predicate, hp.negated, ?_⟩
  unfold Statement.marked Literal.mapVars Literal.withValues
  rw [List.forall₂_map_left_iff, List.forall₂_map_right_iff]
  exact hp.terms.imp fun {a} {a'} ha => h.alike_term ha

/-- What a solution gives all names is the record overlaid with what the solution on the other side
gives the names of the statement. -/
theorem answer_eq (hst : st.IsPlain) (hnames : names.Nodup) (hvars : ∀ x ∈ st.vars, x ∈ names)
    (hr : ∀ x v, r.get? x = some v → x ∈ names) (hopen : ∀ x ∈ names, r.get? x = none → x ∈ st.vars)
    (hf : Follows Eq (UnmarkedPair k m) s [] t t') :
    t.answer names = r.overlay ((t'.project (st.under m r)).keep st.vars.contains) := by
  obtain ⟨W, -, -, ha⟩ := hf
  refine Record.ext_get? fun x => ?_
  rw [Substitution.get?_answer hnames, Record.get?_overlay, Record.get?_keep,
    Substitution.get?_project]
  cases hx : r.get? x with
  | some v =>
    -- the record has a value, so the literal does not mention the name
    have hq : x ∉ (st.under m r).vars := by
      unfold Statement.under
      rw [Literal.mem_vars_withValues, hx]
      simp
    have hval : t.walk (.var x) = .const v := by
      have hs : Alike Eq (UnmarkedPair k m) s [] (.var x) (.const v) := by
        unfold Alike
        rw [(h.bound x v hx).1, Substitution.walk_const]
        exact .const rfl
      have ht := (ha _ _ hs).value?_eq
      rw [Substitution.walk_const] at ht
      exact Term.value?_eq_some.1 ht
    rw [if_pos (hr x v hx), hval, if_neg hq]
    simp [Term.value?]
  | none =>
    by_cases hxn : x ∈ names
    · have hxv := hopen x hxn hx
      have hs : Alike Eq (UnmarkedPair k m) s [] (.var x) (.var x) := by
        have hplain := hst x (Statement.mem_vars.1 hxv).1
        unfold Alike
        rw [h.free x hxn hx, Substitution.walk_unbound Substitution.acyclic_nil rfl]
        exact .var ⟨x, x, .inl ⟨rfl, hplain⟩, rfl, rfl⟩
      rw [if_pos hxn, if_pos (by simpa using hxv), if_pos ((Statement.mem_vars_under hxv).2 hx),
        Option.or_none]
      exact (ha _ _ hs).value?_eq
    · have hxv : x ∉ st.vars := fun hxv => hxn (hvars x hxv)
      rw [if_neg hxn, if_neg (by simpa using hxv)]
      rfl

/-- The state itself gives all names what the record does. -/
theorem answer_self (hnames : names.Nodup) (hr : ∀ x v, r.get? x = some v → x ∈ names) :
    s.answer names = r := by
  refine Record.ext_get? fun x => ?_
  rw [Substitution.get?_answer hnames]
  cases hx : r.get? x with
  | some v =>
    rw [if_pos (hr x v hx), (h.bound x v hx).1]
    rfl
  | none =>
    by_cases hxn : x ∈ names
    · rw [if_pos hxn, h.free x hxn hx]
      rfl
    · exact if_neg hxn

end Carries

/-! ### The search for the statement -/

/-- What the search for the marked statement finds from a branch on. -/
def Search.Branch.goOn (b : Branch) (store : Store) (st : Statement) (k : Nat) : Outcome :=
  b.outcome store.clauses store.limits.depth [st.marked k]

/-- The branch carries the record, and from there the statement is searched for to the end. -/
structure Search.Branch.GoesOn (store : Store) (st : Statement) (r : Record) (names : List String)
    (k : Nat) (b : Branch) : Prop where
  carries : Carries r names k b.uses b.subst
  room_le : b.room ≤ store.limits.depth + 1
  finished : Finished b.want (b.goOn store st k)
  length_lt : (b.goOn store st k).found.length < Limits.above store.limits.answers

namespace Search.Branch.GoesOn

variable {store : Store} {st : Statement} {r : Record} {names : List String} {k : Nat}
  {b : Search.Branch} (h : b.GoesOn store st r names k) (hst : st.IsPlain)
include h hst

/-- **A search for the positive form ends as the query for it does**, however many solutions are
wanted. -/
theorem solve_positive (m : Nat) {room want : Nat} (hroom : room ≤ store.limits.depth + 1)
    (hf : (solve store.clauses store.limits.depth room [(st.marked k).positive] b.subst want
      b.uses).fault = none) :
    EndsAlike Eq (UnmarkedPair k m) b.subst []
      (solve store.clauses store.limits.depth room [(st.marked k).positive] b.subst want b.uses)
      (solve store.clauses store.limits.depth (store.limits.depth + 1) [st.under m r] [] want 0) := by
  have he : EndsAlike Eq (UnmarkedPair k m) b.subst []
      (solve store.clauses store.limits.depth room [(st.marked k).positive] b.subst want b.uses)
      (solve store.clauses store.limits.depth room [st.under m r] [] want 0) :=
    solve_alike indistinct_eq (h.carries.corresponds m)
      (.cons (h.carries.alike_literal hst m).positive .nil) room want
  rw [solve_deeper (he.fault.trans hf) store.limits.depth hroom]
  exact he

/-- **The search for a statement that is not denied ends as the query for it does.** -/
theorem search_positive (hn : st.negated = false) (m : Nat) :
    EndsAlike Eq (UnmarkedPair k m) b.subst [] (b.goOn store st k)
      (store.search (st.under m r)) := by
  have hpos : (st.marked k).positive = st.marked k := Literal.positive_of_not_negated hn
  have hf : (solve store.clauses store.limits.depth b.room [(st.marked k).positive] b.subst b.want
      b.uses).fault = none := by
    rw [hpos]
    exact h.finished.1
  have he := h.solve_positive hst m h.room_le hf
  rw [hpos] at he
  have hlen := he.length_eq
  have hfin : (b.goOn store st k).found.length < b.want := h.finished.2
  have hsame : store.search (st.under m r) = solve store.clauses store.limits.depth
      (store.limits.depth + 1) [st.under m r] [] b.want 0 :=
    solve_want (Nat.lt_of_le_of_lt (Nat.le_of_eq hlen) hfin)
      (Nat.lt_of_le_of_lt (Nat.le_of_eq hlen) h.length_lt)
  rw [hsame]
  exact he

/-- **A denied statement is solved where the query for its positive form finds nothing**, and then
without a fault. -/
theorem search_denied (hn : st.negated = true) (m : Nat) :
    (b.goOn store st k).found =
        (if (store.search (st.under m r)).found = [] then [b.subst] else []) ∧
      ((store.search (st.under m r)).found = [] → (store.search (st.under m r)).fault = none) := by
  have hw := h.finished.want_ne_zero
  have hfault := h.finished.1
  have hroom := h.room_le
  unfold Search.Branch.goOn Search.Branch.outcome at hfault ⊢
  generalize b.room = room at hfault hroom ⊢
  cases room with
  | zero =>
    rw [solve_tooDeep hw] at hfault
    cases hfault
  | succ n =>
    generalize hp : solve store.clauses store.limits.depth n [(st.marked k).positive] b.subst 1
      b.uses = probe
    cases hf : probe.fault with
    | some fault =>
      rw [solve_probeFault hw hn hp hf] at hfault
      cases hfault
    | none =>
      have he := h.solve_positive hst m (Nat.le_of_succ_le hroom) (hp ▸ hf)
      have hle : 1 ≤ Limits.above store.limits.answers :=
        Nat.one_le_iff_ne_zero.2 (Limits.above_ne_zero _)
      have hc : CappedAt 1 (store.search (st.under m r)) _ :=
        solve_cap store.clauses store.limits.depth (store.limits.depth + 1) [st.under m r] [] 0 hle
      rw [hp] at he
      have hempty : probe.found = [] ↔ (store.search (st.under m r)).found = [] := by
        rw [← he.found_eq_nil, hc.found, List.take_eq_nil_iff]
        exact or_iff_right Nat.one_ne_zero
      constructor
      · by_cases hfd : probe.found = []
        · rw [solve_probeEmpty hw hn hp hf hfd, solve_nil, if_neg hw, if_pos (hempty.1 hfd)]
        · rw [solve_probeFound hw hn hp hf hfd, if_neg fun hs => hfd (hempty.2 hs)]
      · intro hs
        rw [← hc.same (by rw [hs]; exact Nat.one_pos), he.fault]
        exact hf

end Search.Branch.GoesOn
end PassageLogic
