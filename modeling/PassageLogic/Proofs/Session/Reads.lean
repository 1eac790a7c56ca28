import PassageLogic.Proofs.Session.Renumbering

/-! # Steps that only read

A step reads if it leaves the engine as it was, however it ends (`Reads`), and repeats if moreover its
outcome depends on nothing but the engine (`Repeats`). Both are kept by putting steps together and by
turning failures into results. Asking does both (`reads_ask`, `repeats_ask`), although a conjunction
stores a rule and removes it again: it is enough that the store does not mention the predicates of the
rules that are drawn. -/

namespace PassageLogic

/-- The store does not mention the predicates of the transient rules from the next one up to the
`m`-th. -/
def Session.FreshUpTo (S : Session Store) (m : Nat) : Prop :=
  ∀ n, S.transient ≤ n → n < m → ∀ visible,
    Unmentioned (Act.transientHead n visible).predicate S.engine.clauses

theorem Session.FreshUpTo.mono {S : Session Store} {m k : Nat} (h : S.FreshUpTo m) (hk : k ≤ m) :
    S.FreshUpTo k := fun n hn hlt => h n hn (Nat.lt_of_lt_of_le hlt hk)

theorem Session.FreshUpTo.later {S T : Session Store} {m : Nat} (h : S.FreshUpTo m)
    (he : T.engine = S.engine) (hle : S.transient ≤ T.transient) : T.FreshUpTo m := by
  intro n hn hlt visible
  rw [he]
  exact h n (Nat.le_trans hle hn) hlt visible

/-- A store without underscores in its predicates mentions the predicate of no transient rule. -/
theorem Session.freshUpTo_of_no_underscore {S : Session Store}
    (h : ∀ c ∈ S.engine.clauses, '_' ∉ c.head.predicate.toList ∧
      ∀ l ∈ c.body, '_' ∉ l.predicate.toList) (m : Nat) : S.FreshUpTo m :=
  fun n _ _ visible c hc => ⟨ne_transientHead (h c hc).1 n visible,
    fun l hl => ne_transientHead ((h c hc).2 l hl) n visible⟩

/-- The names of the record are none of nameless variables. -/
def Record.NamesApart (r : Record) : Prop := ∀ e ∈ r.entries, IsApart e.1

namespace Act

variable {α β : Type}

/-- The step leaves the engine as it was. -/
structure Reads (x : Act Store α) : Prop where
  transient_le : ∀ S, S.transient ≤ (x.runIn S).2.transient
  engine_eq : ∀ S, S.FreshUpTo (x.runIn S).2.transient → (x.runIn S).2.engine = S.engine

/-- The step leaves the engine as it was, and its outcome depends on nothing else. -/
structure Repeats (x : Act Store α) : Prop extends Reads x where
  outcome_eq : ∀ S T, T.engine = S.engine → S.FreshUpTo (x.runIn S).2.transient →
    T.FreshUpTo (x.runIn T).2.transient → (x.runIn T).1 = (x.runIn S).1

/-- The result is one that the step can have. -/
def CanGive (x : Act Store α) (a : α) : Prop := ∃ S, (x.runIn S).1 = .ok a

/-! ### Steps put together -/

section Bind
variable {x : Act Store α} {f : α → Act Store β}

theorem Reads.transient_le_bind (hf : ∀ a, x.CanGive a → Reads (f a)) (S : Session Store) :
    (x.runIn S).2.transient ≤ ((x >>= f).runIn S).2.transient := by
  rw [runIn_bind]
  cases h : x.runIn S with
  | mk r U =>
    cases r with
    | error e => exact Nat.le_refl _
    | ok a => exact (hf a ⟨S, by rw [h]⟩).transient_le U

theorem Reads.bind_of (hx : Reads x) (hf : ∀ a, x.CanGive a → Reads (f a)) : Reads (x >>= f) where
  transient_le S := Nat.le_trans (hx.transient_le S) (transient_le_bind hf S)
  engine_eq S hS := by
    have hU := hx.engine_eq S (hS.mono (transient_le_bind hf S))
    have hle := hx.transient_le S
    rw [runIn_bind] at hS ⊢
    cases h : x.runIn S with
    | mk r U =>
      rw [h] at hS hU hle
      cases r with
      | error e => exact hU
      | ok a => exact ((hf a ⟨S, by rw [h]⟩).engine_eq U (hS.later hU hle)).trans hU

theorem Reads.bind (hx : Reads x) (hf : ∀ a, Reads (f a)) : Reads (x >>= f) :=
  hx.bind_of fun a _ => hf a

theorem Repeats.bind_of (hx : Repeats x) (hf : ∀ a, x.CanGive a → Repeats (f a)) :
    Repeats (x >>= f) where
  toReads := hx.toReads.bind_of fun a ha => (hf a ha).toReads
  outcome_eq S T hT hS hT' := by
    have hreads : ∀ a, x.CanGive a → Reads (f a) := fun a ha => (hf a ha).toReads
    have hSx := hS.mono (Reads.transient_le_bind hreads S)
    have hTx := hT'.mono (Reads.transient_le_bind hreads T)
    have hr := hx.outcome_eq S T hT hSx hTx
    have hU := hx.engine_eq S hSx
    have hV := hx.engine_eq T hTx
    have hleU := hx.transient_le S
    have hleV := hx.transient_le T
    rw [runIn_bind] at hS hT' ⊢
    rw [runIn_bind]
    cases h : x.runIn S with
    | mk r U =>
      cases h' : x.runIn T with
      | mk r' V =>
        rw [h] at hr hU hleU hS
        rw [h'] at hr hV hleV hT'
        simp only [] at hr hU hV hleU hleV
        subst hr
        cases r' with
        | error e => rfl
        | ok a =>
          exact (hf a ⟨S, by rw [h]⟩).outcome_eq U V (hV.trans (hT.trans hU.symm))
            (hS.later hU hleU) (hT'.later hV hleV)

theorem Repeats.bind (hx : Repeats x) (hf : ∀ a, Repeats (f a)) : Repeats (x >>= f) :=
  hx.bind_of fun a _ => hf a

end Bind

theorem repeats_ofExcept (r : Except Failure α) : Repeats (ofExcept r) where
  transient_le _ := Nat.le_refl _
  engine_eq _ _ := rfl
  outcome_eq _ _ _ _ _ := rfl

theorem repeats_pure (a : α) : Repeats (pure a : Act Store α) := repeats_ofExcept (.ok a)

theorem repeats_throw (f : Failure) : Repeats (throw f : Act Store α) := repeats_ofExcept (.error f)

theorem Reads.outcome {x : Act Store α} (hx : Reads x) : Reads (Act.outcome x) where
  transient_le S := hx.transient_le S
  engine_eq S hS := hx.engine_eq S hS

theorem Repeats.outcome {x : Act Store α} (hx : Repeats x) : Repeats (Act.outcome x) where
  toReads := hx.toReads.outcome
  outcome_eq S T hT hS hT' := congrArg Except.ok (hx.outcome_eq S T hT hS hT')

/-! ### Asking -/

theorem reads_askLine (l : Line) (limit : Option Nat) : Reads (askLine Store.engine l limit) := by
  cases l with
  | claim st =>
    refine ⟨fun S => ?_, fun S _ => ?_⟩ <;> rw [runIn_askLine_claim]
  | conjunction sts =>
    refine ⟨fun S => ?_, fun S hS => ?_⟩
    · rw [askLine, runIn_askAll]
      exact Nat.le_succ _
    · rw [askLine, runIn_askAll] at hS ⊢
      have hfresh : Unmentioned (conjunctionRule sts S.transient S.anonymous).head.predicate
          S.engine.clauses := hS S.transient (Nat.le_refl _) (Nat.lt_succ_self _) _
      simp only [Store.assert_unmentioned (c := conjunctionRule sts S.transient S.anonymous) rfl hfresh]
      exact Store.retract_withClause (proper_conjunctionRule _ _ _) hfresh
  | rule head body => exact (repeats_throw _).toReads

/-- **The outcome of asking does not depend on the numberings.** -/
theorem askLine_renumbered {l : Line} (hl : ∀ st ∈ l.statements, st.Ordinary) {limit : Option Nat}
    {S T : Session Store} (hT : T.engine = S.engine)
    (hS : S.FreshUpTo ((askLine Store.engine l limit).runIn S).2.transient)
    (hT' : T.FreshUpTo ((askLine Store.engine l limit).runIn T).2.transient) :
    ((askLine Store.engine l limit).runIn T).1 = ((askLine Store.engine l limit).runIn S).1 := by
  wlog hle : S.anonymous ≤ T.anonymous generalizing S T
  · exact (this hT.symm hT' hS (Nat.le_of_not_le hle)).symm
  obtain ⟨d, hd⟩ := Nat.exists_eq_add_of_le hle
  cases l with
  | claim st =>
    rw [runIn_askLine_claim, runIn_askLine_claim, hT, hd,
      gather_claim_renumbered (hl st List.mem_cons_self)]
  | conjunction sts =>
    rw [askLine, runIn_askAll] at hS hT'
    have hn := hS S.transient (Nat.le_refl _) (Nat.lt_succ_self _) (visibleNames sts)
    have hn' := hT' T.transient (Nat.le_refl _) (Nat.lt_succ_self _) (visibleNames sts)
    rw [hT] at hn'
    have hg := gather_conjunction_renumbered hl S.engine hn hn' limit S.anonymous d
    rw [askLine, runIn_askAll, runIn_askAll, hT, hd]
    simp only []
    rw [Store.assert_unmentioned (c := conjunctionRule sts S.transient S.anonymous) rfl hn,
      Store.assert_unmentioned (c := conjunctionRule sts T.transient (S.anonymous + d)) rfl hn']
    exact congrArg _ hg
  | rule head body => rfl

theorem repeats_askLine {l : Line} (hl : ∀ st ∈ l.statements, st.Ordinary) (limit : Option Nat) :
    Repeats (askLine Store.engine l limit) where
  toReads := reads_askLine l limit
  outcome_eq _ _ hT hS hT' := askLine_renumbered hl hT hS hT'

theorem reads_drain (l : Line) : Reads (drain Store.engine l) :=
  (reads_askLine l none).bind fun _ => (repeats_pure _).toReads

theorem repeats_drain {l : Line} (hl : ∀ st ∈ l.statements, st.Ordinary) :
    Repeats (drain Store.engine l) :=
  (repeats_askLine hl none).bind fun _ => repeats_pure _

theorem read_of_canGive {text : String} {l : Line} (h : (readLine text : Act Store Line).CanGive l) :
    Line.read text = .ok l := by
  obtain ⟨S, hS⟩ := h
  exact mapError_eq_ok hS

theorem reads_ask (text : String) (limit : Option Nat) : Reads (ask Store.engine text limit) :=
  (repeats_ofExcept _).toReads.bind fun l => reads_askLine l limit

theorem repeats_ask (text : String) (limit : Option Nat) : Repeats (ask Store.engine text limit) :=
  (repeats_ofExcept _).bind_of fun l hl => repeats_askLine
    (fun _ hst => Statement.FromText.ordinary ⟨text, l, read_of_canGive hl, hst⟩) limit

/-! ### The names of answers -/

theorem names_of_gather {visible : List String} {limit : Option Nat} {seen L : List Record}
    {items : List Item} (h : gather visible limit seen items = .ok L) :
    ∀ r ∈ L, ∀ e ∈ r.entries, e.1 ∈ visible := by
  induction items generalizing limit seen L with
  | nil =>
    rw [gather_nil] at h
    cases h
    simp
  | cons item items ih =>
    rcases eq_or_ne limit (some 0) with rfl | hl
    · rw [gather_zero] at h
      cases h
      simp
    · cases item with
      | error f =>
        rw [gather_error hl] at h
        cases h
      | ok r =>
        rw [gather_record hl] at h
        split_ifs at h
        · exact ih h
        · obtain ⟨M, hM, rfl⟩ := map_eq_ok h
          refine List.forall_mem_cons.2 ⟨fun e he => ?_, ih hM⟩
          simpa using (List.mem_filter.1 he).2

section Names

variable {σ : Type} {e : Engine σ} {limit : Option Nat} {L : List Record} {S T : Session σ}

theorem names_of_collect {l : Literal} {visible : List String} {query : String}
    (h : (collect e l visible limit query).runIn S = (.ok L, T)) :
    ∀ r ∈ L, ∀ entry ∈ r.entries, entry.1 ∈ visible := by
  obtain ⟨_, _, -, h⟩ := runIn_bind_eq_ok.1 h
  obtain ⟨items, _, -, h⟩ := runIn_bind_eq_ok.1 h
  exact names_of_gather (mapError_eq_ok (congrArg Prod.fst h))

/-- Answers to a line give values to its named variables. -/
theorem names_of_askLine {l : Line} (h : (askLine e l limit).runIn S = (.ok L, T)) :
    ∀ r ∈ L, ∀ entry ∈ r.entries, entry.1 ∈ visibleNames l.statements := by
  cases l with
  | claim st =>
    obtain ⟨_, _, -, h⟩ := runIn_bind_eq_ok.1 h
    intro r hr entry hentry
    rw [mem_visibleNames]
    exact ⟨st, List.mem_cons_self, names_of_collect h r hr entry hentry⟩
  | conjunction sts =>
    obtain ⟨_, _, -, h⟩ := runIn_bind_eq_ok.1 h
    obtain ⟨_, _, -, h⟩ := runIn_bind_eq_ok.1 h
    obtain ⟨_, _, -, h⟩ := runIn_bind_eq_ok.1 h
    obtain ⟨_, _, -, h⟩ := runIn_bind_eq_ok.1 h
    obtain ⟨answers, U, hcollect, h⟩ := runIn_bind_eq_ok.1 h
    obtain ⟨_, _, -, h⟩ := runIn_bind_eq_ok.1 h
    obtain ⟨records, _, hrecords, h⟩ := runIn_bind_eq_ok.1 h
    obtain ⟨_, _, -, h⟩ := runIn_bind_eq_ok.1 h
    -- the records that are returned are those of the outcome before the rule was retracted
    have hanswers : answers = .ok records := congrArg Prod.fst hrecords
    have hrecords : records = L := Except.ok.inj (congrArg Prod.fst h)
    rw [hanswers, hrecords, runIn_outcome] at hcollect
    exact names_of_collect (Prod.ext (Except.ok.inj (congrArg Prod.fst hcollect)) rfl)
  | rule head body => cases congrArg Prod.fst h

/-- Answers to a text give values to the named variables of the line that it holds. -/
theorem names_of_ask {text : String} (h : (ask e text limit).runIn S = (.ok L, T)) :
    ∃ l, Line.read text = .ok l ∧
      ∀ r ∈ L, ∀ entry ∈ r.entries, entry.1 ∈ visibleNames l.statements := by
  obtain ⟨l, U, hl, h⟩ := runIn_bind_eq_ok.1 h
  exact ⟨l, mapError_eq_ok (congrArg Prod.fst hl), names_of_askLine h⟩

end Names

/-- **Answers to a text give values to names that are none of nameless variables.** -/
theorem namesApart_of_ask {text : String} {limit : Option Nat} {L : List Record}
    (h : (ask Store.engine text limit).CanGive L) : ∀ r ∈ L, r.NamesApart := by
  obtain ⟨S, hS⟩ := h
  obtain ⟨l, hread, hnames⟩ := names_of_ask (Prod.ext hS rfl :
    (ask Store.engine text limit).runIn S = (.ok L, ((ask Store.engine text limit).runIn S).2))
  exact fun r hr entry hentry => isApart_of_mem_visibleNames
    (fun _ hst => Statement.FromText.ordinary ⟨text, l, hread, hst⟩) (hnames r hr entry hentry)

end Act

theorem Record.NamesApart.overlay {r r' : Record} (h : r.NamesApart) (h' : r'.NamesApart) :
    (r.overlay r').NamesApart := by
  have hall : ∀ (es : List (String × Value)), (∀ e ∈ es, IsApart e.1) → ∀ r : Record, r.NamesApart →
      (r.insertAll es).NamesApart := by
    intro es
    induction es with
    | nil => exact fun _ r hr => hr
    | cons e es ih =>
      intro hes r hr
      obtain ⟨he, hes⟩ := List.forall_mem_cons.1 hes
      refine ih hes _ fun e' he' => ?_
      rcases Record.mem_insertEntry he' with rfl | he'
      · exact he
      · exact hr e' he'
  exact hall r'.entries h' r h

end PassageLogic
