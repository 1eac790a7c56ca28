import PassageLogic.Session.Perform
import PassageLogic.Proofs.Logic.Variants
import PassageLogic.Proofs.Session.Numbering
import PassageLogic.Proofs.Session.Asking

/-! # What performing does

* `runIn_perform`: the text is read as an action, the directives that are derivable before it are
  collected, it is asserted, the new directives are carried out up to the first unknown command, and
  the action is retracted however that ended.
* `hasVariant_changeAll`: after directives were carried out, a fact is there if the last directive about
  it asserts it; what no directive is about is there if it was. -/

namespace PassageLogic

/-! ### Series of assertions and retractions -/

namespace Store

/-- The store with clauses asserted in order. -/
def assertAll (s : Store) (cs : List Clause) : Store := cs.foldl (fun s c => (s.assert c).2) s

/-- The store with clauses retracted in order. -/
def retractAll (s : Store) (cs : List Clause) : Store := cs.foldl (fun s c => (s.retract c).2) s

variable {s : Store} {cs : List Clause}

theorem Distinct.assertAll (hs : s.Distinct) (cs : List Clause) : (s.assertAll cs).Distinct := by
  induction cs generalizing s with
  | nil => exact hs
  | cons c cs ih => exact ih (hs.assert c)

theorem Reachable.assertAll (hs : s.Reachable) (cs : List Clause) : (s.assertAll cs).Reachable := by
  induction cs generalizing s with
  | nil => exact hs
  | cons c cs ih => exact ih (hs.assert c)

theorem hasVariant_assertAll (hcs : ∀ c ∈ cs, c.head.negated = false) (s : Store) (d : Clause) :
    (s.assertAll cs).hasVariant d = (s.hasVariant d || cs.any fun c => c.isVariant d) := by
  induction cs generalizing s with
  | nil => exact (Bool.or_false _).symm
  | cons c cs ih =>
    obtain ⟨hc, hcs⟩ := List.forall_mem_cons.1 hcs
    show ((s.assert c).2.assertAll cs).hasVariant d = _
    rw [ih hcs, hasVariant_assert hc, List.any_cons, Bool.or_assoc]

theorem Distinct.hasVariant_retractAll (hs : s.Distinct) (cs : List Clause) (d : Clause) :
    (s.retractAll cs).hasVariant d = (s.hasVariant d && !cs.any fun c => c.isVariant d) := by
  induction cs generalizing s with
  | nil => exact (Bool.and_true _).symm
  | cons c cs ih =>
    show ((s.retract c).2.retractAll cs).hasVariant d = _
    rw [ih (hs.retract c), hs.hasVariant_retract, List.any_cons, Bool.not_or, Bool.and_assoc]

/-- Clauses that are not retracted stay, in their order. -/
theorem Distinct.sublist_retractAll (hs : s.Distinct) {kept : List Clause}
    (hk : kept.Sublist s.clauses) (h : ∀ k ∈ kept, ∀ c ∈ cs, c.isVariant k = false) :
    kept.Sublist (s.retractAll cs).clauses := by
  induction cs generalizing s with
  | nil => exact hk
  | cons c cs ih =>
    refine ih (hs.retract c) ?_ fun k hkm d hd => h k hkm d (List.mem_cons_of_mem _ hd)
    exact hs.sublist_retract hk fun k hkm => h k hkm c List.mem_cons_self

theorem sublist_assertAll (s : Store) (cs : List Clause) :
    s.clauses.Sublist (s.assertAll cs).clauses := by
  induction cs generalizing s with
  | nil => exact .refl _
  | cons c cs ih => exact (sublist_assert s c).trans (ih _)

end Store

/-! ### Directives -/

namespace Directive

/-- The effect of the directive, if its command names one. -/
def effect? (d : Directive) : Option Effect := Effect.ofCommand? d.command

/-- The command of the directive is known. -/
def isKnown (d : Directive) : Bool := d.effect?.isSome

/-- What the directive does to a store. -/
def change (d : Directive) (s : Store) : Store :=
  match d.effect? with
  | some .assert => (s.assert d.fact).2
  | some .retract => (s.retract d.fact).2
  | none => s

/-- What directives do to a store, one after the other. -/
def changeAll (ds : List Directive) (s : Store) : Store := ds.foldl (fun s d => d.change s) s

/-- The last directive about a clause. -/
def lastAbout (ds : List Directive) (c : Clause) : Option Directive :=
  ds.reverse.find? fun d => d.fact.isVariant c

/-- The outcome of carrying out directives: it ends with the first unknown command. -/
def outcome (ds : List Directive) : Except Failure Unit :=
  match ds.find? fun d => !d.isKnown with
  | some d => .error (.unknownCommand d.command)
  | none => .ok ()

variable {s : Store} {d : Directive} {ds : List Directive}

theorem change_of_unknown (hd : d.isKnown = false) (s : Store) : d.change s = s := by
  unfold isKnown at hd
  unfold change
  rw [Option.isSome_eq_false_iff, Option.isNone_iff_eq_none] at hd
  rw [hd]

theorem outcome_cons_unknown (hd : d.isKnown = false) (ds : List Directive) :
    outcome (d :: ds) = .error (.unknownCommand d.command) := by
  unfold outcome
  rw [List.find?_cons_of_pos (by simp [hd])]

theorem outcome_cons_known (hd : d.isKnown = true) (ds : List Directive) :
    outcome (d :: ds) = outcome ds := by
  unfold outcome
  rw [List.find?_cons_of_neg (by simp [hd])]

theorem lastAbout_cons (d : Directive) (ds : List Directive) (c : Clause) :
    lastAbout (d :: ds) c =
      (lastAbout ds c).or (if d.fact.isVariant c = true then some d else none) := by
  unfold lastAbout
  rw [List.reverse_cons, List.find?_append, List.find?_singleton]

theorem distinct_change (hs : s.Distinct) (d : Directive) : (d.change s).Distinct := by
  unfold change
  split
  · exact hs.assert _
  · exact hs.retract _
  · exact hs

theorem distinct_changeAll (hs : s.Distinct) (ds : List Directive) : (changeAll ds s).Distinct := by
  induction ds generalizing s with
  | nil => exact hs
  | cons d ds ih => exact ih (distinct_change hs d)

/-- A known directive decides on its own fact, and on nothing else. -/
theorem hasVariant_change (hs : s.Distinct) (hd : d.isKnown = true) (c : Clause) :
    (d.change s).hasVariant c =
      if d.fact.isVariant c = true then d.effect? == some .assert else s.hasVariant c := by
  unfold isKnown at hd
  unfold change
  cases he : d.effect? with
  | none => rw [he] at hd; cases hd
  | some e =>
    cases e with
    | assert =>
      simp only []
      rw [Store.hasVariant_assert rfl]
      cases d.fact.isVariant c <;> simp
    | retract =>
      simp only []
      rw [hs.hasVariant_retract]
      cases d.fact.isVariant c <;> simp

/-- **The last directive about a clause decides whether it is there.** -/
theorem hasVariant_changeAll (hs : s.Distinct) (hds : ∀ d ∈ ds, d.isKnown = true) (c : Clause) :
    (changeAll ds s).hasVariant c =
      match lastAbout ds c with
      | some d => d.effect? == some .assert
      | none => s.hasVariant c := by
  induction ds generalizing s with
  | nil => rfl
  | cons d ds ih =>
    obtain ⟨hd, hds⟩ := List.forall_mem_cons.1 hds
    show (changeAll ds (d.change s)).hasVariant c = _
    rw [ih (distinct_change hs d) hds, lastAbout_cons, hasVariant_change hs hd]
    cases lastAbout ds c with
    | some e => rfl
    | none => by_cases hc : d.fact.isVariant c = true <;> simp [hc]

/-- Clauses that no directive retracts stay, in their order. -/
theorem sublist_changeAll (hs : s.Distinct) {kept : List Clause} (hk : kept.Sublist s.clauses)
    (h : ∀ k ∈ kept, ∀ d ∈ ds, d.effect? = some .retract → d.fact.isVariant k = false) :
    kept.Sublist (changeAll ds s).clauses := by
  induction ds generalizing s with
  | nil => exact hk
  | cons d ds ih =>
    have hd : kept.Sublist (d.change s).clauses := by
      unfold change
      split
      · exact hk.trans (Store.sublist_assert _ _)
      · rename_i he
        exact hs.sublist_retract hk fun k hkm => h k hkm d List.mem_cons_self he
      · exact hk
    exact ih (distinct_change hs d) hd fun k hkm e he => h k hkm e (List.mem_cons_of_mem _ he)

end Directive

/-! ### The steps of a session -/

/-- The directives that are derivable in a store, in the order of their numbers of arguments. -/
def Store.directives (s : Store) : Except Failure (List Directive) :=
  ((Act.directives Store.engine).runIn ⟨s, 0, 0⟩).1

theorem negated_of_mem_literals {sts : List Statement} {k : Nat} {l : Literal}
    (h : l ∈ (Statement.literals sts k).1) : ∃ st ∈ sts, l.negated = st.negated := by
  induction sts generalizing k with
  | nil => cases h
  | cons st sts ih =>
    rcases List.mem_cons.1 h with rfl | h
    · exact ⟨st, by simp, rfl⟩
    · obtain ⟨u, hu, he⟩ := ih h
      exact ⟨u, List.mem_cons_of_mem _ hu, he⟩

/-- No head of a clause of a line is denied. -/
theorem Line.negated_of_mem_clauses {l : Line} (hl : l.headsPositive = true) {n : Nat} {c : Clause}
    (hc : c ∈ (l.clauses n).1) : c.head.negated = false := by
  cases l with
  | claim st =>
    rw [List.mem_singleton.1 hc]
    exact (Bool.not_eq_true' _).mp hl
  | rule head body =>
    rw [List.mem_singleton.1 hc]
    exact (Bool.not_eq_true' _).mp hl
  | conjunction sts =>
    obtain ⟨l, hlm, rfl⟩ := List.mem_map.1 hc
    obtain ⟨st, hst, he⟩ := negated_of_mem_literals hlm
    exact he.trans ((Bool.not_eq_true' _).mp (List.all_eq_true.1 hl st hst))

namespace Act

variable {σ α β : Type}

theorem runIn_throw (f : Failure) (S : Session σ) :
    (throw f : Act σ α).runIn S = (.error f, S) := rfl

/-- The clauses of a text, and the session with their nameless variables counted. -/
theorem runIn_clausesOf (text : String) (S : Session σ) : (clausesOf text).runIn S =
    match Line.read text with
    | .error m => (.error (.misreading m), S)
    | .ok l =>
      if l.headsPositive = true then
        (.ok (l.clauses S.anonymous).1, { S with anonymous := (l.clauses S.anonymous).2 })
      else (.error (.deniedClause text), S) := by
  unfold clausesOf readLine
  rw [runIn_bind, runIn_ofExcept]
  cases Line.read text with
  | error m => rfl
  | ok l =>
    simp only [Except.mapError]
    split_ifs
    · exact runIn_numbering _ _
    · exact runIn_throw _ _

theorem engine_clausesOf (text : String) (S : Session σ) :
    ((clausesOf text).runIn S).2.engine = S.engine := by
  rw [runIn_clausesOf]
  split
  · rfl
  · split_ifs <;> rfl

theorem negated_of_clausesOf {text : String} {S : Session σ} {cs : List Clause}
    (h : ((clausesOf text).runIn S).1 = .ok cs) : ∀ c ∈ cs, c.head.negated = false := by
  rw [runIn_clausesOf] at h
  split at h
  · cases h
  · split_ifs at h with hl
    · cases h
      exact fun c hc => Line.negated_of_mem_clauses hl hc

/-- The step only looks at the engine, and its outcome depends on nothing else. -/
def Looks (x : Act Store α) : Prop :=
  ∀ S T : Session Store, T.engine = S.engine → x.runIn S = ((x.runIn T).1, S)

theorem Looks.pure (a : α) : Looks (Pure.pure a) := fun _ _ _ => rfl

theorem Looks.bind {x : Act Store α} {f : α → Act Store β} (hx : Looks x) (hf : ∀ a, Looks (f a)) :
    Looks (x >>= f) := by
  intro S T h
  rw [runIn_bind, runIn_bind, hx S T h, hx T T rfl]
  cases (x.runIn T).1 with
  | error e => rfl
  | ok a => exact hf a S T h

theorem looks_collect (l : Literal) (visible : List String) (limit : Option Nat) (query : String) :
    Looks (collect Store.engine l visible limit query) := by
  intro S T h
  rw [runIn_collect, runIn_collect, h]

theorem looks_directivesFor (ns : List Nat) : Looks (directivesFor Store.engine ns) := by
  induction ns with
  | nil => exact .pure _
  | cons n ns ih =>
    exact ((looks_collect _ _ _ _).bind fun _ => .pure _).bind fun _ => ih.bind fun _ => .pure _

theorem runIn_directives (S : Session Store) :
    (directives Store.engine).runIn S = (S.engine.directives, S) :=
  looks_directivesFor _ S ⟨S.engine, 0, 0⟩ rfl

theorem runIn_assertAll {cs : List Clause} (hcs : ∀ c ∈ cs, c.head.negated = false)
    (S : Session Store) : (assertAll Store.engine cs).runIn S =
      (.ok (.ok ()), { S with engine := S.engine.assertAll cs }) := by
  induction cs generalizing S with
  | nil => rfl
  | cons c cs ih =>
    obtain ⟨hc, hcs⟩ := List.forall_mem_cons.1 hcs
    unfold assertAll
    simp only [runIn_bind, runIn_call, Store.engine, Store.assert_fst hc]
    exact ih hcs _

theorem runIn_retractAll (cs : List Clause) (S : Session Store) :
    (retractAll Store.engine cs).runIn S =
      (.ok (.ok ()), { S with engine := S.engine.retractAll cs }) := by
  induction cs generalizing S with
  | nil => rfl
  | cons c cs ih =>
    unfold retractAll
    simp only [runIn_bind, runIn_call, Store.engine]
    exact ih _

/-- A known directive is carried out; an unknown one changes nothing. -/
theorem runIn_dispatch (d : Directive) (S : Session Store) : (dispatch Store.engine d).runIn S =
    (if d.isKnown = true then .ok () else .error (.unknownCommand d.command),
      { S with engine := d.change S.engine }) := by
  unfold dispatch effectOf Directive.change Directive.isKnown Directive.effect?
  cases Effect.ofCommand? d.command with
  | none => rfl
  | some e =>
    cases e with
    | assert =>
      have hok : (S.engine.assert d.fact).1 = .ok () := Store.assert_fst rfl _
      simp only [runIn_bind, runIn_pure, runIn_call, runIn_orFail, Store.engine, hok]
      rfl
    | retract => rfl

/-- **Directives are carried out up to the first unknown one.** -/
theorem runIn_dispatchAll (ds : List Directive) (S : Session Store) :
    (dispatchAll Store.engine ds).runIn S =
      (Directive.outcome ds,
        { S with engine := Directive.changeAll (ds.takeWhile Directive.isKnown) S.engine }) := by
  induction ds generalizing S with
  | nil => rfl
  | cons d ds ih =>
    unfold dispatchAll
    rw [runIn_bind, runIn_dispatch]
    cases hd : d.isKnown with
    | false =>
      rw [List.takeWhile_cons_of_neg (by simp [hd]), Directive.outcome_cons_unknown hd ds,
        if_neg (by decide), Directive.change_of_unknown hd]
      rfl
    | true =>
      rw [List.takeWhile_cons_of_pos hd, Directive.outcome_cons_known hd, if_pos rfl]
      exact ih _

theorem runIn_dispatchNew (before : List Directive) (S : Session Store) :
    (dispatchNew Store.engine before).runIn S =
      match S.engine.directives with
      | .error f => (.error f, S)
      | .ok after =>
        let new := after.filter fun d => !before.contains d
        ((Directive.outcome new).map fun _ => new, { S with
          engine := Directive.changeAll (new.takeWhile Directive.isKnown) S.engine }) := by
  unfold dispatchNew
  rw [runIn_bind, runIn_directives]
  cases S.engine.directives with
  | error f => rfl
  | ok after =>
    simp only []
    rw [runIn_bind, runIn_dispatchAll]
    cases Directive.outcome (after.filter fun d => !before.contains d) <;> rfl

/-- **What performing does.** -/
theorem runIn_perform (text : String) (S : Session Store) : (perform Store.engine text).runIn S =
    match (clausesOf text).runIn S with
    | (.error f, T) => (.error f, T)
    | (.ok action, T) =>
      match S.engine.directives with
      | .error f => (.error f, T)
      | .ok before =>
        let (r, U) := (dispatchNew Store.engine before).runIn
          { T with engine := S.engine.assertAll action }
        (r, { U with engine := U.engine.retractAll action }) := by
  unfold perform
  rw [runIn_bind]
  have hengine := engine_clausesOf text S
  have hpos : ∀ cs, ((clausesOf text).runIn S).1 = .ok cs → ∀ c ∈ cs, c.head.negated = false :=
    fun cs h => negated_of_clausesOf h
  generalize (clausesOf text).runIn S = p at hengine hpos
  obtain ⟨r, T⟩ := p
  cases r with
  | error f => rfl
  | ok action =>
    simp only []
    rw [runIn_bind, runIn_directives, hengine]
    cases S.engine.directives with
    | error f => rfl
    | ok before =>
      simp only []
      rw [runIn_bind, runIn_assertAll (hpos _ rfl), hengine]
      simp only [runIn_outcome, runIn_bind, runIn_retractAll, runIn_orFail, runIn_ofExcept,
        Except.mapError]

end Act
end PassageLogic
