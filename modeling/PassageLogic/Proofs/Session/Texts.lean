import PassageLogic.Proofs.Session.Performing
import PassageLogic.Proofs.Session.Renumbering
import PassageLogic.Proofs.Logic.CanonicalForms

/-! # Storing and removing a text

To assert a text adds those of its clauses that rename no clause before them (`assertAll_eq`), and to
retract it takes away all clauses that rename one of its own (`Distinct.clauses_retractAll`). Each call
numbers the nameless variables of the text anew, which renames its clauses (`Line.clauses_renumbered`),
so that the text is known again at the next call. A text that cannot be read or that denies a head
changes nothing (`assertText_exact`). -/

namespace PassageLogic

namespace Clause

/-- The clauses of a list that rename none before them: none that is known, and none that comes earlier
in the list. -/
def newAmong : List Clause → List Clause → List Clause
  | _, [] => []
  | known, c :: cs =>
    if ∃ d ∈ known, d.Renames c then newAmong (c :: known) cs else c :: newAmong (c :: known) cs

variable {c : Clause} {known : List Clause}

theorem newAmong_of_known (h : ∃ d ∈ known, d.Renames c) (cs : List Clause) :
    newAmong known (c :: cs) = newAmong (c :: known) cs := if_pos h

theorem newAmong_of_new (h : ¬ ∃ d ∈ known, d.Renames c) (cs : List Clause) :
    newAmong known (c :: cs) = c :: newAmong (c :: known) cs := if_neg h

theorem newAmong_subset (known cs : List Clause) : newAmong known cs ⊆ cs := by
  induction cs generalizing known with
  | nil => exact List.Subset.refl _
  | cons c cs ih =>
    by_cases h : ∃ d ∈ known, d.Renames c
    · rw [newAmong_of_known h]
      exact List.subset_cons_of_subset _ (ih _)
    · rw [newAmong_of_new h]
      exact List.cons_subset_cons _ (ih _)

end Clause

/-! ### Series of clauses -/

namespace Store

variable {s : Store} {cs : List Clause}

/-- **What a series of assertions adds**, if the known clauses are those of the store. -/
theorem assertAll_eq (hcs : ∀ c ∈ cs, c.head.negated = false) {known : List Clause}
    (hk : ∀ c, s.hasVariant c = true ↔ ∃ d ∈ known, d.Renames c) :
    s.assertAll cs = { s with clauses := s.clauses ++ Clause.newAmong known cs } := by
  induction cs generalizing s known with
  | nil => exact ext rfl (List.append_nil _).symm
  | cons c cs ih =>
    obtain ⟨hc, hcs⟩ := List.forall_mem_cons.1 hcs
    have hk' : ∀ e, (s.assert c).2.hasVariant e = true ↔ ∃ d ∈ c :: known, d.Renames e := by
      intro e
      rw [hasVariant_assert hc, Bool.or_eq_true, hk, Clause.isVariant_iff_renames,
        List.exists_mem_cons_iff, or_comm]
    show (s.assert c).2.assertAll cs = _
    rw [ih hcs hk']
    unfold Store.assert
    rw [hc, if_neg (by decide)]
    by_cases h : s.hasVariant c = true
    · rw [if_pos h, Clause.newAmong_of_known ((hk c).1 h)]
    · rw [if_neg h, Clause.newAmong_of_new (mt (hk c).2 h)]
      exact ext rfl (List.append_assoc _ _ _)

/-- Clauses that are known add nothing. -/
theorem assertAll_of_hasVariant (h : ∀ c ∈ cs, s.hasVariant c = true) : s.assertAll cs = s := by
  induction cs with
  | nil => rfl
  | cons c cs ih =>
    obtain ⟨hc, hcs⟩ := List.forall_mem_cons.1 h
    have hself : (s.assert c).2 = s := by
      unfold Store.assert
      rw [if_pos hc]
      split_ifs <;> rfl
    show (s.assert c).2.assertAll cs = s
    rw [hself, ih hcs]

/-- **What a series of retractions takes away.** -/
theorem Distinct.clauses_retractAll (hs : s.Distinct) (cs : List Clause) :
    (s.retractAll cs).clauses = s.clauses.filter fun d => !cs.any fun c => c.isVariant d := by
  induction cs generalizing s with
  | nil => exact (List.filter_eq_self.2 fun _ _ => rfl).symm
  | cons c cs ih =>
    show ((s.retract c).2.retractAll cs).clauses = _
    rw [ih (hs.retract c), hs.clauses_retract, List.filter_filter]
    refine List.filter_congr fun d _ => ?_
    rw [List.any_cons, Bool.not_or, Bool.and_comm, Clause.isVariant_comm]

theorem limits_retractAll (s : Store) (cs : List Clause) : (s.retractAll cs).limits = s.limits := by
  induction cs generalizing s with
  | nil => rfl
  | cons c cs ih => exact ih (s.retract c).2

end Store

/-! ### The clauses of a text at each call -/

/-- Another numbering of the nameless variables renames the clauses of a line. -/
theorem Line.clauses_renumbered {l : Line} (h : ∀ st ∈ l.statements, st.Ordinary) (k d : Nat) :
    (l.clauses (k + d)).1 =
      (l.clauses k).1.map (Clause.mapVars (shiftNames anonymousName d)) := by
  cases l with
  | claim st =>
    simp only [Line.clauses, literal_renumbered (h st List.mem_cons_self)]
    rfl
  | rule head body =>
    obtain ⟨hhead, hbody⟩ := List.forall_mem_cons.1 h
    simp only [Line.clauses, literals_renumbered hbody, literal_renumbered hhead]
    rfl
  | conjunction sts =>
    have h : ∀ st ∈ sts, st.Ordinary := h
    simp only [Line.clauses, literals_renumbered h, List.map_map]
    rfl

/-- The same clauses are variants of one of the clauses of a line, however these are numbered. -/
theorem Line.any_isVariant_clauses {l : Line} (h : ∀ st ∈ l.statements, st.Ordinary) (k m : Nat)
    (e : Clause) : ((l.clauses k).1.any fun c => c.isVariant e) =
      (l.clauses m).1.any fun c => c.isVariant e := by
  have hshift : ∀ k d, ((l.clauses (k + d)).1.any fun c => c.isVariant e) =
      (l.clauses k).1.any fun c => c.isVariant e := by
    intro k d
    rw [clauses_renumbered h, List.any_map]
    refine List.any_congr rfl fun c => ?_
    show ((c.mapVars _).canonical == e.canonical) = (c.canonical == e.canonical)
    rw [Clause.canonical_mapVars (shiftNames_injective anonymousName_injective).injOn]
  rcases Nat.le_total k m with hle | hle
  · rw [← Nat.add_sub_cancel' hle, hshift]
  · rw [← Nat.add_sub_cancel' hle, hshift]

namespace Act

variable {text : String} {S : Session Store} {cs : List Clause}

/-- The values in the clauses of a text are texts. -/
theorem proper_clausesOf (h : ((clausesOf text).runIn S).1 = .ok cs) :
    ∀ c ∈ cs, c.Proper Value.Equal := by
  rw [runIn_clausesOf] at h
  split at h
  · cases h
  · split_ifs at h
    · cases h
      exact Line.proper_clauses _ _

/-- A text has clauses at every call if it has them at one, and the same ones up to their names. -/
theorem clausesOf_renumbered (h : ((clausesOf text).runIn S).1 = .ok cs) (T : Session Store) :
    ∃ ds, ((clausesOf text).runIn T).1 = .ok ds ∧
      ∀ e, (ds.any fun c => c.isVariant e) = cs.any fun c => c.isVariant e := by
  rw [runIn_clausesOf] at h ⊢
  cases hread : Line.read text with
  | error m =>
    rw [hread] at h
    cases h
  | ok l =>
    rw [hread] at h
    simp only [] at h ⊢
    split_ifs at h ⊢
    cases h
    have hord : ∀ st ∈ l.statements, st.Ordinary := fun st hst =>
      Statement.FromText.ordinary ⟨text, l, hread, hst⟩
    exact ⟨_, rfl, Line.any_isVariant_clauses hord _ _⟩

theorem runIn_assertText (text : String) (S : Session Store) :
    (assertText Store.engine text).runIn S =
      match (clausesOf text).runIn S with
      | (.error f, T) => (.error f, T)
      | (.ok cs, T) => (.ok (), { T with engine := S.engine.assertAll cs }) := by
  unfold assertText
  rw [runIn_bind]
  have hengine := engine_clausesOf text S
  have hpos : ∀ cs, ((clausesOf text).runIn S).1 = .ok cs → ∀ c ∈ cs, c.head.negated = false :=
    fun cs h => negated_of_clausesOf h
  generalize (clausesOf text).runIn S = p at hengine hpos
  obtain ⟨r, T⟩ := p
  cases r with
  | error f => rfl
  | ok cs =>
    simp only []
    rw [runIn_bind, runIn_assertAll (hpos cs rfl), hengine]
    rfl

theorem runIn_retractText (text : String) (S : Session Store) :
    (retractText Store.engine text).runIn S =
      match (clausesOf text).runIn S with
      | (.error f, T) => (.error f, T)
      | (.ok cs, T) => (.ok (), { T with engine := S.engine.retractAll cs }) := by
  unfold retractText
  rw [runIn_bind]
  have hengine := engine_clausesOf text S
  generalize (clausesOf text).runIn S = p at hengine
  obtain ⟨r, T⟩ := p
  cases r with
  | error f => rfl
  | ok cs =>
    simp only []
    rw [runIn_bind, runIn_retractAll, hengine]
    rfl

theorem runIn_assertText_ok (h : ((clausesOf text).runIn S).1 = .ok cs) :
    ∃ U, (assertText Store.engine text).runIn S = (.ok (), U) ∧
      U.engine = S.engine.assertAll cs := by
  rw [runIn_assertText]
  generalize (clausesOf text).runIn S = p at h
  obtain ⟨r, T⟩ := p
  cases h
  exact ⟨_, rfl, rfl⟩

theorem runIn_retractText_ok (h : ((clausesOf text).runIn S).1 = .ok cs) :
    ∃ U, (retractText Store.engine text).runIn S = (.ok (), U) ∧
      U.engine = S.engine.retractAll cs := by
  rw [runIn_retractText]
  generalize (clausesOf text).runIn S = p at h
  obtain ⟨r, T⟩ := p
  cases h
  exact ⟨_, rfl, rfl⟩

end Act

/-! ### Texts -/

/-- What becomes of a session when a text is asserted that has these clauses, and is then asserted again
or retracted, wherever the numbering of nameless variables stands by then. -/
structure Session.Stores (S : Session Store) (text : String) (cs : List Clause)
    (T : Session Store) : Prop where
  /-- The clauses that rename none before them come after those of the store, in their order. -/
  added : T.engine =
    { S.engine with clauses := S.engine.clauses ++ Clause.newAmong S.engine.clauses cs }
  /-- To assert the text again succeeds and changes nothing. -/
  again : ∀ n, ∃ U,
    (Act.assertText Store.engine text).runIn { T with anonymous := n } = (.ok (), U) ∧
      U.engine = T.engine
  /-- To retract the text leaves the clauses of before that rename none of its own, in their order. -/
  removed : ∀ n, ∃ U,
    (Act.retractText Store.engine text).runIn { T with anonymous := n } = (.ok (), U) ∧
      U.engine = { S.engine with
        clauses := S.engine.clauses.filter fun d => ∀ c ∈ cs, ¬ c.Renames d }
  /-- If the store had none of the clauses, it is as it was. -/
  restored : (∀ c ∈ cs, ∀ d ∈ S.engine.clauses, ¬ c.Renames d) → ∀ n,
    ((Act.retractText Store.engine text).runIn { T with anonymous := n }).2.engine = S.engine

namespace Session

variable {S T : Session Store} {text : String} {cs : List Clause}

/-- To retract the clauses of a text after they were asserted leaves what renames none of them. -/
theorem clauses_filter_added (S : Session Store) (hcs : ∀ c ∈ cs, c.Proper Value.Equal) :
    ((S.engine.clauses ++ Clause.newAmong S.engine.clauses cs).filter
      fun d => !cs.any fun c => c.isVariant d) =
      S.engine.clauses.filter fun d => ∀ c ∈ cs, ¬ c.Renames d := by
  have hnew : (Clause.newAmong S.engine.clauses cs).filter
      (fun d => !cs.any fun c => c.isVariant d) = [] := by
    refine List.filter_eq_nil_iff.2 fun d hd => ?_
    have hd := Clause.newAmong_subset _ _ hd
    rw [Clause.any_isVariant_of_mem hd (Clause.isVariant_self_iff.2 (hcs d hd))]
    decide
  rw [List.filter_append, hnew, List.append_nil]
  refine List.filter_congr fun d _ => ?_
  rw [Bool.eq_iff_iff, Bool.not_eq_true', List.any_eq_false, decide_eq_true_iff]
  simp only [Clause.isVariant_iff_renames]

/-- **What an asserted text leaves**, and what it leaves when it is asserted again or retracted. -/
theorem stores_of_assertText (hS : S.engine.Reachable)
    (hcs : ((Act.clausesOf text).runIn S).1 = .ok cs) (hT : T.engine = S.engine.assertAll cs) :
    S.Stores text cs T := by
  have hpos := Act.negated_of_clausesOf hcs
  have hadded : T.engine =
      { S.engine with clauses := S.engine.clauses ++ Clause.newAmong S.engine.clauses cs } := by
    rw [hT]
    refine Store.assertAll_eq hpos fun c => ?_
    simp only [Store.hasVariant_iff, Clause.isVariant_iff_renames]
  have hremoved : ∀ n, ∃ U,
      (Act.retractText Store.engine text).runIn { T with anonymous := n } = (.ok (), U) ∧
        U.engine = { S.engine with
          clauses := S.engine.clauses.filter fun d => ∀ c ∈ cs, ¬ c.Renames d } := by
    intro n
    obtain ⟨ds, hds, hany⟩ := Act.clausesOf_renumbered hcs { T with anonymous := n }
    obtain ⟨U, hrun, hU⟩ := Act.runIn_retractText_ok hds
    have hdistinct : T.engine.Distinct := hT ▸ hS.distinct.assertAll cs
    refine ⟨U, hrun, hU.trans (Store.ext ?_ ?_)⟩
    · show (T.engine.retractAll ds).limits = _
      rw [Store.limits_retractAll, hadded]
    · show (T.engine.retractAll ds).clauses = _
      rw [hdistinct.clauses_retractAll, ← S.clauses_filter_added (Act.proper_clausesOf hcs), hadded]
      simp only [hany]
  refine ⟨hadded, fun n => ?_, hremoved, fun hnone n => ?_⟩
  · obtain ⟨ds, hds, hany⟩ := Act.clausesOf_renumbered hcs { T with anonymous := n }
    have hknown : ∀ d ∈ ds, T.engine.hasVariant d = true := by
      intro d hd
      have hself := Clause.isVariant_self_iff.2 (Act.proper_clausesOf hds d hd)
      rw [hT, Store.hasVariant_assertAll hpos, ← hany, Clause.any_isVariant_of_mem hd hself,
        Bool.or_true]
    obtain ⟨U, hrun, hU⟩ := Act.runIn_assertText_ok hds
    exact ⟨U, hrun, hU.trans (Store.assertAll_of_hasVariant hknown)⟩
  · obtain ⟨U, hrun, hU⟩ := hremoved n
    rw [hrun]
    refine hU.trans (Store.ext rfl (List.filter_eq_self.2 fun d hd => decide_eq_true ?_))
    exact fun c hc => hnone c hc d hd

/-- **Asserting and retracting a text is exact and all or nothing.** A text that is not asserted or not
retracted leaves the store as it was. An asserted text adds its clauses that rename none before them;
to assert it again adds nothing, and to retract it takes away exactly what renames its clauses, under
whatever names its nameless variables have by then. -/
theorem assertText_exact (hS : S.engine.Reachable) (text : String) :
    (∀ f T, (Act.assertText Store.engine text).runIn S = (.error f, T) → T.engine = S.engine) ∧
      (∀ f T, (Act.retractText Store.engine text).runIn S = (.error f, T) → T.engine = S.engine) ∧
      ∀ T, (Act.assertText Store.engine text).runIn S = (.ok (), T) →
        ∃ cs, ((Act.clausesOf text).runIn S).1 = .ok cs ∧ S.Stores text cs T := by
  have hengine := Act.engine_clausesOf text S
  have hstores : ∀ cs T, ((Act.clausesOf text).runIn S).1 = .ok cs →
      T.engine = S.engine.assertAll cs → S.Stores text cs T := fun cs T =>
    stores_of_assertText hS
  rw [Act.runIn_assertText, Act.runIn_retractText]
  generalize (Act.clausesOf text).runIn S = p at hengine hstores
  obtain ⟨r, U⟩ := p
  cases r with
  | error f =>
    refine ⟨fun g T hT => ?_, fun g T hT => ?_, fun T hT => ?_⟩
    · cases hT
      exact hengine
    · cases hT
      exact hengine
    · cases hT
  | ok cs =>
    refine ⟨fun g T hT => ?_, fun g T hT => ?_, fun T hT => ⟨cs, rfl, hstores cs T rfl ?_⟩⟩
    · cases hT
    · cases hT
    · cases hT
      rfl

/-- A store that knows who likes pizza, and one who is hungry. -/
def pantryStore : Store where
  limits := { depth := 4, answers := 10 }
  clauses := [.fact (.of "likes % %" [.var "who", .const (.text "pizza")]),
    .fact (.of "hungry %" [.const (.text "sam")])]

/-- Four facts, the first of which the store has and the third of which repeats the second. -/
def pantryText : String := "likes () \"pizza\", hungry (x), hungry (), likes \"alex\" \"soup\""

theorem assertText_exact_pantry : pantryStore.Reachable ∧
    ∃ T, (Act.assertText Store.engine pantryText).runIn ⟨pantryStore, 0, 0⟩ = (.ok (), T) ∧
      T.engine.clauses = pantryStore.clauses ++ [.fact (.of "hungry %" [.var "x"]),
        .fact (.of "likes % %" [.const (.text "alex"), .const (.text "soup")])] ∧
      ((Act.retractText Store.engine pantryText).runIn T).2.engine.clauses =
        [.fact (.of "hungry %" [.const (.text "sam")])] := by
  have hreach : pantryStore.Reachable := by
    have hstore : (Store.empty ⟨4, 10⟩).assertAll pantryStore.clauses = pantryStore := by rfl
    exact hstore ▸ (Store.Reachable.empty _).assertAll _
  have hok : ((Act.assertText Store.engine pantryText).runIn ⟨pantryStore, 0, 0⟩).1 = .ok () := by
    decide +kernel
  obtain ⟨T, hT⟩ : ∃ T,
      (Act.assertText Store.engine pantryText).runIn ⟨pantryStore, 0, 0⟩ = (.ok (), T) :=
    ⟨_, Prod.ext hok rfl⟩
  obtain ⟨-, -, hstored⟩ := assertText_exact (S := ⟨pantryStore, 0, 0⟩) hreach pantryText
  obtain ⟨cs, hcs, hstores⟩ := hstored T hT
  have hclauses : ((Act.clausesOf pantryText).runIn (⟨pantryStore, 0, 0⟩ : Session Store)).1 =
      .ok [.fact (.of "likes % %" [.var "(anon0)", .const (.text "pizza")]),
        .fact (.of "hungry %" [.var "x"]), .fact (.of "hungry %" [.var "(anon1)"]),
        .fact (.of "likes % %" [.const (.text "alex"), .const (.text "soup")])] := by
    decide +kernel
  rw [hclauses] at hcs
  cases hcs
  refine ⟨hreach, T, hT, ?_, ?_⟩
  · rw [hstores.added]
    decide +kernel
  · obtain ⟨U, hrun, hU⟩ := hstores.removed T.anonymous
    have hrun : (Act.retractText Store.engine pantryText).runIn T = (.ok (), U) := hrun
    rw [hrun, hU]
    decide +kernel

end Session
end PassageLogic
