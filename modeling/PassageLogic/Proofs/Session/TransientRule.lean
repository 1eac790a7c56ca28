import PassageLogic.Proofs.Logic.Relevance
import PassageLogic.Proofs.Session.Asking
import PassageLogic.Proofs.Session.Numbering
import PassageLogic.Proofs.Statement.Grammatical

/-! # The use of a transient rule

The head of a transient rule lists the named variables of the statements, and no other clause mentions
its predicate. So the head is asked by one use of the rule: the unifier of the heads links every
variable of the query to the variable of the use (`Links`), and then the statements are searched for
(`run_rule`).

* `Conjoined.answers`: the answers to a conjunction are what the solutions of this search give the
  visible names, each once. -/

namespace PassageLogic

/-! ### Linked variables -/

/-- The names are bound to themselves with the mark of the first use, and no other names are. -/
structure Links (visible : List String) (s : Substitution) : Prop where
  no_hash : ∀ x ∈ visible, '#' ∉ x.toList
  lookup : ∀ x, s.lookup x =
    if x ∈ visible then some (.var (Clause.useName 1 x)) else none

theorem ne_useName_of_no_hash {x : String} (hx : '#' ∉ x.toList) (n : Nat) (y : String) :
    x ≠ Clause.useName n y := by
  rintro rfl
  rw [toList_useName] at hx
  exact hx (List.mem_append_right _ List.mem_cons_self)

namespace Substitution

theorem unify_unbound {s : Substitution} {x y : String} (hs : s.Acyclic) (hx : s.lookup x = none)
    (hy : s.lookup y = none) (hne : x ≠ y) :
    s.unify (.var x) (.var y) = some ((x, .var y) :: s) := by
  unfold unify
  rw [walk_unbound hs hx, walk_unbound hs hy]
  exact if_neg hne

/-- Names are unified with their marked names, one after the other. -/
theorem unifyAll_marked {names : List String} {s : Substitution} (hs : s.Acyclic)
    (hnd : names.Nodup) (hno : ∀ x ∈ names, '#' ∉ x.toList)
    (hfree : ∀ x ∈ names, s.lookup x = none ∧ s.lookup (Clause.useName 1 x) = none) :
    ∃ t, s.unifyAll (names.map Term.var) (names.map fun x => .var (Clause.useName 1 x)) = some t ∧
      ∀ x, t.lookup x = if x ∈ names then some (.var (Clause.useName 1 x)) else s.lookup x := by
  induction names generalizing s with
  | nil => exact ⟨s, rfl, by simp⟩
  | cons y names ih =>
    obtain ⟨hy, hnd⟩ := List.nodup_cons.1 hnd
    obtain ⟨hfy, hfy'⟩ := hfree y List.mem_cons_self
    have hne : y ≠ Clause.useName 1 y := ne_useName_of_no_hash (hno y List.mem_cons_self) 1 y
    have hbind := hs.bind hfy (unbound_var.2 hfy') fun h => hne (Term.var.inj h).symm
    have hfree' : ∀ x ∈ names, List.lookup x ((y, .var (Clause.useName 1 y)) :: s) = none ∧
        List.lookup (Clause.useName 1 x) ((y, .var (Clause.useName 1 y)) :: s) = none := by
      intro x hx
      obtain ⟨hfx, hfx'⟩ := hfree x (List.mem_cons_of_mem _ hx)
      have hxy : x ≠ y := by
        rintro rfl
        exact hy hx
      have hxy' : Clause.useName 1 x ≠ y := (ne_useName_of_no_hash (hno y List.mem_cons_self) 1 x).symm
      rw [lookup_cons_entry, if_neg hxy, lookup_cons_entry, if_neg hxy']
      exact ⟨hfx, hfx'⟩
    obtain ⟨t, ht, hlook⟩ := ih hbind hnd (fun x hx => hno x (List.mem_cons_of_mem _ hx)) hfree'
    refine ⟨t, ?_, fun x => ?_⟩
    · unfold unifyAll
      rw [List.map_cons, List.map_cons]
      simp only [unify_unbound hs hfy hfy' hne]
      exact ht
    · rw [hlook, lookup_cons_entry]
      by_cases hxy : x = y
      · subst hxy
        rw [if_neg hy, if_pos rfl, if_pos List.mem_cons_self]
      · rw [if_neg hxy]
        simp only [List.mem_cons, hxy, false_or]

end Substitution

theorem exists_links {visible : List String} (hnd : visible.Nodup)
    (hno : ∀ x ∈ visible, '#' ∉ x.toList) :
    ∃ s, Substitution.unifyAll [] (visible.map Term.var)
      (visible.map fun x => .var (Clause.useName 1 x)) = some s ∧ Links visible s := by
  obtain ⟨s, hs, hlook⟩ := Substitution.unifyAll_marked Substitution.acyclic_nil hnd hno
    fun _ _ => ⟨rfl, rfl⟩
  exact ⟨s, hs, hno, hlook⟩

namespace Links

variable {visible : List String} {s : Substitution}

theorem lookup_marked (h : Links visible s) (z : String) :
    s.lookup (Clause.useName 1 z) = none := by
  rw [h.lookup, if_neg]
  intro hz
  exact ne_useName_of_no_hash (h.no_hash _ hz) 1 z rfl

theorem acyclic (h : Links visible s) : s.Acyclic := by
  refine ⟨fun x => if x ∈ visible then 0 else 1, fun x y hxy => ?_⟩
  rw [h.lookup] at hxy
  split_ifs at hxy with hx
  cases hxy
  have hy : Clause.useName 1 x ∉ visible := fun hy =>
    ne_useName_of_no_hash (h.no_hash _ hy) 1 x rfl
  simp only [if_pos hx, if_neg hy]
  omega

theorem walk_marked (h : Links visible s) (z : String) :
    s.walk (.var (Clause.useName 1 z)) = .var (Clause.useName 1 z) :=
  Substitution.walk_unbound h.acyclic (h.lookup_marked z)

theorem walk_name (h : Links visible s) {x : String} (hx : x ∈ visible) :
    s.walk (.var x) = .var (Clause.useName 1 x) := by
  have hb : s.lookup x = some (.var (Clause.useName 1 x)) := by rw [h.lookup, if_pos hx]
  rw [Substitution.walk_bound h.acyclic hb, h.walk_marked]

theorem namesIn {p : String → Prop} (h : Links visible s)
    (hp : ∀ x ∈ visible, p x ∧ p (Clause.useName 1 x)) : s.NamesIn p := by
  intro name t hb
  rw [h.lookup] at hb
  split_ifs at hb with hx
  cases hb
  refine ⟨(hp name hx).1, ?_⟩
  rintro _ ⟨⟩
  exact (hp name hx).2

theorem namesIn_old (h : Links visible s) : s.NamesIn (Old 1) :=
  h.namesIn fun x hx => ⟨old_of_no_hash (h.no_hash x hx) 1, old_useName 1 x⟩

end Links

/-! ### The search for the head of the rule -/

namespace Search

theorem resolve_append {deeper : Solver} {goal : Literal} {rest : List Literal} {s : Substitution}
    {cs : List Clause} (h : ∀ c ∈ cs, c.head.samePredicate goal = false) (ds : List Clause)
    (want uses : Nat) : resolve deeper goal rest s (cs ++ ds) want uses =
      resolve deeper goal rest s ds want uses := by
  induction cs with
  | nil => rfl
  | cons c cs ih =>
    rw [List.cons_append, resolve_other (h c List.mem_cons_self)]
    exact ih fun d hd => h d (List.mem_cons_of_mem _ hd)

/-- **Asking for the head of a rule that no other clause mentions is a search for its body.** -/
theorem run_rule {clauses : List Clause} {rule : Clause} {s : Substitution}
    (hp : Unmentioned rule.head.predicate clauses) (hn : rule.head.negated = false)
    (he : rule.head.isEquality = false) (hb : ∀ l ∈ rule.body, l.predicate ≠ rule.head.predicate)
    (hu : Substitution.unifyAll [] rule.head.terms (rule.renamed 1).head.terms = some s)
    {want : Nat} (hw : want ≠ 0) (bound : Nat) :
    (run (clauses ++ [rule]) bound rule.head want).found =
        (solve clauses bound bound (rule.renamed 1).body s want 1).found ∧
      (run (clauses ++ [rule]) bound rule.head want).fault =
        (solve clauses bound bound (rule.renamed 1).body s want 1).fault := by
  have hskip : ∀ c ∈ clauses, c.head.samePredicate rule.head = false := fun c hc =>
    Clause.samePredicate_of_ne (hp c hc).1
  have hsame : rule.head.samePredicate rule.head = true := by
    unfold Literal.samePredicate
    rw [beq_self_eq_true, beq_self_eq_true]
    rfl
  have hbody : ∀ g ∈ (rule.renamed 1).body ++ [], g.predicate ≠ rule.head.predicate := by
    intro g hg
    rw [List.append_nil] at hg
    obtain ⟨l, hl, rfl⟩ := List.mem_map.1 hg
    exact hb l hl
  have ho : solve (clauses ++ [rule]) bound bound ((rule.renamed 1).body ++ []) s want 1 =
      solve clauses bound bound ((rule.renamed 1).body ++ []) s want 1 :=
    solve_added (fun c hc => (hp c hc).2) rfl bound hbody s want 1
  unfold run
  rw [solve_resolved hw hn he, resolve_append hskip]
  rw [List.append_nil (rule.renamed 1).body] at ho
  generalize solve clauses bound bound (rule.renamed 1).body s want 1 = o at ho
  rw [← List.append_nil (rule.renamed 1).body] at ho
  by_cases hend : o.fault ≠ none ∨ want ≤ o.found.length
  · rw [resolve_ended hsame hu ho hend]
    exact ⟨rfl, rfl⟩
  · rw [not_or, not_not, Nat.not_le] at hend
    rw [resolve_more hsame hu ho hend.1 hend.2 rfl]
    exact ⟨List.append_nil _, hend.1.symm⟩

end Search

/-! ### The rule of a conjunction -/

/-- The statement was read from a text, and its variables carry no marks. -/
structure Statement.Askable (st : Statement) : Prop where
  fromText : st.FromText
  no_hash : ∀ x ∈ st.vars, '#' ∉ x.toList

theorem Statement.Askable.isPlain {st : Statement} (h : st.Askable) : st.IsPlain := by
  intro name hn
  refine ⟨h.fromText.grammatical.names name hn, ?_⟩
  by_cases he : name = ""
  · rw [he]
    decide
  · exact h.no_hash name (Statement.mem_vars.2 ⟨hn, he⟩)

theorem isPlainName_of_mem_visibleNames {sts : List Statement} (h : ∀ st ∈ sts, st.Askable)
    {x : String} (hx : x ∈ Act.visibleNames sts) : IsPlainName x := by
  obtain ⟨st, hst, hx⟩ := mem_visibleNames.1 hx
  exact (h st hst).isPlain x (Statement.mem_vars.1 hx).1

theorem nodup_visibleNames (sts : List Statement) : (Act.visibleNames sts).Nodup :=
  nodup_eraseDups _

theorem underscore_mem_transientHead (n : Nat) (visible : List String) :
    '_' ∈ (Act.transientHead n visible).predicate.toList := by
  have hname : '_' ∈ (Transient.name n).toList := by
    unfold Transient.name
    rw [String.toList_append]
    exact List.mem_append_left _ (by decide)
  show '_' ∈ (Text.joinWith " " (Transient.name n :: _)).toList
  cases List.replicate visible.length placeholder with
  | nil => exact hname
  | cons w ws =>
    rw [Text.joinWith_cons_cons, String.toList_append, String.toList_append]
    exact List.mem_append_left _ (List.mem_append_left _ hname)

theorem ne_transientHead {p : String} (h : '_' ∉ p.toList) (n : Nat) (visible : List String) :
    p ≠ (Act.transientHead n visible).predicate := by
  rintro rfl
  exact h (underscore_mem_transientHead n visible)

theorem Statement.Grammatical.no_underscore {st : Statement} (h : st.Grammatical) :
    '_' ∉ st.predicate.toList := by
  intro hc
  rcases h.predicate _ hc with hc | hc | hc
  · exact absurd hc (by decide)
  · exact absurd hc (by decide)
  · exact absurd hc (by decide)

theorem isEquality_transientHead (n : Nat) (visible : List String) :
    (Act.transientHead n visible).isEquality = false := by
  unfold Literal.isEquality
  rw [Bool.and_eq_false_iff]
  left
  refine beq_false_of_ne fun he => ?_
  have hc := underscore_mem_transientHead n visible
  rw [he] at hc
  exact absurd hc (by decide)

/-- The statement as a goal, with the mark of the first use. -/
def Statement.marked (st : Statement) (k : Nat) : Literal :=
  (st.literal k).1.mapVars (Clause.useName 1)

/-- The statements as goals, with the mark of the first use. -/
def markedGoals (sts : List Statement) (k : Nat) : List Literal :=
  (Statement.literals sts k).1.map (Literal.mapVars (Clause.useName 1))

/-- The search for the statements of a conjunction. -/
def Store.conjoin (store : Store) (sts : List Statement) (k : Nat) (s : Substitution) : Outcome :=
  Search.solve store.clauses store.limits.depth store.limits.depth (markedGoals sts k) s
    (Limits.above store.limits.answers) 1

section Rule

variable {sts : List Statement} (n k : Nat)

theorem terms_conjunctionRule (sts : List Statement) (n k : Nat) :
    ((conjunctionRule sts n k).renamed 1).head.terms =
      (Act.visibleNames sts).map fun x => .var (Clause.useName 1 x) := by
  show ((Act.visibleNames sts).map Term.var).map (Term.mapVars (Clause.useName 1)) = _
  rw [List.map_map]
  rfl

theorem mem_vars_conjunctionRule {x : String} (hx : x ∈ Act.visibleNames sts) :
    x ∈ (conjunctionRule sts n k).head.vars := by
  refine List.mem_eraseDups.2 (List.mem_filterMap.2 ⟨.var x, ?_, rfl⟩)
  exact List.mem_map.2 ⟨x, hx, rfl⟩

theorem predicate_ne_conjunctionRule
    (hsts : ∀ st ∈ sts, st.predicate ≠ (conjunctionRule sts n k).head.predicate) :
    ∀ l ∈ (conjunctionRule sts n k).body,
      l.predicate ≠ (conjunctionRule sts n k).head.predicate := by
  intro l hl
  obtain ⟨st, hst, he⟩ := predicate_of_mem_literals hl
  rw [he]
  exact hsts st hst

/-- **The head of the rule is answered by the search for the statements**, from the unifier of the
heads. -/
theorem Store.search_rule (store : Store)
    (hsts : ∀ st ∈ sts, st.predicate ≠ (conjunctionRule sts n k).head.predicate)
    {s : Substitution} (hu : Substitution.unifyAll [] ((Act.visibleNames sts).map Term.var)
      ((Act.visibleNames sts).map fun x => .var (Clause.useName 1 x)) = some s)
    (hfresh : Unmentioned (conjunctionRule sts n k).head.predicate store.clauses) :
    ((store.withClause (conjunctionRule sts n k)).search (conjunctionRule sts n k).head).found =
        (store.conjoin sts k s).found ∧
      ((store.withClause (conjunctionRule sts n k)).search (conjunctionRule sts n k).head).fault =
        (store.conjoin sts k s).fault := by
  rw [← terms_conjunctionRule sts n k] at hu
  exact Search.run_rule hfresh rfl (isEquality_transientHead _ _)
    (predicate_ne_conjunctionRule n k hsts) hu (Limits.above_ne_zero _) store.limits.depth

theorem Store.search_conjunctionRule
    (hsts : ∀ st ∈ sts, st.predicate ≠ (conjunctionRule sts n k).head.predicate)
    (hno : ∀ x ∈ Act.visibleNames sts, '#' ∉ x.toList) (store : Store)
    (hfresh : Unmentioned (conjunctionRule sts n k).head.predicate store.clauses) :
    ∃ s, Links (Act.visibleNames sts) s ∧
      ((store.withClause (conjunctionRule sts n k)).search (conjunctionRule sts n k).head).found =
        (store.conjoin sts k s).found ∧
      ((store.withClause (conjunctionRule sts n k)).search (conjunctionRule sts n k).head).fault =
        (store.conjoin sts k s).fault := by
  obtain ⟨s, hu, hs⟩ := exists_links (nodup_visibleNames sts) hno
  exact ⟨s, hs, store.search_rule n k hsts hu hfresh⟩

end Rule

/-! ### The answers to a conjunction -/

/-- What a solution gives the names. -/
def Substitution.answer (t : Substitution) (names : List String) : Record :=
  .ofList (assoc (fun x => (t.walk (.var x)).value?) names)

theorem Substitution.get?_answer {t : Substitution} {names : List String} (h : names.Nodup)
    (x : String) : (t.answer names).get? x = if x ∈ names then (t.walk (.var x)).value? else none := by
  unfold answer
  rw [Record.get?_ofList ((map_fst_assoc_sublist _ _).nodup h), lookup_assoc]

theorem Substitution.of_get?_answer {t : Substitution} {names : List String} (h : names.Nodup)
    {x : String} {v : Value} (hx : (t.answer names).get? x = some v) :
    x ∈ names ∧ t.walk (.var x) = .const v := by
  rw [get?_answer h] at hx
  split_ifs at hx with hn
  exact ⟨hn, Term.value?_eq_some.1 hx⟩

theorem Substitution.keep_project {t : Substitution} {q : Literal} {names : List String}
    (h : names.Nodup) (hq : ∀ x ∈ names, x ∈ q.vars) :
    (t.project q).keep names.contains = t.answer names := by
  refine Record.ext_get? fun x => ?_
  rw [Record.get?_keep, get?_project, get?_answer h]
  by_cases hx : x ∈ names
  · rw [if_pos (by simpa using hx), if_pos (hq x hx), if_pos hx]
  · rw [if_neg (by simpa using hx), if_neg hx]

/-- **A conjunction was asked and answered.** Its transient predicate was new to the store. -/
structure Conjoined (store : Store) (sts : List Statement) (S : Session Store) (L : List Record) :
    Prop where
  engine : S.engine = store
  fresh : Unmentioned (conjunctionRule sts S.transient S.anonymous).head.predicate store.clauses
  succeeds : ((Act.askLine Store.engine (.conjunction sts) none).runIn S).1 = .ok L

/-- The stream that answers a conjunction. -/
def Session.conjunctionStream (S : Session Store) (sts : List Statement) : List Item :=
  (S.engine.withClause (conjunctionRule sts S.transient S.anonymous)).answers
    (conjunctionRule sts S.transient S.anonymous).head

/-- The answers, if no statement has the transient predicate and no name of a variable has a mark. -/
theorem Conjoined.answers_of {store : Store} {sts : List Statement} {S : Session Store}
    {L : List Record} (h : Conjoined store sts S L)
    (hsts : ∀ st ∈ sts,
      st.predicate ≠ (conjunctionRule sts S.transient S.anonymous).head.predicate)
    (hnames : ∀ x ∈ Act.visibleNames sts, '#' ∉ x.toList) :
    ∃ s, Links (Act.visibleNames sts) s ∧ (store.conjoin sts S.anonymous s).fault = none ∧
      (store.conjoin sts S.anonymous s).found.length ≤ store.limits.answers ∧
      (S.conjunctionStream sts).length = (store.conjoin sts S.anonymous s).found.length ∧
      L = ((store.conjoin sts S.anonymous s).found.map fun t =>
        t.answer (Act.visibleNames sts)).eraseDups := by
  obtain ⟨rfl, hfresh, hok⟩ := h
  obtain ⟨s, hs, hfound, hfault⟩ :=
    S.engine.search_conjunctionRule S.transient S.anonymous hsts hnames hfresh
  obtain ⟨hno, hL⟩ := gather_answers (askAll_eq_ok hfresh hok)
  obtain ⟨hf, hle⟩ := Store.not_fails_iff.1 hno
  refine ⟨s, hs, hfault.symm.trans hf, ?_, ?_, ?_⟩
  · rw [← hfound]
    exact hle
  · unfold Session.conjunctionStream
    rw [Store.answers_of_not_fails hno, List.length_map, hfound]
  · rw [hL, Store.records_of_not_fails hno, hfound, List.map_map]
    congr 2
    funext t
    exact Substitution.keep_project (nodup_visibleNames sts) fun x hx =>
      mem_vars_conjunctionRule _ _ hx

theorem Conjoined.answers {store : Store} {sts : List Statement} {S : Session Store}
    {L : List Record} (h : Conjoined store sts S L) (hask : ∀ st ∈ sts, st.Askable) :
    ∃ s, Links (Act.visibleNames sts) s ∧ (store.conjoin sts S.anonymous s).fault = none ∧
      (store.conjoin sts S.anonymous s).found.length ≤ store.limits.answers ∧
      (S.conjunctionStream sts).length = (store.conjoin sts S.anonymous s).found.length ∧
      L = ((store.conjoin sts S.anonymous s).found.map fun t =>
        t.answer (Act.visibleNames sts)).eraseDups :=
  h.answers_of (fun st hst => ne_transientHead (hask st hst).fromText.grammatical.no_underscore _ _)
    fun _ hx => (isPlainName_of_mem_visibleNames hask hx).2

end PassageLogic
