import PassageLogic.Proofs.Logic.FactQueries
import PassageLogic.Proofs.Session.NetEffect

/-! # Directives that facts give

The fact of a directive is found by the query for directives with as many arguments, and its record is the
directive again (`Directive.ofRecord?_entries`). If no body mentions the predicates of directives, then such
a fact makes its directive derivable and no other one (`Directive.new_of_given`), and it does not matter to
what the directive does whether the fact is removed before or after (`Directive.change_given`). -/

namespace PassageLogic

/-! ### Directives and the facts that give them -/

theorem mapM_eq_some {α β : Type} {f : α → Option β} {l : List α} {vs : List β}
    (h : List.Forall₂ (fun a v => f a = some v) l vs) : l.mapM f = some vs := by
  induction h with
  | nil => rfl
  | cons ha _ ih =>
    rw [List.mapM_cons, ha, ih]
    rfl

namespace Directive

theorem nodup_vars : ∀ n ≤ mostArgs, (vars n).Nodup := by decide

/-- The values that the answer for a directive gives to the variables of the query. -/
def entries (d : Directive) : List (String × Value) :=
  (vars d.args.length).zip (.text d.command :: .text d.predicate :: d.args)

/-- The fact that gives a directive. -/
def given (d : Directive) : Clause := .openFact (factPredicate d.args.length) d.entries

variable {d : Directive}

theorem map_fst_entries (d : Directive) : d.entries.map Prod.fst = vars d.args.length :=
  List.map_fst_zip (by simp [vars])

theorem map_snd_entries (d : Directive) :
    d.entries.map Prod.snd = .text d.command :: .text d.predicate :: d.args :=
  List.map_snd_zip (by simp [vars])

theorem query_eq (d : Directive) :
    query d.args.length = .openQuery (factPredicate d.args.length) d.entries := by
  have hterms : (vars d.args.length).map Term.var = d.entries.map fun e => .var e.1 := by
    rw [← map_fst_entries, List.map_map]
    rfl
  unfold query Literal.openQuery
  rw [hterms]

theorem given_eq (d : Directive) : d.given = .fact (.of (factPredicate d.args.length)
    ((.text d.command :: .text d.predicate :: d.args).map Term.const)) := by
  unfold given Clause.openFact
  rw [← map_snd_entries, List.map_map]
  rfl

theorem nodup_entries (h : d.args.length ≤ mostArgs) : (d.entries.map Prod.fst).Nodup :=
  map_fst_entries d ▸ nodup_vars _ h

/-- **The answer for a directive is the directive.** -/
theorem ofRecord?_entries (h : d.args.length ≤ mostArgs) :
    ofRecord? (.ofList d.entries) d.args.length = some d := by
  have hget : ∀ e ∈ d.entries, (Record.ofList d.entries).get? e.1 = some e.2 := fun e he => by
    rw [Record.get?_ofList (nodup_entries h), lookup_of_mem (nodup_entries h) he]
  have hcommand := hget (commandVar, .text d.command) (by simp [entries, vars])
  have hpredicate := hget (predicateVar, .text d.predicate) (by simp [entries, vars])
  have hargs : (List.range d.args.length).mapM (fun k => (Record.ofList d.entries).get? (argVar k)) =
      some d.args := by
    refine mapM_eq_some (List.forall₂_iff_get.2 ⟨List.length_range, fun k hk hk' => ?_⟩)
    have hmem : (argVar k, d.args[k]) ∈ ((List.range d.args.length).map argVar).zip d.args :=
      List.mem_iff_getElem.2 ⟨k, by simpa using hk', by simp⟩
    have harg := hget _ (List.mem_cons_of_mem _ (List.mem_cons_of_mem _ hmem))
    simpa using harg
  unfold ofRecord?
  rw [hcommand, hpredicate, hargs]
  rfl

end Directive

/-! ### The directives of a store -/

/-- The directives with `n` arguments, by the records that the stream of their query has. -/
def Store.directivesOf (store : Store) (n : Nat) : List Directive :=
  ((store.records (Directive.query n)).map fun r => r.keep (Directive.vars n).contains).eraseDups.filterMap
    fun r => Directive.ofRecord? r n

theorem Act.runIn_directivesFor {ns : List Nat} {S T : Session Store} {ds : List Directive}
    (h : (directivesFor Store.engine ns).runIn S = (.ok ds, T)) :
    (∀ n ∈ ns, ¬ S.engine.Fails (Directive.query n)) ∧ ds = ns.flatMap S.engine.directivesOf := by
  induction ns generalizing ds T with
  | nil =>
    cases h
    exact ⟨fun n hn => absurd hn List.not_mem_nil, rfl⟩
  | cons n ns ih =>
    obtain ⟨_, _, hfirst, hrest⟩ := runIn_bind_eq_ok.1 h
    obtain ⟨rs, _, hcollect, hpure⟩ := runIn_bind_eq_ok.1 hfirst
    rw [runIn_collect, Prod.mk.injEq] at hcollect
    obtain ⟨hcollect, rfl⟩ := hcollect
    cases hpure
    obtain ⟨more, _, hmore, hpure⟩ := runIn_bind_eq_ok.1 hrest
    cases hpure
    obtain ⟨hno, rfl⟩ := gather_answers (mapError_eq_ok hcollect)
    obtain ⟨hnos, rfl⟩ := ih hmore
    exact ⟨List.forall_mem_cons.2 ⟨hno, hnos⟩, rfl⟩

/-- **The derivable directives**, if there is no fault in the streams of their queries. -/
theorem Store.directives_eq_ok {store : Store} {ds : List Directive} (h : store.directives = .ok ds) :
    (∀ n ≤ Directive.mostArgs, ¬ store.Fails (Directive.query n)) ∧
      ds = (List.range (Directive.mostArgs + 1)).flatMap store.directivesOf := by
  obtain ⟨hno, hds⟩ := Act.runIn_directivesFor
    ((Act.runIn_directives ⟨store, 0, 0⟩).trans (congrArg (·, _) h))
  exact ⟨fun n hn => hno n (List.mem_range.2 (Nat.lt_succ_of_le hn)), hds⟩

/-- What is filtered out of every part but one is what is left of that one. -/
theorem filter_flatMap_of_unique {α β : Type} {g : α → List β} {p : β → Bool} {ns : List α} {n : α}
    {l : List β} (hns : ns.Nodup) (hn : n ∈ ns) (hother : ∀ k ∈ ns, k ≠ n → (g k).filter p = [])
    (hthis : (g n).filter p = l) : (ns.flatMap g).filter p = l := by
  induction ns with
  | nil => cases hn
  | cons k ns ih =>
    obtain ⟨hk, hns⟩ := List.nodup_cons.1 hns
    obtain ⟨hfirst, hrest⟩ := List.forall_mem_cons.1 hother
    rw [List.flatMap_cons, List.filter_append]
    rcases List.mem_cons.1 hn with rfl | hmem
    · have hnil : (ns.flatMap g).filter p = [] := by
        rw [List.filter_flatMap, List.flatMap_eq_nil_iff]
        exact fun j hj => hrest j hj fun h => hk (h ▸ hj)
      rw [hthis, hnil, List.append_nil]
    · rw [hfirst fun h => hk (h ▸ hmem), ih hns hmem hrest, List.nil_append]

namespace Directive

theorem ne_equals : ∀ n ≤ mostArgs, factPredicate n ≠ equalsPredicate := by decide

theorem factPredicate_injective :
    ∀ n ≤ mostArgs, ∀ k ≤ mostArgs, factPredicate k = factPredicate n → k = n := by decide

/-- All arguments are texts. -/
def OfTexts (d : Directive) : Prop := ∀ v ∈ d.args, ∃ text, v = .text text

variable {store : Store} {d : Directive} (hmost : d.args.length ≤ mostArgs)

theorem OfTexts.entries (h : d.OfTexts) : ∀ e ∈ d.entries, ∃ text, e.2 = .text text := by
  intro e he
  have hmem : e.2 ∈ d.entries.map Prod.snd := List.mem_map_of_mem he
  rw [map_snd_entries] at hmem
  rcases List.mem_cons.1 hmem with h' | hmem
  · exact ⟨_, h'⟩
  · rcases List.mem_cons.1 hmem with h' | hmem
    · exact ⟨_, h'⟩
    · exact h _ hmem

section
include hmost

theorem keep_entries : (Record.ofList d.entries).keep (vars d.args.length).contains =
    .ofList d.entries := by
  refine Record.ext_get? fun y => ?_
  rw [Record.get?_keep, Record.get?_ofList (nodup_entries hmost), ← map_fst_entries]
  split_ifs with hy
  · rfl
  · rw [eq_comm]
    refine lookup_eq_none_of_ne fun e he hne => hy ?_
    simpa using ⟨e.2, hne ▸ he⟩

/-- What equals the record of a directive gives the directive. -/
theorem mem_directivesOf (htexts : d.OfTexts) {r : Record}
    (hr : r ∈ (store.records (query d.args.length)).map fun r => r.keep (vars d.args.length).contains)
    (hsame : Record.ofList d.entries == r) : d ∈ store.directivesOf d.args.length := by
  obtain ⟨r', hr', hrr'⟩ := exists_mem_eraseDups hr
  have hsame' : Record.ofList d.entries == r' := by
    rcases hrr' with rfl | hrr'
    · exact hsame
    · exact BEq.trans hsame hrr'
  have heq : r' = .ofList d.entries := by
    refine Record.eq_of_beq_texts hsame' fun y v hv => ?_
    rw [Record.get?_ofList (nodup_entries hmost)] at hv
    exact htexts.entries _ (mem_of_lookup_eq_some hv)
  exact List.mem_filterMap.2 ⟨r', hr', heq ▸ ofRecord?_entries hmost⟩

/-- The record of a directive about texts equals itself. -/
theorem OfTexts.beq_self_ofList (h : d.OfTexts) :
    Record.ofList d.entries == Record.ofList d.entries := by
  refine Record.beq_self_iff.2 fun y v hv => ?_
  rw [Record.get?_ofList (nodup_entries hmost)] at hv
  obtain ⟨text, rfl⟩ := h.entries _ (mem_of_lookup_eq_some hv)
  rfl

/-- **A directive whose fact is stored is derivable.** -/
theorem mem_directives_of_given (htexts : d.OfTexts) (hgiven : store.hasVariant d.given = true)
    (hok : ¬ store.Fails (query d.args.length))
    (hlen : (store.answers (query d.args.length)).length < Limits.largest) :
    d ∈ store.directivesOf d.args.length := by
  obtain ⟨c, hc, hvariant⟩ := Store.hasVariant_iff.1 hgiven
  obtain rfl : c = d.given := Clause.eq_of_isVariant_openFact htexts.entries hvariant
  rw [query_eq] at hok hlen
  have hfound := Store.records_of_fact (ne_equals _ hmost) (nodup_entries hmost) hok hlen hc
  rw [← query_eq] at hfound
  exact mem_directivesOf hmost htexts (List.mem_map.2 ⟨_, hfound, keep_entries hmost⟩)
    (htexts.beq_self_ofList hmost)

section Given

variable (hbodies : ∀ c ∈ store.clauses, ∀ l ∈ c.body, l.predicate ≠ factPredicate d.args.length)
include hbodies

/-- **The fact of a directive gives it and nothing else**, after the directives that were derivable. -/
theorem directivesOf_withClause (htexts : d.OfTexts)
    (hok : ¬ store.Fails (query d.args.length))
    (hok' : ¬ (store.withClause d.given).Fails (query d.args.length))
    (hlen : (store.answers (query d.args.length)).length < Limits.largest)
    (hnew : d ∉ store.directivesOf d.args.length) :
    (store.withClause d.given).directivesOf d.args.length =
      store.directivesOf d.args.length ++ [d] := by
  have hrecords : (store.withClause d.given).records (query d.args.length) =
      store.records (query d.args.length) ++ [.ofList d.entries] := by
    rw [query_eq] at hok hok' hlen ⊢
    exact Store.records_withClause (ne_equals _ hmost) (nodup_entries hmost) hok hlen hbodies hok'
  have hno : ((store.records (query d.args.length)).map fun r =>
      r.keep (vars d.args.length).contains).any (fun r => Record.ofList d.entries == r) = false := by
    rw [List.any_eq_false]
    exact fun r hr hsame => hnew (mem_directivesOf hmost htexts hr hsame)
  unfold Store.directivesOf
  rw [hrecords, List.map_append, List.map_singleton, keep_entries hmost, eraseDups_append_singleton,
    hno, if_neg (by decide), List.filterMap_append]
  refine congrArg (_ ++ ·) ?_
  show [Record.ofList d.entries].filterMap _ = [d]
  simp only [List.filterMap_cons, List.filterMap_nil, ofRecord?_entries hmost]

theorem directivesOf_withClause_other {k : Nat} (hk : k ≤ mostArgs) (hne : k ≠ d.args.length) :
    (store.withClause d.given).directivesOf k = store.directivesOf k := by
  have hpredicate : (query k).predicate ≠ d.given.head.predicate := fun h =>
    hne (factPredicate_injective _ hmost k hk h)
  unfold Store.directivesOf Store.records
  rw [Store.answers_withClause hbodies hpredicate]

end Given
end

/-! ### What comes of the fact of a directive -/

/-- A directive about texts is the only one that equals it. -/
theorem OfTexts.eq_of_beq {e : Directive} (htexts : d.OfTexts) (h : (d == e) = true) : d = e := by
  have hbeq : (d == e) = (d.command == e.command && (d.predicate == e.predicate && d.args == e.args)) :=
    rfl
  rw [hbeq, Bool.and_eq_true, Bool.and_eq_true, beq_iff_eq, beq_iff_eq] at h
  obtain ⟨hcommand, hpredicate, hargs⟩ := h
  obtain ⟨command, predicate, args⟩ := d
  obtain ⟨command', predicate', args'⟩ := e
  obtain rfl : command = command' := hcommand
  obtain rfl : predicate = predicate' := hpredicate
  obtain rfl : args = args' := Value.eq_of_beq_texts htexts hargs
  rfl

/-- A directive without NaN equals itself. -/
theorem beq_self (h : ∀ v ∈ d.args, v.isNaN = false) : (d == d) = true := by
  have hbeq : (d == d) = (d.command == d.command && (d.predicate == d.predicate && d.args == d.args)) :=
    rfl
  have hargs : (d.args == d.args) = true :=
    beq_self_iff_forall.2 fun v hv => Value.beq_self_iff.2 (h v hv)
  rw [hbeq, beq_self_eq_true d.command, beq_self_eq_true d.predicate, hargs]
  rfl

/-- **Only the directive of the added fact is new**, if no other one has NaN among its arguments: such a
directive does not equal itself, so that it is always taken for new. -/
theorem new_of_given {standing derivable : List Directive} (hmost : d.args.length ≤ mostArgs)
    (htexts : d.OfTexts)
    (hbodies : ∀ c ∈ store.clauses, ∀ l ∈ c.body, l.predicate ≠ factPredicate d.args.length)
    (hlen : (store.answers (query d.args.length)).length < Limits.largest)
    (hbefore : store.directives = .ok standing)
    (hafter : (store.withClause d.given).directives = .ok derivable)
    (hnan : ∀ e ∈ standing, ∀ v ∈ e.args, v.isNaN = false) (hnew : d ∉ standing) :
    (derivable.filter fun e => !standing.contains e) = [d] := by
  obtain ⟨hok, hstanding⟩ := Store.directives_eq_ok hbefore
  obtain ⟨hok', rfl⟩ := Store.directives_eq_ok hafter
  have hmem : ∀ k ≤ mostArgs, ∀ e ∈ store.directivesOf k, e ∈ standing := fun k hk e he => by
    rw [hstanding]
    exact List.mem_flatMap.2 ⟨k, List.mem_range.2 (Nat.lt_succ_of_le hk), he⟩
  have hold : ∀ k ≤ mostArgs,
      ((store.directivesOf k).filter fun e => !standing.contains e) = [] := by
    refine fun k hk => List.filter_eq_nil_iff.2 fun e he => ?_
    have hstanding := hmem k hk e he
    rw [List.contains_iff_exists_mem_beq.2 ⟨e, hstanding, beq_self (hnan e hstanding)⟩]
    decide
  have hd : standing.contains d = false := by
    refine Bool.eq_false_iff.2 fun h => ?_
    obtain ⟨e, he, hde⟩ := List.contains_iff_exists_mem_beq.1 h
    exact hnew (htexts.eq_of_beq hde ▸ he)
  have hthis := directivesOf_withClause hmost hbodies htexts (hok _ hmost) (hok' _ hmost) hlen
    fun h => hnew (hmem _ hmost d h)
  refine filter_flatMap_of_unique (List.nodup_range) (List.mem_range.2 (Nat.lt_succ_of_le hmost))
    (fun k hk hne => ?_) ?_
  · have hk := Nat.le_of_lt_succ (List.mem_range.1 hk)
    rw [directivesOf_withClause_other hmost hbodies hk hne, hold k hk]
  · rw [hthis, List.filter_append, hold _ hmost, List.nil_append,
      List.filter_cons_of_pos (by rw [hd]; rfl), List.filter_nil]

theorem OfTexts.proper_given (h : d.OfTexts) : d.given.Proper Value.Equal := by
  refine Clause.proper_fact fun t ht => ?_
  obtain ⟨e, he, rfl⟩ := List.mem_map.1 ht
  obtain ⟨text, hv⟩ := h.entries e he
  rw [hv, Term.proper_const]
  exact beq_self_eq_true text

/-- The fact of a directive can be removed before or after the directive is carried out. -/
theorem change_given (hproper : d.given.Proper Value.Equal) (hno : store.hasVariant d.given = false)
    (hother : d.given.isVariant d.fact = false) :
    ((d.change (store.withClause d.given)).retract d.given).2 = d.change store := by
  have hclauses : ∀ c ∈ store.clauses, c.isVariant d.given = false := fun c hc =>
    Bool.eq_false_iff.2 (List.any_eq_false.1 hno c hc)
  have hgone : ((store.withClause d.given).retract d.given).2 = store :=
    Store.ext rfl ((Store.eraseVariant_middle hproper hclauses []).trans (List.append_nil _))
  unfold change
  cases d.effect? with
  | none => exact hgone
  | some effect =>
    cases effect with
    | assert =>
      have hsame : (store.withClause d.given).hasVariant d.fact = store.hasVariant d.fact := by
        show (store.clauses ++ [d.given]).any _ = _
        rw [List.any_append, List.any_cons, hother]
        exact Bool.or_false _
      simp only [Store.assert, hsame]
      split_ifs
      · exact hgone
      · exact hgone
      · refine Store.ext rfl ?_
        show Store.eraseVariant d.given (store.clauses ++ [d.given] ++ [d.fact]) = _
        rw [List.append_assoc]
        exact Store.eraseVariant_middle hproper hclauses [d.fact]
    | retract =>
      have hbefore : Store.eraseVariant d.fact (store.clauses ++ [d.given]) =
          Store.eraseVariant d.fact store.clauses ++ [d.given] := by
        unfold Store.eraseVariant
        rw [List.eraseP_append]
        split_ifs with hany
        · rfl
        · rw [List.eraseP_cons_of_neg (by simp [hother]), List.eraseP_nil,
            List.eraseP_of_forall_not fun c hc h => hany (List.any_eq_true.2 ⟨c, hc, h⟩)]
      refine Store.ext rfl ?_
      show Store.eraseVariant d.given (Store.eraseVariant d.fact (store.clauses ++ [d.given])) = _
      rw [hbefore]
      refine (Store.eraseVariant_middle hproper (fun c hc => hclauses c ?_) []).trans (List.append_nil _)
      exact List.eraseP_subset hc

/-- The fact that gives a directive has two terms more than the fact that the directive is about. -/
theorem given_isVariant_fact (htexts : d.OfTexts) : d.given.isVariant d.fact = false := by
  rw [Clause.isVariant_comm, Bool.eq_false_iff]
  intro h
  have hsame : d.fact = d.given := Clause.eq_of_isVariant_openFact htexts.entries h
  rw [given_eq] at hsame
  have hterms := congrArg (fun c : Clause => c.head.terms.length) hsame
  simp [fact, Clause.fact, Literal.of] at hterms
  omega

end Directive

end PassageLogic
