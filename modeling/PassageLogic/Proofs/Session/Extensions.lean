import PassageLogic.Proofs.Session.UnderValues
import PassageLogic.Proofs.Logic.StoredVariants

/-! # Extensions of a record by a further statement

A record is extended by the answers to a further statement under its values; a denied statement keeps
or drops it.

* `answers_eq`: from a branch that carries the record the search for the marked statement finds the
  extensions of the record.
* `extensions_congr`: equal records have alike extensions.
* `beq_of_extensions_beq`: equal extensions come from equal records.
* `overlay_answersUnder_sublist`, `exists_alike_overlay`: the distinct answers make distinct extensions,
  and every extension is alike to one of these. -/

namespace PassageLogic

/-- What a record becomes by the answers of the store to a further statement. -/
def Store.extensions (store : Store) (st : Statement) (k : Nat) (r : Record) : List Record :=
  if st.negated then
    if (store.records (st.under k r)).isEmpty then [r] else []
  else (store.records (st.under k r)).map fun a => r.overlay (a.keep st.vars.contains)

/-! ### Extensions of equal records -/

section Equal

variable {store : Store} {st : Statement} {r r' : Record} {m : Nat}

theorem Statement.IsPlain.no_hash_of_mem (hst : st.IsPlain) {z : String}
    (hz : .var z ∈ (st.literal m).1.terms) : '#' ∉ z.toList := by
  rcases name_of_mem_terms hz with ⟨hz, -⟩ | ⟨i, -, rfl⟩
  · exact (hst z hz).2
  · exact hash_not_mem_anonymousName i

theorem Statement.under_alike (hst : st.IsPlain) (h : r == r') :
    (st.under m r).Alike Value.Alike SameUnmarked [] [] (st.under m r') := by
  refine ⟨rfl, rfl, ?_⟩
  unfold Statement.under Literal.withValues
  rw [List.forall₂_map_left_iff, List.forall₂_map_right_iff, List.forall₂_same]
  intro a ha
  cases a with
  | const v =>
    show Term.Paired _ _ _ _
    exact .const (.refl v)
  | var z =>
    have hz := hst.no_hash_of_mem ha
    have hr := Record.rel_get? h z
    unfold Term.withValues
    simp only []
    generalize r.get? z = o at hr ⊢
    generalize r'.get? z = o' at hr ⊢
    cases hr with
    | none => exact .var ⟨rfl, hz⟩
    | some hvw => exact .const (.inr hvw)

theorem Store.search_under_alike (hst : st.IsPlain) (h : r == r') :
    Search.EndsAlike Value.Alike SameUnmarked [] [] (store.search (st.under m r))
      (store.search (st.under m r')) :=
  Search.solve_alike indistinct_alike corresponds_sameUnmarked
    (.cons (Statement.under_alike hst h) .nil) _ _

theorem Substitution.project_under_congr (hst : st.IsPlain) (h : r == r') {t t' : Substitution}
    (hf : Follows Value.Alike SameUnmarked [] [] t t') :
    ((t.project (st.under m r)).keep st.vars.contains).Alike Value.Alike
      ((t'.project (st.under m r')).keep st.vars.contains) := by
  obtain ⟨W, -, -, ha⟩ := hf
  intro y
  rw [Record.get?_keep, Record.get?_keep, get?_project, get?_project]
  by_cases hy : y ∈ st.vars
  · have hr := Record.rel_get? h y
    have hplain := hst y (Statement.mem_vars.1 hy).1
    have ht := (ha (.var y) (.var y) (.var ⟨rfl, hplain.2⟩)).value?
    have hq := Statement.mem_vars_under (k := m) (r := r) hy
    have hq' := Statement.mem_vars_under (k := m) (r := r') hy
    simp only [if_pos (show st.vars.contains y = true by simpa using hy), hq, hq']
    generalize r.get? y = o at hr ⊢
    generalize r'.get? y = o' at hr ⊢
    cases hr with
    | some _ => exact .none
    | none => exact ht
  · rw [if_neg (by simpa using hy), if_neg (by simpa using hy)]
    exact .none

theorem Store.records_under_congr (hst : st.IsPlain) (h : r == r') :
    List.Forall₂ (fun a a' : Record =>
        (a.keep st.vars.contains).Alike Value.Alike (a'.keep st.vars.contains))
      (store.records (st.under m r)) (store.records (st.under m r')) := by
  have he := (store.search_under_alike hst h (m := m)).found
  rw [records_eq, records_eq, List.forall₂_map_left_iff, List.forall₂_map_right_iff]
  exact (List.forall₂_take _ he).imp fun {t} {t'} hf => Substitution.project_under_congr hst h hf

/-- Equal records have alike extensions. -/
theorem Store.extensions_congr (hst : st.IsPlain) (h : r == r') :
    List.Forall₂ (Record.Alike Value.Alike) (store.extensions st m r) (store.extensions st m r') := by
  have hr := store.records_under_congr hst h (m := m)
  unfold extensions
  cases st.negated with
  | true =>
    simp only [if_true, List.isEmpty_iff, ← List.length_eq_zero_iff, hr.length_eq]
    split_ifs
    · exact .cons (.of_beq h) .nil
    · exact .nil
  | false =>
    simp only [Bool.false_eq_true, if_false]
    rw [List.forall₂_map_left_iff, List.forall₂_map_right_iff]
    exact hr.imp fun {a} {a'} ha => Record.Alike.overlay (.of_beq h) ha

/-- The answers under the values of a record give no name that the record gives. -/
theorem Store.get?_keep_record_under {a : Record} (ha : a ∈ store.records (st.under m r))
    {y : String} {v : Value} (hy : r.get? y = some v) : (a.keep st.vars.contains).get? y = none := by
  rw [records_eq] at ha
  obtain ⟨t, -, rfl⟩ := List.mem_map.1 ha
  rw [Record.get?_keep, Substitution.get?_project]
  by_cases hv : y ∈ st.vars
  · rw [if_pos (by simpa using hv), if_neg]
    rw [Statement.mem_vars_under hv, hy]
    simp
  · exact if_neg (by simpa using hv)

/-- An extension gives every name of the record the same value. -/
theorem Store.get?_of_mem_extensions {x : Record} (hx : x ∈ store.extensions st m r) {y : String}
    {v : Value} (hy : r.get? y = some v) : x.get? y = some v := by
  unfold extensions at hx
  split_ifs at hx with hn he
  · rw [List.mem_singleton.1 hx]
    exact hy
  · cases hx
  · obtain ⟨a, ha, rfl⟩ := List.mem_map.1 hx
    rw [Record.get?_overlay, get?_keep_record_under ha hy, hy]
    rfl

theorem beq_of_overlay_beq {r a b : Record} (ha : ∀ y v, r.get? y = some v → a.get? y = none)
    (hb : ∀ y v, r.get? y = some v → b.get? y = none) (h : r.overlay a == r.overlay b) : a == b := by
  rw [Record.same_iff] at h ⊢
  intro y
  have hy := h y
  rw [Record.get?_overlay, Record.get?_overlay] at hy
  cases hr : r.get? y with
  | some v =>
    rw [ha y v hr, hb y v hr]
    exact .none
  | none =>
    rw [hr, Option.or_none, Option.or_none] at hy
    exact hy

theorem overlay_beq_overlay {r a b : Record} (hr : r == r)
    (ha : ∀ y v, r.get? y = some v → a.get? y = none)
    (hb : ∀ y v, r.get? y = some v → b.get? y = none) :
    (r.overlay a == r.overlay b) = (a == b) := by
  rw [Bool.eq_iff_iff]
  refine ⟨beq_of_overlay_beq ha hb, fun h => Record.same_iff.2 ?_⟩
  exact (Record.same_iff.1 hr).overlay (Record.same_iff.1 h)

/-- The extensions of a record are its overlays with the answers, if the statement is not denied. -/
theorem Store.extensions_of_positive (store : Store) (hn : st.negated = false) (m : Nat) (r : Record) :
    store.extensions st m r =
      ((store.records (st.under m r)).map fun a => a.keep st.vars.contains).map r.overlay := by
  unfold extensions
  rw [hn, if_neg (by decide), List.map_map]
  rfl

/-- Distinct answers make distinct extensions. -/
theorem Store.overlay_answersUnder_sublist (store : Store) (hn : st.negated = false) (m : Nat)
    (r : Record) :
    ((store.answersUnder st m r).map r.overlay).Sublist (store.extensions st m r).eraseDups := by
  rw [store.extensions_of_positive hn]
  refine map_eraseDups_sublist fun a ha b hb h => ?_
  obtain ⟨c, hc, rfl⟩ := List.mem_map.1 ha
  obtain ⟨d, hd, rfl⟩ := List.mem_map.1 hb
  exact beq_of_overlay_beq (fun y v hy => get?_keep_record_under hd hy)
    (fun y v hy => get?_keep_record_under hc hy) h

/-- Every extension is alike to the overlay with one of the distinct answers. -/
theorem Store.exists_alike_overlay (hn : st.negated = false) {x : Record}
    (hx : x ∈ store.extensions st m r) :
    ∃ a ∈ store.answersUnder st m r, x.Alike Value.Alike (r.overlay a) := by
  rw [store.extensions_of_positive hn] at hx
  obtain ⟨a, ha, rfl⟩ := List.mem_map.1 hx
  obtain ⟨b, hb, hab⟩ := exists_mem_eraseDups ha
  exact ⟨b, hb, (Record.Alike.refl r).overlay (Record.Alike.of_eq_or_beq hab)⟩

theorem exists_mem_of_forall₂ {α β : Type} {R : α → β → Prop} {l : List α} {l' : List β}
    (h : List.Forall₂ R l l') {b : β} (hb : b ∈ l') : ∃ a ∈ l, R a b := by
  obtain ⟨i, hi, rfl⟩ := List.getElem_of_mem hb
  have hl : i < l.length := by
    rw [h.length_eq]
    exact hi
  exact ⟨l[i], List.getElem_mem hl, h.get hl hi⟩

/-- Equal extensions come from equal records, if the records give values to the same names. -/
theorem Store.beq_of_extensions_beq {names : List String}
    (hr : ∀ x, r.contains x = true ↔ x ∈ names) (hr' : ∀ x, r'.contains x = true ↔ x ∈ names)
    {x y : Record} (hx : x ∈ store.extensions st m r) (hy : y ∈ store.extensions st m r')
    (h : y == x) : r' == r := by
  rw [Record.same_iff]
  intro z
  cases hz' : r'.get? z with
  | some v =>
    have hz : r.contains z = true := (hr z).2 ((hr' z).1 (by simp [Record.contains, hz']))
    obtain ⟨w, hw⟩ := Option.isSome_iff_exists.1 hz
    have hrel := Record.rel_get? h z
    rw [get?_of_mem_extensions hy hz', get?_of_mem_extensions hx hw] at hrel
    rw [hw]
    exact hrel
  | none =>
    have hz : ¬ r.contains z = true := by
      intro hz
      have hc := (hr' z).2 ((hr z).1 hz)
      unfold Record.contains at hc
      rw [hz'] at hc
      cases hc
    rw [Option.not_isSome_iff_eq_none.1 hz]
    exact .none

end Equal

/-! ### Where a record is carried -/

namespace Search.Branch.GoesOn

variable {store : Store} {st : Statement} {r : Record} {names : List String} {k : Nat}
  {b : Search.Branch} (h : b.GoesOn store st r names k) (hst : st.IsPlain)
  (hlim : store.limits.answers ≠ 0)
include h hst hlim

/-- **From a branch that carries a record the extensions of the record are found.** -/
theorem answers_eq (hnames : names.Nodup) (hvars : ∀ x ∈ st.vars, x ∈ names)
    (hr : ∀ x v, r.get? x = some v → x ∈ names) (hopen : ∀ x ∈ names, r.get? x = none → x ∈ st.vars)
    (m : Nat) : (b.goOn store st k).found.map (fun t => t.answer names) =
      store.extensions st m r := by
  unfold Store.extensions
  rw [Store.records_eq]
  cases hn : st.negated with
  | true =>
    have hempty : ((store.search (st.under m r)).found.take store.limits.answers).isEmpty =
        (store.search (st.under m r)).found.isEmpty := by
      rw [Bool.eq_iff_iff, List.isEmpty_iff, List.isEmpty_iff, List.take_eq_nil_iff]
      exact or_iff_right hlim
    rw [(h.search_denied hst hn m).1, if_pos rfl, List.isEmpty_map, hempty]
    by_cases hs : (store.search (st.under m r)).found = []
    · rw [if_pos hs, if_pos (List.isEmpty_iff.2 hs), List.map_singleton,
        h.carries.answer_self hnames hr]
    · rw [if_neg hs, if_neg (by simpa using hs)]
      rfl
  | false =>
    have he := h.search_positive hst hn m
    have hle : (store.search (st.under m r)).found.length ≤ store.limits.answers := by
      have hlt := h.length_lt
      rw [he.length_eq]
      unfold Limits.above at hlt
      omega
    rw [if_neg (by decide), List.take_of_length_le hle, List.map_map, ← List.forall₂_eq_eq_eq,
      List.forall₂_map_left_iff, List.forall₂_map_right_iff]
    exact he.found.imp fun {t} {t'} hf => h.carries.answer_eq hst hnames hvars hr hopen hf

/-- The query for the extensions succeeds, for a denied statement if it has no answer. -/
theorem not_fails (m : Nat)
    (hn : st.negated = true → (store.answersUnder st m r).isEmpty = true) :
    ¬ store.Fails (st.under m r) := by
  rw [Store.not_fails_iff]
  cases hneg : st.negated with
  | true =>
    have hfound : (store.search (st.under m r)).found = [] := by
      have he := hn hneg
      unfold Store.answersUnder at he
      rw [isEmpty_eraseDups, List.isEmpty_map, Store.records_eq, List.isEmpty_map,
        List.isEmpty_iff, List.take_eq_nil_iff] at he
      exact he.resolve_left hlim
    refine ⟨(h.search_denied hst hneg m).2 hfound, ?_⟩
    rw [hfound]
    exact Nat.zero_le _
  | false =>
    have he := h.search_positive hst hneg m
    have hlt := h.length_lt
    refine ⟨he.fault.trans h.finished.1, ?_⟩
    rw [he.length_eq]
    unfold Limits.above at hlt
    omega

end Search.Branch.GoesOn

end PassageLogic
