import PassageLogic.Logic.Record
import PassageLogic.Proofs.Logic.Readings
import Mathlib.Data.List.Forall2
import Mathlib.Tactic.SplitIfs

/-! # Records as partial functions

A record is determined by the values it gives to names. `get?_insert`, `get?_insertAll`, `get?_keep`
and `get?_overlay` say what each operation does to them; `ext_get?` and `same_iff` say that equality,
of either kind, is equality of all values. A record that holds NaN does not equal itself
(`beq_self_iff`). -/

namespace PassageLogic

instance : DecidableEq Record := fun r s =>
  decidable_of_iff (r.entries = s.entries) ⟨Record.ext, congrArg _⟩

theorem lookup_cons_entry {β : Type} {name y : String} {w : β} {es : List (String × β)} :
    List.lookup y ((name, w) :: es) = if y = name then some w else es.lookup y := by
  rw [List.lookup_cons]
  by_cases h : y = name
  · rw [if_pos h, h, beq_self_eq_true]
  · rw [if_neg h, beq_false_of_ne h]

theorem lookup_eq_none_of_ne {β : Type} {y : String} {es : List (String × β)}
    (h : ∀ e ∈ es, y ≠ e.1) : es.lookup y = none := by
  rw [List.lookup_eq_none_iff]
  intro e he
  rw [bne_iff_ne]
  exact h e he

theorem mem_of_lookup_eq_some {β : Type} {y : String} {w : β} {es : List (String × β)}
    (h : es.lookup y = some w) : (y, w) ∈ es := by
  obtain ⟨before, after, rfl, -⟩ := List.lookup_eq_some_iff.1 h
  exact List.mem_append_right _ List.mem_cons_self

theorem lookup_of_mem {β : Type} {es : List (String × β)} (hes : (es.map Prod.fst).Nodup)
    {e : String × β} (he : e ∈ es) : es.lookup e.1 = some e.2 := by
  induction es with
  | nil => cases he
  | cons f es ih =>
    obtain ⟨hf, hes⟩ := List.nodup_cons.1 hes
    rcases List.mem_cons.1 he with rfl | he
    · exact List.lookup_cons_self
    · have hne : e.1 ≠ f.1 := fun h => hf (List.mem_map.2 ⟨e, he, h⟩)
      rw [lookup_cons_entry, if_neg hne, ih hes he]

/-- Names mapped one to one are looked up as before. -/
theorem lookup_map_entries {β γ : Type} {f : String → String} (hf : Function.Injective f) (g : β → γ)
    (es : List (String × β)) (x : String) :
    (es.map fun e => (f e.1, g e.2)).lookup (f x) = (es.lookup x).map g := by
  induction es with
  | nil => rfl
  | cons e es ih =>
    rw [List.map_cons, lookup_cons_entry, lookup_cons_entry, ih]
    simp only [hf.eq_iff]
    split_ifs <;> rfl

/-- The pairs of names and values where there is a value. -/
def assoc {β : Type} (g : String → Option β) (names : List String) : List (String × β) :=
  names.filterMap fun n => (g n).map fun v => (n, v)

theorem map_fst_assoc_sublist {β : Type} (g : String → Option β) (names : List String) :
    ((assoc g names).map Prod.fst).Sublist names := by
  induction names with
  | nil => exact .slnil
  | cons n names ih =>
    unfold assoc at ih ⊢
    cases hg : g n with
    | none =>
      rw [List.filterMap_cons_none (by rw [hg]; rfl)]
      exact .cons _ ih
    | some v =>
      rw [List.filterMap_cons_some (by rw [hg]; rfl), List.map_cons]
      exact .cons_cons _ ih

theorem lookup_assoc {β : Type} (g : String → Option β) (names : List String) (y : String) :
    (assoc g names).lookup y = if y ∈ names then g y else none := by
  induction names with
  | nil => rfl
  | cons n names ih =>
    unfold assoc at ih ⊢
    by_cases hy : y = n
    · subst hy
      rw [if_pos List.mem_cons_self]
      cases hg : g y with
      | none =>
        rw [List.filterMap_cons_none (by rw [hg]; rfl), ih, hg]
        split_ifs <;> rfl
      | some v =>
        rw [List.filterMap_cons_some (by rw [hg]; rfl), lookup_cons_entry, if_pos rfl]
    · have hmem : (y ∈ n :: names) ↔ y ∈ names := by simp [hy]
      simp only [hmem]
      cases hg : g n with
      | none => rw [List.filterMap_cons_none (by rw [hg]; rfl), ih]
      | some v =>
        rw [List.filterMap_cons_some (by rw [hg]; rfl), lookup_cons_entry, if_neg hy, ih]

namespace Record

variable {name y : String} {v : Value} {r r' : Record}

/-! ### Values of the entries -/

theorem lookup_insertEntry (es : List (String × Value)) :
    (insertEntry name v es).lookup y = if y = name then some v else es.lookup y := by
  induction es with
  | nil => simp only [insertEntry, lookup_cons_entry]
  | cons e es ih =>
    obtain ⟨n, w⟩ := e
    simp only [insertEntry]
    by_cases hlt : name < n
    · rw [if_pos hlt, lookup_cons_entry]
    · rw [if_neg hlt]
      by_cases hn : name = n
      · subst hn
        rw [if_pos rfl, lookup_cons_entry, lookup_cons_entry]
        by_cases hy : y = name
        · rw [if_pos hy, if_pos hy]
        · rw [if_neg hy, if_neg hy, if_neg hy]
      · rw [if_neg hn, lookup_cons_entry, lookup_cons_entry, ih]
        by_cases hy : y = name
        · rw [if_pos hy, if_neg (fun h => hn (hy ▸ h)), if_pos hy]
        · rw [if_neg hy, if_neg hy]

theorem lookup_eq_none_of_lt {es : List (String × Value)} (h : ∀ e ∈ es, y < e.1) :
    es.lookup y = none :=
  lookup_eq_none_of_ne fun e he heq => String.lt_irrefl y (by have := h e he; rwa [← heq] at this)

/-- Entries in ascending order are determined by the values of the names. -/
theorem forall₂_of_lookup {E : Value → Value → Prop} {es fs : List (String × Value)}
    (hes : Ascending es) (hfs : Ascending fs)
    (h : ∀ y, Option.Rel E (es.lookup y) (fs.lookup y)) :
    List.Forall₂ (fun a b => a.1 = b.1 ∧ E a.2 b.2) es fs := by
  induction es generalizing fs with
  | nil =>
    cases fs with
    | nil => exact .nil
    | cons f fs => have := h f.1; rw [List.lookup_cons_self] at this; cases this
  | cons e es ih =>
    cases fs with
    | nil => have := h e.1; rw [List.lookup_cons_self] at this; cases this
    | cons f fs =>
      obtain ⟨n, w⟩ := e
      obtain ⟨m, u⟩ := f
      obtain ⟨hn, hes'⟩ := List.pairwise_cons.1 hes
      obtain ⟨hm, hfs'⟩ := List.pairwise_cons.1 hfs
      have hnm : n = m := by
        -- the smaller one of the two first names has a value on one side only
        by_contra hne
        by_cases hlt : n < m
        · have hr := h n
          rw [lookup_cons_entry, if_pos rfl, lookup_cons_entry, if_neg hne, lookup_eq_none_of_lt
            fun e he => String.lt_trans hlt (hm e he)] at hr
          cases hr
        · have hlt' : m < n := by
            by_contra hge
            exact hne (String.le_antisymm (String.not_lt.1 hge) (String.not_lt.1 hlt))
          have hr := h m
          rw [lookup_cons_entry, if_neg (Ne.symm hne), lookup_cons_entry, if_pos rfl,
            lookup_eq_none_of_lt fun e he => String.lt_trans hlt' (hn e he)] at hr
          cases hr
      subst hnm
      have hwu : E w u := by
        have hr := h n
        rw [lookup_cons_entry, if_pos rfl, lookup_cons_entry, if_pos rfl] at hr
        cases hr
        assumption
      refine .cons ⟨rfl, hwu⟩ (ih hes' hfs' fun y => ?_)
      by_cases hy : y = n
      · subst hy
        rw [lookup_eq_none_of_lt hn, lookup_eq_none_of_lt hm]
        exact .none
      · have hr := h y
        rwa [lookup_cons_entry, if_neg hy, lookup_cons_entry, if_neg hy] at hr

theorem lookup_of_forall₂ {E : Value → Value → Prop} {es fs : List (String × Value)}
    (h : List.Forall₂ (fun a b => a.1 = b.1 ∧ E a.2 b.2) es fs) (y : String) :
    Option.Rel E (es.lookup y) (fs.lookup y) := by
  induction h with
  | nil => exact .none
  | @cons a b es fs hab _ ih =>
    obtain ⟨n, w⟩ := a
    obtain ⟨m, u⟩ := b
    obtain ⟨rfl, hwu⟩ := hab
    rw [lookup_cons_entry, lookup_cons_entry]
    split_ifs
    · exact .some hwu
    · exact ih

/-! ### Values of records -/

@[simp] theorem get?_empty : empty.get? y = none := rfl

theorem get?_insert : (r.insert name v).get? y = if y = name then some v else r.get? y :=
  lookup_insertEntry _

/-- Further entries for distinct names. -/
theorem get?_insertAll {es : List (String × Value)} (h : (es.map Prod.fst).Nodup) :
    (r.insertAll es).get? y = (es.lookup y).or (r.get? y) := by
  induction es generalizing r with
  | nil => rfl
  | cons e es ih =>
    obtain ⟨n, w⟩ := e
    obtain ⟨hn, hes⟩ := List.nodup_cons.1 h
    show ((r.insert n w).insertAll es).get? y = _
    rw [ih hes, get?_insert, lookup_cons_entry]
    split_ifs with hy
    · subst hy
      rw [lookup_eq_none_of_ne fun e he heq => hn (List.mem_map.2 ⟨e, he, heq.symm⟩)]
      rfl
    · rfl

theorem get?_ofList {es : List (String × Value)} (h : (es.map Prod.fst).Nodup) :
    (ofList es).get? y = es.lookup y := by
  rw [ofList, get?_insertAll h, get?_empty, Option.or_none]

theorem nodup_names (r : Record) : (r.entries.map Prod.fst).Nodup := by
  refine List.Pairwise.map _ (fun a b h => ?_) r.ascending
  exact fun heq => String.lt_irrefl _ (heq ▸ h)

theorem get?_overlay : (r.overlay r').get? y = (r'.get? y).or (r.get? y) :=
  get?_insertAll r'.nodup_names

theorem get?_keep (p : String → Bool) :
    (r.keep p).get? y = if p y then r.get? y else none := by
  obtain ⟨es, hes⟩ := r
  show (es.filter fun e => p e.1).lookup y = if p y then es.lookup y else none
  clear hes
  induction es with
  | nil => simp
  | cons e es ih =>
    obtain ⟨n, w⟩ := e
    rw [List.filter_cons, lookup_cons_entry]
    by_cases hy : y = n
    · subst hy
      by_cases hp : p y
      · rw [if_pos hp, if_pos hp, lookup_cons_entry, if_pos rfl, if_pos rfl]
      · rw [if_neg hp, if_neg hp, ih, if_neg hp]
    · rw [if_neg hy]
      split_ifs at ih ⊢ with hp hn hn <;> first | exact ih | (rw [lookup_cons_entry, if_neg hy, ih])

/-! ### Equality -/

section Rel
variable {E : Value → Value → Prop} {o o' u u' : Option Value}

theorem rel_symm (hE : ∀ {v w}, E v w → E w v) (h : Option.Rel E o o') : Option.Rel E o' o := by
  cases h with
  | none => exact .none
  | some hvw => exact .some (hE hvw)

theorem rel_trans (hE : ∀ {u v w}, E u v → E v w → E u w) (h : Option.Rel E o o')
    (h' : Option.Rel E o' u) : Option.Rel E o u := by
  cases h with
  | none => exact h'
  | some hvw =>
    cases h' with
    | some hwu => exact .some (hE hvw hwu)

theorem rel_or (h : Option.Rel E o o') (h' : Option.Rel E u u') :
    Option.Rel E (o.or u) (o'.or u') := by
  cases h with
  | none => exact h'
  | some hvw => exact .some hvw

theorem rel_isSome (h : Option.Rel E o o') : o.isSome = o'.isSome := by
  cases h <;> rfl

theorem rel_equal_congr (h : Option.Rel Value.Alike o o') (h' : Option.Rel Value.Alike u u') :
    Option.Rel Value.Equal o u ↔ Option.Rel Value.Equal o' u' := by
  cases h with
  | none =>
    cases h' with
    | none => exact Iff.rfl
    | some => simp
  | some hv =>
    cases h' with
    | none => simp
    | some hw => simp [Value.Alike.beq_congr hv hw]

end Rel

/-- The records give the same names values, and these are paired. -/
def Alike (E : Value → Value → Prop) (r r' : Record) : Prop :=
  ∀ y, Option.Rel E (r.get? y) (r'.get? y)

section Alike
variable {E : Value → Value → Prop} {a a' : Record}

theorem Alike.contains_eq (h : r.Alike E r') (y : String) : r.contains y = r'.contains y :=
  rel_isSome (h y)

theorem Alike.keep (h : r.Alike E r') (p : String → Bool) : (r.keep p).Alike E (r'.keep p) := by
  intro y
  rw [get?_keep, get?_keep]
  split_ifs
  · exact h y
  · exact .none

theorem Alike.overlay (h : r.Alike E r') (ha : a.Alike E a') :
    (r.overlay a).Alike E (r'.overlay a') := by
  intro y
  rw [get?_overlay, get?_overlay]
  exact rel_or (ha y) (h y)

end Alike

/-- Records that give every name the same value are equal. -/
theorem ext_get? (h : ∀ y, r.get? y = r'.get? y) : r = r' := by
  refine ext ?_
  have hrel : ∀ y, Option.Rel (· = ·) (r.entries.lookup y) (r'.entries.lookup y) := by
    intro y
    rw [show r.entries.lookup y = r'.entries.lookup y from h y]
    cases r'.entries.lookup y with
    | none => exact .none
    | some v => exact .some rfl
  have hf := forall₂_of_lookup r.ascending r'.ascending hrel
  refine List.forall₂_eq_eq_eq ▸ (hf.imp fun a b hab => ?_)
  exact Prod.ext hab.1 hab.2

theorem eq_of_alike (h : r.Alike Eq r') : r = r' := by
  refine ext_get? fun y => ?_
  have hy := h y
  generalize r.get? y = o at hy ⊢
  generalize r'.get? y = o' at hy ⊢
  cases hy with
  | none => rfl
  | some hvw => rw [hvw]

theorem empty_overlay (r : Record) : empty.overlay r = r := by
  refine ext_get? fun y => ?_
  rw [get?_overlay, get?_empty, Option.or_none]

/-- Records are the same if they give every name equal values. -/
theorem same_iff : r == r' ↔ r.Alike Value.Equal r' := by
  have hbeq : ∀ es fs : List (String × Value), es == fs ↔
      List.Forall₂ (fun a b => a.1 = b.1 ∧ Value.Equal a.2 b.2) es fs := by
    intro es fs
    have hpair : ∀ a b : String × Value, (a == b) = true ↔ a.1 = b.1 ∧ Value.Equal a.2 b.2 := by
      rintro ⟨x, v⟩ ⟨y, w⟩
      simp [BEq.beq]
    simp only [beq_iff_forall₂, hpair]
  show r.entries == r'.entries ↔ _
  rw [hbeq]
  exact ⟨fun h y => lookup_of_forall₂ h y, forall₂_of_lookup r.ascending r'.ascending⟩

instance : PartialEquivBEq Record where
  symm h := same_iff.2 fun y => rel_symm BEq.symm (same_iff.1 h y)
  trans h h' := same_iff.2 fun y => rel_trans BEq.trans (same_iff.1 h y) (same_iff.1 h' y)

/-- A record equals itself if none of its values is NaN. -/
theorem beq_self_iff : r == r ↔ ∀ y v, r.get? y = some v → v.isNaN = false := by
  rw [same_iff]
  constructor
  · intro h y v hv
    have hy := h y
    rw [hv] at hy
    cases hy with
    | some hvv => exact Value.beq_self_iff.1 hvv
  · intro h y
    cases hv : r.get? y with
    | none => exact .none
    | some v => exact .some (Value.beq_self_iff.2 (h y v hv))

/-- The records give the name equal values, or neither gives it one. -/
theorem rel_get? (h : r == r') (y : String) : Option.Rel Value.Equal (r.get? y) (r'.get? y) :=
  same_iff.1 h y

theorem Alike.refl (r : Record) : r.Alike Value.Alike r := by
  intro y
  cases r.get? y with
  | none => exact .none
  | some v => exact .some (.refl v)

theorem Alike.of_beq (h : r == r') : r.Alike Value.Alike r' := by
  intro y
  have hy := rel_get? h y
  generalize r.get? y = o at hy ⊢
  generalize r'.get? y = o' at hy ⊢
  cases hy with
  | none => exact .none
  | some hvw => exact .some (.inr hvw)

theorem Alike.of_eq_or_beq (h : r = r' ∨ r == r') : r.Alike Value.Alike r' := by
  rcases h with rfl | h
  · exact .refl r
  · exact .of_beq h

theorem Alike.trans {r'' : Record} (h : r.Alike Value.Alike r') (h' : r'.Alike Value.Alike r'') :
    r.Alike Value.Alike r'' :=
  fun y => rel_trans Value.Alike.trans (h y) (h' y)

/-- No comparison tells records of alike values apart. -/
theorem Alike.beq_congr {a a' : Record} (h : r.Alike Value.Alike r') (ha : a.Alike Value.Alike a') :
    (r == a) = (r' == a') := by
  rw [Bool.eq_iff_iff, same_iff, same_iff]
  exact forall_congr' fun y => rel_equal_congr (h y) (ha y)

theorem not_mem_of_get?_none {names : List String} (h : ∀ x ∈ names, r.contains x = true)
    (hy : r.get? y = none) : y ∉ names := by
  intro hm
  have hc := h y hm
  unfold contains at hc
  rw [hy] at hc
  cases hc

end Record

/-! ### Texts -/

/-- No value but a text itself equals it. -/
theorem Value.eq_text_of_beq {v : Value} {text : String} (h : (v == .text text) = true) :
    v = .text text := by
  cases v with
  | text s => exact congrArg Value.text (beq_iff_eq.1 h)
  | _ => cases h

theorem Value.eq_of_beq_texts {vs ws : List Value} (hvs : ∀ v ∈ vs, ∃ text, v = .text text)
    (h : (vs == ws) = true) : vs = ws := by
  rw [beq_iff_forall₂] at h
  induction h with
  | nil => rfl
  | cons hvw _ ih =>
    obtain ⟨⟨text, rfl⟩, htail⟩ := List.forall_mem_cons.1 hvs
    rw [eq_text_of_beq (BEq.symm hvw), ih htail]

/-- A record of texts is the only one that equals it. -/
theorem Record.eq_of_beq_texts {r r' : Record} (h : r == r')
    (hr : ∀ y v, r.get? y = some v → ∃ text, v = .text text) : r' = r := by
  refine ext_get? fun y => ?_
  have hrel := rel_get? h y
  generalize r'.get? y = o at hrel ⊢
  cases hv : r.get? y with
  | none =>
    rw [hv] at hrel
    cases hrel
    rfl
  | some v =>
    obtain ⟨text, rfl⟩ := hr y v hv
    rw [hv] at hrel
    cases hrel with
    | some heq => rw [Value.eq_text_of_beq (BEq.symm heq)]

end PassageLogic
