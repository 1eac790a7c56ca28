import Mathlib.Data.List.Basic
import Mathlib.Data.List.Nodup
import Mathlib.Data.List.Flatten
import Mathlib.Data.List.Induction

/-! # Lists with each element once

`eraseDups` keeps the first of equal elements. Equality here may be coarser than identity, as it is
for values and records; and it need not be reflexive, in which case elements that do not equal themselves
are all kept. -/

namespace PassageLogic

variable {α : Type} [BEq α]

theorem eraseDups_sublist : ∀ l : List α, l.eraseDups.Sublist l
  | [] => .refl _
  | a :: l => by
    rw [List.eraseDups_cons]
    exact .cons_cons a ((eraseDups_sublist _).trans List.filter_sublist)
termination_by l => l.length
decreasing_by exact Nat.lt_succ_of_le (List.length_filter_le _ _)

theorem isEmpty_eraseDups (l : List α) : l.eraseDups.isEmpty = l.isEmpty := by
  cases l with
  | nil => rfl
  | cons a l =>
    rw [List.eraseDups_cons]
    rfl

/-- No element of a list without repetitions equals an earlier one. -/
theorem pairwise_eraseDups : ∀ l : List α, l.eraseDups.Pairwise fun a b => (b == a) = false
  | [] => .nil
  | a :: l => by
    rw [List.eraseDups_cons]
    refine .cons (fun b hb => ?_) (pairwise_eraseDups _)
    have := (List.mem_filter.1 ((eraseDups_sublist _).subset hb)).2
    rwa [Bool.not_eq_true'] at this
termination_by l => l.length
decreasing_by exact Nat.lt_succ_of_le (List.length_filter_le _ _)

/-- Every element of a list is kept or equals one that is kept. -/
theorem exists_mem_eraseDups : ∀ {l : List α} {a : α}, a ∈ l → ∃ b ∈ l.eraseDups, a = b ∨ a == b
  | [], a, h => by cases h
  | b :: l, a, h => by
    rw [List.eraseDups_cons]
    rcases List.mem_cons.1 h with rfl | hl
    · exact ⟨a, List.mem_cons_self, .inl rfl⟩
    · cases hab : a == b with
      | true => exact ⟨b, List.mem_cons_self, .inr hab⟩
      | false =>
        have hf : a ∈ l.filter fun c => !c == b := List.mem_filter.2 ⟨hl, by rw [hab]; rfl⟩
        obtain ⟨c, hc, hac⟩ := exists_mem_eraseDups hf
        exact ⟨c, List.mem_cons_of_mem _ hc, hac⟩
termination_by l => l.length
decreasing_by exact Nat.lt_succ_of_le (List.length_filter_le _ _)

theorem nodup_eraseDups [LawfulBEq α] (l : List α) : l.eraseDups.Nodup :=
  (pairwise_eraseDups l).imp fun h => (ne_of_beq_false h).symm

theorem eraseDups_of_nodup [LawfulBEq α] {l : List α} (h : l.Nodup) : l.eraseDups = l := by
  induction l with
  | nil => rfl
  | cons a l ih =>
    obtain ⟨ha, hl⟩ := List.nodup_cons.1 h
    have hfilter : (l.filter fun b => !b == a) = l :=
      List.filter_eq_self.2 fun b hb => by simpa using fun hab : b = a => ha (hab ▸ hb)
    rw [List.eraseDups_cons, hfilter, ih hl]

/-- The elements that equal no element of another list come after those of that list. -/
theorem eraseDups_append [PartialEquivBEq α] : ∀ l m : List α, (l ++ m).eraseDups =
    l.eraseDups ++ (m.filter fun b => !l.any fun a => b == a).eraseDups
  | [], m => by simp
  | a :: l, m => by
    have hfilter : (m.filter fun b => !b == a).filter
        (fun b => !(l.filter fun b => !b == a).any fun c => b == c) =
        m.filter fun b => !(a :: l).any fun c => b == c := by
      rw [List.filter_filter]
      refine List.filter_congr fun b _ => ?_
      cases hba : b == a with
      | true => simp [hba]
      | false =>
        -- what equals `b` does not equal `a`, and so it is not filtered out
        have hany : (l.filter fun c => !c == a).any (fun c => b == c) = l.any fun c => b == c := by
          rw [List.any_filter]
          refine List.any_congr rfl fun c => ?_
          cases hbc : b == c with
          | false => simp
          | true =>
            have hca : (c == a) = false := by
              by_contra h
              rw [BEq.trans hbc (by simpa using h)] at hba
              cases hba
            simp [hca]
        simp [hba, hany]
    rw [List.cons_append, List.eraseDups_cons, List.eraseDups_cons, List.filter_append,
      eraseDups_append (l.filter fun b => !b == a), hfilter, List.cons_append]
termination_by l => l.length
decreasing_by exact Nat.lt_succ_of_le (List.length_filter_le _ _)

/-- What is met first stays first. -/
theorem eraseDups_isPrefix [PartialEquivBEq α] (l m : List α) :
    l.eraseDups <+: (l ++ m).eraseDups := by
  rw [eraseDups_append]
  exact List.prefix_append _ _

theorem eraseDups_singleton (a : α) : [a].eraseDups = [a] := by
  rw [List.eraseDups_cons]
  rfl

theorem eraseDups_append_singleton [PartialEquivBEq α] (l : List α) (b : α) :
    (l ++ [b]).eraseDups = l.eraseDups ++ if l.any fun a => b == a then [] else [b] := by
  rw [eraseDups_append]
  cases hb : l.any fun a => b == a with
  | true => simp [hb]
  | false => simp [hb, eraseDups_singleton]

/-- Whether equal elements are dropped before or after a choice does not matter, if equal elements are
chosen alike. -/
theorem eraseDups_filter [PartialEquivBEq α] {p : α → Bool} (hp : ∀ a b, a == b → p a = p b)
    (l : List α) : (l.filter p).eraseDups = l.eraseDups.filter p := by
  induction l using List.reverseRecOn with
  | nil => rfl
  | append_singleton l b ih =>
    rw [List.filter_append, eraseDups_append_singleton, List.filter_append, ← ih]
    cases hb : p b with
    | false =>
      rw [List.filter_cons_of_neg (by simp [hb]), List.filter_nil, List.append_nil]
      split_ifs
      · simp
      · simp [hb]
    | true =>
      have hany : (l.filter p).any (fun a => b == a) = l.any fun a => b == a := by
        rw [List.any_filter]
        refine List.any_congr rfl fun a => ?_
        cases hba : b == a with
        | false => simp
        | true => simp [← hp b a hba, hb]
      rw [List.filter_cons_of_pos hb, List.filter_nil, eraseDups_append_singleton, hany]
      split_ifs
      · simp
      · simp [hb]

theorem eraseDups_map {β : Type} [BEq β] {f : α → β} : ∀ {l : List α},
    (∀ a ∈ l, ∀ b ∈ l, (f a == f b) = (a == b)) → (l.map f).eraseDups = l.eraseDups.map f
  | [], _ => rfl
  | a :: l, h => by
    have hfilter : (l.map f).filter (fun b => !b == f a) = (l.filter fun b => !b == a).map f := by
      rw [List.filter_map]
      congr 1
      refine List.filter_congr fun b hb => ?_
      rw [Function.comp_apply, h b (List.mem_cons_of_mem _ hb) a List.mem_cons_self]
    have hl : ∀ b ∈ l.filter (fun b => !b == a), ∀ c ∈ l.filter (fun b => !b == a),
        (f b == f c) = (b == c) := fun b hb c hc =>
      h b (List.mem_cons_of_mem _ (List.mem_of_mem_filter hb)) c
        (List.mem_cons_of_mem _ (List.mem_of_mem_filter hc))
    rw [List.map_cons, List.eraseDups_cons, List.eraseDups_cons, hfilter, eraseDups_map hl,
      List.map_cons]
termination_by l => l.length
decreasing_by exact Nat.lt_succ_of_le (List.length_filter_le _ _)

/-- Whether equal elements are dropped before or after a map does not matter, if it keeps them equal. -/
theorem eraseDups_map_eraseDups [PartialEquivBEq α] {β : Type} [BEq β] [PartialEquivBEq β] {f : α → β}
    (hf : ∀ a b, a == b → f a == f b) (l : List α) :
    (l.eraseDups.map f).eraseDups = (l.map f).eraseDups := by
  induction l using List.reverseRecOn with
  | nil => rfl
  | append_singleton l b ih =>
    have hany : (l.eraseDups.map f).any (fun c => f b == c) = (l.map f).any fun c => f b == c := by
      rw [Bool.eq_iff_iff, List.any_map, List.any_map, List.any_eq_true, List.any_eq_true]
      constructor
      · rintro ⟨a, ha, hba⟩
        exact ⟨a, (eraseDups_sublist l).subset ha, hba⟩
      · rintro ⟨a, ha, hba⟩
        obtain ⟨c, hc, rfl | hac⟩ := exists_mem_eraseDups ha
        · exact ⟨a, hc, hba⟩
        · exact ⟨c, hc, BEq.trans hba (hf a c hac)⟩
    rw [eraseDups_append_singleton, List.map_append, List.map_append, List.map_singleton,
      eraseDups_append_singleton, ← ih, ← hany]
    cases hb : l.any fun a => b == a with
    | true =>
      -- what equals an earlier element is mapped to what equals an earlier one
      have hfb : ((l.map f).any fun c => f b == c) = true := by
        obtain ⟨a, ha, hba⟩ := List.any_eq_true.1 hb
        exact List.any_eq_true.2 ⟨f a, List.mem_map.2 ⟨a, ha, rfl⟩, hf b a hba⟩
      simp [hany, hfb]
    | false => rw [if_neg (by simp), List.map_singleton, eraseDups_append_singleton]

/-- **What the first of equal origins give is kept**, if only equal origins give equal elements. -/
theorem sublist_eraseDups_flatMap [PartialEquivBEq α] {β : Type} [BEq β] [PartialEquivBEq β]
    {f : α → List β} {l : List α}
    (h : ∀ a ∈ l, ∀ b ∈ l, ∀ x ∈ f a, ∀ y ∈ f b, y == x → b == a) :
    (l.eraseDups.flatMap fun a => (f a).eraseDups).Sublist (l.flatMap f).eraseDups := by
  induction l using List.reverseRecOn with
  | nil => exact .refl _
  | append_singleton l b ih =>
    have hl := ih fun a ha c hc => h a (List.mem_append_left _ ha) c (List.mem_append_left _ hc)
    rw [eraseDups_append_singleton, List.flatMap_append, List.flatMap_append, List.flatMap_singleton,
      eraseDups_append]
    refine hl.append ?_
    cases hb : l.any fun a => b == a with
    | true => simp
    | false =>
      -- what an origin of its own gives equals nothing that the others give
      have hall : (f b).filter (fun y => !(l.flatMap f).any fun x => y == x) = f b := by
        rw [List.filter_eq_self]
        intro y hy
        by_contra hx
        obtain ⟨a, ha, x, hx, hyx⟩ : ∃ a ∈ l, ∃ x ∈ f a, y == x := by simpa using hx
        have hba := h a (List.mem_append_left _ ha) b (by simp) x hx y hy hyx
        rw [List.any_eq_true.2 ⟨a, ha, hba⟩] at hb
        cases hb
      rw [if_neg (by decide), List.flatMap_singleton, hall]

theorem map_eraseDups_sublist [PartialEquivBEq α] {β : Type} [BEq β] [PartialEquivBEq β] {f : α → β}
    {l : List α} (h : ∀ a ∈ l, ∀ b ∈ l, f b == f a → b == a) :
    (l.eraseDups.map f).Sublist (l.map f).eraseDups := by
  have hsub := sublist_eraseDups_flatMap (f := fun a => [f a]) fun a ha b hb x hx y hy hyx => by
    rw [List.mem_singleton.1 hx, List.mem_singleton.1 hy] at hyx
    exact h a ha b hb hyx
  simpa only [eraseDups_singleton, ← List.map_eq_flatMap] using hsub

end PassageLogic
