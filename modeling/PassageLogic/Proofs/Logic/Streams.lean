import PassageLogic.Logic.Store
import Mathlib.Data.List.Basic
import Mathlib.Tactic.SplitIfs

/-! # Streams of answers

The stream of a query shows the first solutions of one search and then the fault, if there is one.
Without a fault it shows all solutions (`not_fails_iff`). -/

namespace PassageLogic

theorem Limits.above_ne_zero (limit : Nat) : Limits.above limit ≠ 0 := by
  unfold above largest
  omega

namespace Store

variable {store : Store} {q : Literal} {r : Record}

/-- The search behind the stream of a query. -/
def search (store : Store) (q : Literal) : Outcome :=
  Search.run store.clauses store.limits.depth q (Limits.above store.limits.answers)

/-- The records of a stream. -/
def records (store : Store) (q : Literal) : List Record :=
  (store.answers q).filterMap fun item => item.toOption

/-- The stream shows a fault. -/
def Fails (store : Store) (q : Literal) : Prop := ∃ fault, Except.error fault ∈ store.answers q

theorem answers_eq (store : Store) (q : Literal) :
    store.answers q =
      (((store.search q).found.take store.limits.answers).map fun t => .ok (t.project q)) ++
        match (store.search q).fault with
        | some fault => [.error fault]
        | none => if store.limits.answers < (store.search q).found.length then
            [.error (.answerLimit store.limits.answers)] else [] := by
  show (match (store.search q).fault with
    | some fault => _ ++ [Except.error fault]
    | none => if store.limits.answers < (store.search q).found.length then
        _ ++ [Except.error (Fault.answerLimit store.limits.answers)] else _) = _
  cases (store.search q).fault with
  | some fault => rfl
  | none =>
    by_cases h : store.limits.answers < (store.search q).found.length
    · simp only [if_pos h]
      rfl
    · simp only [if_neg h, List.append_nil]
      rfl

theorem records_eq (store : Store) (q : Literal) : store.records q =
    ((store.search q).found.take store.limits.answers).map fun t => t.project q := by
  have hmap : ∀ found : List Substitution, (found.map fun t => (.ok (t.project q) : Item)).filterMap
      (fun item : Item => item.toOption) = found.map fun t => t.project q := by
    intro found
    rw [List.filterMap_map, ← List.filterMap_eq_map]
    rfl
  unfold records
  rw [answers_eq, List.filterMap_append, hmap]
  refine (congrArg _ ?_).trans (List.append_nil _)
  cases (store.search q).fault with
  | some fault => rfl
  | none =>
    simp only []
    split_ifs <;> rfl

/-- Every record of a stream comes from a solution that the search has found. -/
theorem mem_answers (h : .ok r ∈ store.answers q) :
    ∃ t ∈ (store.search q).found, r = t.project q := by
  rw [answers_eq] at h
  rcases List.mem_append.1 h with h | h
  · obtain ⟨t, ht, he⟩ := List.mem_map.1 h
    cases he
    exact ⟨t, List.mem_of_mem_take ht, rfl⟩
  · split at h
    · simp at h
    · split_ifs at h <;> simp at h

/-- **A stream shows no fault if the search ended without one, within the limit.** It then shows all
solutions. -/
theorem not_fails_iff : ¬ store.Fails q ↔
    (store.search q).fault = none ∧ (store.search q).found.length ≤ store.limits.answers := by
  unfold Fails
  rw [answers_eq]
  constructor
  · intro h
    cases hf : (store.search q).fault with
    | some fault => exact absurd ⟨fault, by rw [hf]; simp⟩ h
    | none =>
      refine ⟨rfl, ?_⟩
      by_contra hlt
      refine h ⟨.answerLimit store.limits.answers, ?_⟩
      rw [hf]
      simp only []
      rw [if_pos (by omega)]
      simp
  · rintro ⟨hf, hle⟩ ⟨fault, h⟩
    rw [hf] at h
    simp only [] at h
    rw [if_neg (by omega), List.append_nil, List.mem_map] at h
    obtain ⟨t, -, ht⟩ := h
    cases ht

theorem answers_of_not_fails (h : ¬ store.Fails q) :
    store.answers q = (store.search q).found.map fun t => .ok (t.project q) := by
  obtain ⟨hf, hle⟩ := not_fails_iff.1 h
  rw [answers_eq, hf]
  simp only []
  rw [if_neg (by omega), List.take_of_length_le hle, List.append_nil]

theorem records_of_not_fails (h : ¬ store.Fails q) :
    store.records q = (store.search q).found.map fun t => t.project q := by
  rw [records_eq, List.take_of_length_le (not_fails_iff.1 h).2]

/-- A stream without a fault that is shorter than the largest number shows the solutions of a search
that was not cut short. -/
theorem search_finished (h : ¬ store.Fails q) (hl : (store.answers q).length < Limits.largest) :
    (store.search q).fault = none ∧
      (store.search q).found.length < Limits.above store.limits.answers := by
  obtain ⟨hf, hle⟩ := not_fails_iff.1 h
  rw [answers_of_not_fails h, List.length_map] at hl
  refine ⟨hf, ?_⟩
  unfold Limits.above
  omega

end Store
end PassageLogic
