import PassageLogic.Proofs.Logic.SearchLimits
import PassageLogic.Proofs.Logic.Streams
import PassageLogic.Proofs.Session.Gathering
import Mathlib.Data.List.Infix

/-! # Raised limits

A search with a larger bound goes on where the fault of the smaller one was, and is the same if there
was none. So a stream under larger limits begins with the records of the stream under smaller ones
(`answers_continued`), and what was gathered from the one is gathered from the other
(`gather_continued`): a limit turns answers into a failure, and never into other answers. -/

namespace PassageLogic

namespace Search

variable {clauses : List Clause} {bound : Nat}

/-- **A search with a larger bound finds what the smaller one found, and then more only where the
smaller one ended in a fault.** -/
theorem run_deepened {bound bound' : Nat} (h : bound ≤ bound') (goal : Literal) (want : Nat) :
    Deepened (run clauses bound goal want) (run clauses bound' goal want) :=
  deepened_steps.solve (bound + 1) [goal] [] want 0 bound' (bound' + 1) (Nat.succ_le_succ h)

theorem run_found_begins {want want' : Nat} (h : want ≤ want') (goal : Literal) :
    (run clauses bound goal want).found <+: (run clauses bound goal want').found := by
  unfold run
  rw [(solve_cap clauses bound (bound + 1) [goal] [] 0 h).found]
  exact List.take_prefix _ _

end Search

/-! ### Limits -/

/-- No limit is lower. -/
structure Limits.RaisedTo (l m : Limits) : Prop where
  depth : l.depth ≤ m.depth
  answers : l.answers ≤ m.answers

theorem Limits.above_mono {m n : Nat} (h : m ≤ n) : above m ≤ above n := by
  unfold above
  omega

/-- What stays within a limit is below the number that is looked for under it, unless no larger number
is ever looked for. -/
theorem Limits.lt_above_or {k limit limit' : Nat} (hk : k ≤ limit) (h : limit ≤ limit') :
    above limit' = above limit ∨ k < above limit ∧ k < above limit' := by
  unfold above
  omega

/-- A store and one with the same clauses and no lower limits. -/
structure Store.RaisedTo (s t : Store) : Prop where
  clauses : t.clauses = s.clauses
  limits : s.limits.RaisedTo t.limits

/-! ### Streams -/

/-- A stream and one that goes on where its fault was. -/
inductive Continued : List Item → List Item → Prop
  | refl (items : List Item) : Continued items items
  | fault (f : Fault) (items : List Item) : Continued [.error f] items
  | record (r : Record) {items items' : List Item} (h : Continued items items') :
      Continued (.ok r :: items) (.ok r :: items')

theorem Continued.of_begins {rs : List Record} (f : Fault) {items : List Item}
    (h : rs.map Except.ok <+: items) : Continued (rs.map Except.ok ++ [.error f]) items := by
  induction rs generalizing items with
  | nil => exact .fault f items
  | cons r rs ih =>
    obtain ⟨rest, rfl⟩ := h
    exact .record r (ih ⟨rest, rfl⟩)

namespace Store

variable {s t : Store}

theorem search_found_begins (h : s.RaisedTo t) (q : Literal) :
    (s.search q).found <+: (t.search q).found := by
  unfold search
  rw [h.clauses]
  exact (Search.run_deepened h.limits.depth q _).found.trans
    (Search.run_found_begins (Limits.above_mono h.limits.answers) q)

/-- A search whose stream shows no fault is the same with larger limits. -/
theorem search_raised (h : s.RaisedTo t) {q : Literal} (hno : ¬ s.Fails q) :
    t.search q = s.search q := by
  obtain ⟨hf, hle⟩ := not_fails_iff.1 hno
  unfold search at hf hle ⊢
  have hdeep := (Search.run_deepened h.limits.depth q (Limits.above s.limits.answers)).same hf
  rw [h.clauses]
  rcases Limits.lt_above_or hle h.limits.answers with he | ⟨hlt, hlt'⟩
  · rw [he, hdeep]
  · rw [← hdeep] at hlt hlt'
    rw [← hdeep]
    exact Search.solve_want hlt hlt'

theorem records_begin (h : s.RaisedTo t) (q : Literal) :
    (s.records q).map Except.ok <+: t.answers q := by
  rw [answers_eq t q, records_eq, List.map_map]
  have htake : (s.search q).found.take s.limits.answers <+:
      (t.search q).found.take t.limits.answers :=
    (List.IsPrefix.take (search_found_begins h q) _).trans
      (List.take_isPrefix_take.2 (.inl h.limits.answers))
  exact (htake.map _).trans (List.prefix_append _ _)

/-- A stream with a fault shows records and then the fault. -/
theorem answers_of_fails {q : Literal} (h : s.Fails q) :
    ∃ f, s.answers q = (s.records q).map Except.ok ++ [.error f] := by
  have hend : ∃ f, s.answers q = (((s.search q).found.take s.limits.answers).map fun t =>
      .ok (t.project q)) ++ [.error f] := by
    rw [answers_eq]
    cases hf : (s.search q).fault with
    | some f => exact ⟨f, rfl⟩
    | none =>
      have hlt : s.limits.answers < (s.search q).found.length := by
        by_contra hle
        exact not_fails_iff.2 ⟨hf, Nat.not_lt.1 hle⟩ h
      exact ⟨.answerLimit s.limits.answers, by simp only [if_pos hlt]⟩
  obtain ⟨f, hf⟩ := hend
  refine ⟨f, ?_⟩
  rw [hf, records_eq, List.map_map]
  rfl

/-- **The stream under larger limits goes on where the fault of the other one was.** -/
theorem answers_continued (h : s.RaisedTo t) (q : Literal) :
    Continued (s.answers q) (t.answers q) := by
  by_cases hno : s.Fails q
  · obtain ⟨f, hf⟩ := answers_of_fails hno
    rw [hf]
    exact Continued.of_begins f (records_begin h q)
  · have hs := search_raised h hno
    have hno' : ¬ t.Fails q := by
      obtain ⟨hf, hle⟩ := not_fails_iff.1 hno
      rw [not_fails_iff, hs]
      exact ⟨hf, Nat.le_trans hle h.limits.answers⟩
    rw [answers_of_not_fails hno, answers_of_not_fails hno', hs]
    exact .refl _

end Store

/-! ### Gathering -/

/-- **What is gathered from a stream is gathered from one that continues it.** -/
theorem gather_continued {visible : List String} {limit : Option Nat} {seen L : List Record}
    {items items' : List Item} (hc : Continued items items')
    (h : gather visible limit seen items = .ok L) : gather visible limit seen items' = .ok L := by
  induction hc generalizing limit seen L with
  | refl items => exact h
  | fault f items =>
    rcases eq_or_ne limit (some 0) with rfl | hl
    · rwa [gather_zero] at h ⊢
    · rw [gather_error hl] at h
      cases h
  | record r hc ih =>
    rcases eq_or_ne limit (some 0) with rfl | hl
    · rwa [gather_zero] at h ⊢
    · rw [gather_record hl] at h ⊢
      split_ifs at h ⊢ with hs
      · exact ih h
      · obtain ⟨M, hM, rfl⟩ := map_eq_ok h
        rw [ih hM]
        rfl

end PassageLogic
