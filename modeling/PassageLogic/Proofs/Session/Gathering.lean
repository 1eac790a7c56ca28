import PassageLogic.Session.Ask
import Mathlib.Data.List.Basic
import Mathlib.Tactic.SplitIfs

/-! # Gathering records from a stream

The equations of gathering for each kind of item, and what follows from them:

* `gather_congr`: nothing matters but the faults and the visible parts of the records.
* `gather_limit`: a limit that is not reached does not matter.
* `gather_limited`: under a limit these are the first of the distinct records before the first fault if
  there are enough of them, and otherwise the fault decides.
* `gather_unlimited`: without a limit these are the distinct records of the stream, in order, if there is no
  fault in it. -/

namespace PassageLogic

theorem map_eq_ok {ε α β : Type} {f : α → β} {r : Except ε α} {b : β} (h : r.map f = .ok b) :
    ∃ a, r = .ok a ∧ f a = b := by
  cases r with
  | error e => cases h
  | ok a =>
    cases h
    exact ⟨a, rfl, rfl⟩

variable {visible : List String} {limit : Option Nat} {seen L : List Record} {items items' : List Item}

theorem gather_nil : gather visible limit seen [] = .ok [] := by
  unfold gather
  split <;> simp_all

theorem gather_zero : gather visible (some 0) seen items = .ok [] := by
  unfold gather
  rfl

theorem gather_error (hl : limit ≠ some 0) (f : Fault) :
    gather visible limit seen (.error f :: items) = .error f := by
  unfold gather
  split <;> simp_all

theorem gather_record (hl : limit ≠ some 0) (r : Record) :
    gather visible limit seen (.ok r :: items) =
      if seen.contains (r.keep visible.contains) then gather visible limit seen items
      else (gather visible (limit.map (· - 1)) (r.keep visible.contains :: seen) items).map
        (r.keep visible.contains :: ·) := by
  conv_lhs => unfold gather
  split <;> simp_all

/-- **Streams with the same faults and the same visible parts of records are gathered alike.** -/
theorem gather_congr (h : items'.map (Except.map fun r => r.keep visible.contains) =
    items.map (Except.map fun r => r.keep visible.contains)) :
    gather visible limit seen items' = gather visible limit seen items := by
  induction items generalizing items' limit seen with
  | nil => rw [List.map_eq_nil_iff.1 h]
  | cons item items ih =>
    obtain ⟨item', items', rfl, hitem, hitems⟩ := List.map_eq_cons_iff.1 h
    rcases eq_or_ne limit (some 0) with rfl | hl
    · rw [gather_zero, gather_zero]
    · cases item with
      | error f =>
        cases item' with
        | error g =>
          cases hitem
          rw [gather_error hl, gather_error hl]
        | ok r => cases hitem
      | ok r =>
        cases item' with
        | error g => cases hitem
        | ok r' =>
          have hkeep : r'.keep visible.contains = r.keep visible.contains := Except.ok.inj hitem
          rw [gather_record hl, gather_record hl, hkeep]
          split_ifs
          · exact ih hitems
          · rw [ih hitems]

/-- What is gathered under a limit that it does not reach is gathered under any that it does not. -/
theorem gather_limit {n m : Nat} (h : gather visible (some n) seen items = .ok L)
    (hn : L.length < n) (hm : L.length < m) : gather visible (some m) seen items = .ok L := by
  induction items generalizing n m seen L with
  | nil =>
    rw [gather_nil] at h ⊢
    exact h
  | cons item items ih =>
    have hn0 : some n ≠ some 0 := by simp; omega
    have hm0 : some m ≠ some 0 := by simp; omega
    cases item with
    | error f =>
      rw [gather_error hn0] at h
      cases h
    | ok r =>
      rw [gather_record hn0] at h
      rw [gather_record hm0]
      split_ifs at h ⊢ with hs
      · exact ih h hn hm
      · obtain ⟨M, hM, rfl⟩ := map_eq_ok h
        rw [List.length_cons] at hn hm
        have hM' := ih hM (Nat.lt_sub_of_add_lt hn) (Nat.lt_sub_of_add_lt hm)
        rw [Option.map_some, hM']
        rfl

/-! ### Distinct records before the first fault -/

/-- The records of a stream before its first fault. -/
def recordsOf : List Item → List Record
  | .ok r :: items => r :: recordsOf items
  | _ => []

/-- The first fault of a stream. -/
def firstFault? : List Item → Option Fault
  | [] => none
  | .ok _ :: items => firstFault? items
  | .error fault :: _ => some fault

/-- The records before the first fault, cut down to the visible names, each where it first occurs. -/
def distinctAnswers (visible : List String) (items : List Item) : List Record :=
  ((recordsOf items).map fun r => r.keep visible.contains).eraseDups

/-- The answers under a limit, if these are the distinct ones and this the fault that follows. -/
def answersWithin (n : Nat) (answers : List Record) (fault? : Option Fault) :
    Except Fault (List Record) :=
  if n ≤ answers.length then .ok (answers.take n)
  else
    match fault? with
    | some fault => .error fault
    | none => .ok answers

theorem answersWithin_zero (answers : List Record) (fault? : Option Fault) :
    answersWithin 0 answers fault? = .ok [] :=
  if_pos (Nat.zero_le _)

theorem answersWithin_cons (n : Nat) (r : Record) (answers : List Record) (fault? : Option Fault) :
    answersWithin (n + 1) (r :: answers) fault? =
      (answersWithin n answers fault?).map (r :: ·) := by
  unfold answersWithin
  rw [List.length_cons]
  by_cases h : n ≤ answers.length
  · rw [if_pos (Nat.succ_le_succ h), if_pos h]
    rfl
  · rw [if_neg fun h' => h (Nat.le_of_succ_le_succ h'), if_neg h]
    cases fault? <;> rfl

/-- What was not seen yet, each once, after a record that was not. -/
theorem eraseDups_unseen_cons {r : Record} (hs : ¬ seen.contains r = true) (rs : List Record) :
    ((r :: rs).filter fun b => !seen.contains b).eraseDups =
      r :: (rs.filter fun b => !(r :: seen).contains b).eraseDups := by
  rw [List.filter_cons_of_pos (by simpa using hs), List.eraseDups_cons, List.filter_filter]
  refine congrArg (fun rs => r :: List.eraseDups rs) (List.filter_congr fun b _ => ?_)
  rw [List.contains_cons, Bool.not_or]

/-- **What is gathered under a limit.** -/
theorem gather_limited (n : Nat) : gather visible (some n) seen items = answersWithin n
    (((recordsOf items).map fun r => r.keep visible.contains).filter
      fun r => !seen.contains r).eraseDups (firstFault? items) := by
  induction items generalizing n seen with
  | nil =>
    rw [gather_nil]
    cases n <;> rfl
  | cons item items ih =>
    cases n with
    | zero => rw [gather_zero, answersWithin_zero]
    | succ n =>
      have hn : some (n + 1) ≠ some 0 := by simp
      cases item with
      | error fault =>
        rw [gather_error hn]
        rfl
      | ok r =>
        rw [gather_record hn, recordsOf, firstFault?, List.map_cons]
        split_ifs with hs
        · rw [ih, List.filter_cons_of_neg (by simpa using hs)]
        · rw [eraseDups_unseen_cons hs, answersWithin_cons, Option.map_some, Nat.add_sub_cancel, ih]

/-- **What is gathered without a limit.** -/
theorem gather_unlimited : gather visible none seen items =
    match firstFault? items with
    | some fault => .error fault
    | none => .ok (((recordsOf items).map fun r => r.keep visible.contains).filter
        fun r => !seen.contains r).eraseDups := by
  induction items generalizing seen with
  | nil => rfl
  | cons item items ih =>
    cases item with
    | error fault => rfl
    | ok r =>
      rw [gather_record (by simp), recordsOf, firstFault?, List.map_cons]
      split_ifs with hs
      · rw [ih, List.filter_cons_of_neg (by simpa using hs)]
      · rw [eraseDups_unseen_cons hs, Option.map_none, ih]
        cases firstFault? items <;> rfl

theorem gather_all (visible : List String) (items : List Item) : gather visible none [] items =
    match firstFault? items with
    | some fault => .error fault
    | none => .ok ((recordsOf items).map fun r => r.keep visible.contains).eraseDups := by
  rw [gather_unlimited]
  cases firstFault? items <;> simp

theorem firstFault?_map (f : Record → Record) (items : List Item) :
    firstFault? (items.map (Except.map f)) = firstFault? items := by
  induction items with
  | nil => rfl
  | cons item items ih =>
    cases item with
    | error fault => rfl
    | ok r => exact ih

theorem recordsOf_map (f : Record → Record) (items : List Item) :
    recordsOf (items.map (Except.map f)) = (recordsOf items).map f := by
  induction items with
  | nil => rfl
  | cons item items ih =>
    cases item with
    | error fault => rfl
    | ok r => exact congrArg (f r :: ·) ih

theorem recordsOf_of_no_fault (h : firstFault? items = none) :
    (∀ fault, .error fault ∉ items) ∧ recordsOf items = items.filterMap fun item => item.toOption := by
  induction items with
  | nil => exact ⟨by simp, rfl⟩
  | cons item items ih =>
    cases item with
    | error fault => cases h
    | ok r =>
      obtain ⟨hno, hrecords⟩ := ih h
      exact ⟨by simpa using hno, congrArg (r :: ·) hrecords⟩

/-- The records of a stream that are not among those seen before, each once. -/
theorem gather_eq_ok (h : gather visible none seen items = .ok L) :
    (∀ fault, .error fault ∉ items) ∧
      L = (((items.filterMap fun item => item.toOption).map fun r => r.keep visible.contains).filter
        fun r => !seen.contains r).eraseDups := by
  rw [gather_unlimited] at h
  cases hfault : firstFault? items with
  | some fault =>
    rw [hfault] at h
    cases h
  | none =>
    obtain ⟨hno, hrecords⟩ := recordsOf_of_no_fault hfault
    rw [hfault, hrecords] at h
    cases h
    exact ⟨hno, rfl⟩

end PassageLogic
