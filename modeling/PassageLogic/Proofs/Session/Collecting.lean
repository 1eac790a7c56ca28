import PassageLogic.Proofs.Session.Asking
import PassageLogic.Proofs.Logic.Distinct
import PassageLogic.Logic.Script
import Mathlib.Data.List.Infix

/-! # Collecting answers

The answers to a literal are the first distinct records of its stream, cut down to the visible names. A
fault counts if it comes before there are enough of them, and then the first one is reported
(`Act.collect_exact`). What comes after the last answer that is needed does not matter, and so a lower limit
gives the first answers of a higher one. -/

namespace PassageLogic

/-- The first elements: as many as the limit says, and all of them without a limit. -/
def upTo {α : Type} : Option Nat → List α → List α
  | none, l => l
  | some n, l => l.take n

/-- The first limit is no higher than the second one. To have no limit is the highest one. -/
def NotAbove (limit limit' : Option Nat) : Prop := ∀ n', limit' = some n' → ∃ n ≤ n', limit = some n

/-- The records of a stream, cut down to the visible names, each where it first occurs. -/
def distinctRecords (visible : List String) (items : List Item) : List Record :=
  ((items.filterMap fun item => item.toOption).map fun r => r.keep visible.contains).eraseDups

/-- **The fault comes before there are enough answers**, after these items of the stream. -/
structure Interrupts (visible : List String) (limit : Option Nat) (items before : List Item)
    (fault : Fault) : Prop where
  occurs : before ++ [.error fault] <+: items
  early : ∀ n, limit = some n → (distinctRecords visible before).length < n

theorem upTo_isPrefix {α : Type} {limit limit' : Option Nat} (h : NotAbove limit limit') (l : List α) :
    upTo limit l <+: upTo limit' l := by
  cases limit' with
  | none =>
    cases limit with
    | none => exact List.prefix_refl l
    | some n => exact List.take_prefix n l
  | some n' =>
    obtain ⟨n, hle, rfl⟩ := h n' rfl
    exact List.take_isPrefix_take.2 (.inl hle)

variable {visible : List String} {limit limit' : Option Nat} {rs : List Record} {fault fault' : Fault}
  {items before before' after : List Item}

/-- A fault that interrupts under a limit interrupts under a higher one. -/
theorem Interrupts.of_notAbove (h : Interrupts visible limit items before fault)
    (hle : NotAbove limit limit') : Interrupts visible limit' items before fault where
  occurs := h.occurs
  early n' hn' := by
    obtain ⟨n, hn, rfl⟩ := hle n' hn'
    exact Nat.lt_of_lt_of_le (h.early n rfl) hn

/-- There is only one fault in a place. -/
theorem Interrupts.fault_unique (h : Interrupts visible limit items before fault)
    (h' : Interrupts visible limit items before' fault') (hle : before <+: before')
    (hge : before' <+: before) : fault = fault' := by
  obtain rfl := hle.eq_of_length_le hge.length_le
  have heq : before ++ [.error fault] = before ++ [.error fault'] :=
    (List.prefix_of_prefix_length_le h.occurs h'.occurs (by simp)).eq_of_length (by simp)
  cases List.append_cancel_left heq
  rfl

/-! ### Distinct records -/

/-- More items only add distinct records at the end. -/
theorem distinctRecords_append (visible : List String) (before after : List Item) :
    distinctRecords visible before <+: distinctRecords visible (before ++ after) := by
  unfold distinctRecords
  rw [List.filterMap_append, List.map_append]
  exact eraseDups_isPrefix _ _

theorem distinctRecords_mono (visible : List String) (h : before <+: items) :
    (distinctRecords visible before).length ≤ (distinctRecords visible items).length := by
  obtain ⟨after, rfl⟩ := h
  exact (distinctRecords_append visible before after).length_le

/-! ### The first fault of a stream -/

/-- A stream has records only, or records and then a fault. -/
theorem exists_records (items : List Item) : ∃ rs : List Record,
    items = rs.map Except.ok ∨ ∃ fault after, items = rs.map Except.ok ++ .error fault :: after := by
  induction items with
  | nil => exact ⟨[], .inl rfl⟩
  | cons item items ih =>
    cases item with
    | error fault => exact ⟨[], .inr ⟨fault, items, rfl⟩⟩
    | ok r =>
      obtain ⟨rs, rfl | ⟨fault, after, rfl⟩⟩ := ih
      · exact ⟨r :: rs, .inl rfl⟩
      · exact ⟨r :: rs, .inr ⟨fault, after, rfl⟩⟩

/-- What comes before a fault begins with all records before the first one. -/
theorem records_isPrefix (h : before ++ [.error fault] <+: rs.map Except.ok ++ after) :
    rs.map Except.ok <+: before := by
  induction rs generalizing before with
  | nil => exact List.nil_prefix
  | cons r rs ih =>
    cases before with
    | nil => cases (List.cons_prefix_cons.1 h).1
    | cons item before =>
      obtain ⟨rfl, hrest⟩ := List.cons_prefix_cons.1 h
      exact List.cons_prefix_cons.2 ⟨rfl, ih hrest⟩

theorem recordsOf_records (rs : List Record) : recordsOf (rs.map Except.ok) = rs := by
  induction rs with
  | nil => rfl
  | cons r rs ih => exact congrArg (r :: ·) ih

theorem recordsOf_fault (rs : List Record) (fault : Fault) (after : List Item) :
    recordsOf (rs.map Except.ok ++ .error fault :: after) = rs := by
  induction rs with
  | nil => rfl
  | cons r rs ih => exact congrArg (r :: ·) ih

theorem firstFault?_records (rs : List Record) : firstFault? (rs.map Except.ok) = none := by
  induction rs with
  | nil => rfl
  | cons r rs ih => exact ih

theorem firstFault?_fault (rs : List Record) (fault : Fault) (after : List Item) :
    firstFault? (rs.map Except.ok ++ .error fault :: after) = some fault := by
  induction rs with
  | nil => rfl
  | cons r rs ih => exact ih

theorem distinctRecords_records (rs : List Record) : distinctRecords visible (rs.map Except.ok) =
    (rs.map fun r => r.keep visible.contains).eraseDups := by
  unfold distinctRecords
  rw [List.filterMap_map]
  congr 2
  exact List.filterMap_some

/-! ### Gathering -/

/-- Nothing has been seen at the start. -/
theorem filter_seen_nil (l : List Record) : (l.filter fun r => !([] : List Record).contains r) = l :=
  List.filter_eq_self.2 fun _ _ => rfl

theorem gather_records (limit : Option Nat) (rs : List Record) :
    gather visible limit [] (rs.map Except.ok) =
      .ok (upTo limit (distinctRecords visible (rs.map Except.ok))) := by
  rw [distinctRecords_records]
  cases limit with
  | none => rw [gather_unlimited, firstFault?_records, recordsOf_records, filter_seen_nil]; rfl
  | some n =>
    rw [gather_limited, firstFault?_records, recordsOf_records, filter_seen_nil]
    unfold answersWithin
    split_ifs with hle
    · rfl
    · rw [upTo, List.take_of_length_le (Nat.le_of_not_le hle)]

/-- A fault that comes before there are enough answers is what comes of gathering. -/
theorem gather_early (h : ∀ n, limit = some n → (distinctRecords visible (rs.map Except.ok)).length < n)
    (fault : Fault) (after : List Item) :
    gather visible limit [] (rs.map Except.ok ++ .error fault :: after) = .error fault := by
  rw [distinctRecords_records] at h
  cases limit with
  | none => rw [gather_unlimited, firstFault?_fault]
  | some n =>
    rw [gather_limited, firstFault?_fault, recordsOf_fault, filter_seen_nil]
    exact if_neg (Nat.not_le.2 (h n rfl))

/-- A fault after enough answers does not matter, and neither does anything else there. -/
theorem gather_enough {n : Nat} (h : n ≤ (distinctRecords visible (rs.map Except.ok)).length)
    (fault : Fault) (after : List Item) :
    gather visible (some n) [] (rs.map Except.ok ++ .error fault :: after) =
      .ok (upTo (some n) (distinctRecords visible (rs.map Except.ok ++ .error fault :: after))) := by
  obtain ⟨more, hmore⟩ := distinctRecords_append visible (rs.map Except.ok) (.error fault :: after)
  rw [upTo, ← hmore, List.take_append_of_le_length h]
  rw [distinctRecords_records] at h ⊢
  rw [gather_limited, firstFault?_fault, recordsOf_fault, filter_seen_nil]
  exact if_pos h

/-- **Either no fault interrupts and there are enough answers, or the first fault that does decides.** -/
theorem gather_cases (visible : List String) (limit : Option Nat) (items : List Item) :
    ((∀ before fault, ¬ Interrupts visible limit items before fault) ∧
      gather visible limit [] items = .ok (upTo limit (distinctRecords visible items))) ∨
    ∃ before fault, Interrupts visible limit items before fault ∧
      (∀ before' fault', Interrupts visible limit items before' fault' → before <+: before') ∧
      gather visible limit [] items = .error fault := by
  obtain ⟨rs, rfl | ⟨fault, after, rfl⟩⟩ := exists_records items
  · refine .inl ⟨fun before fault h => ?_, gather_records limit rs⟩
    have hmem := h.occurs.subset (List.mem_append_right _ (List.mem_singleton_self _))
    obtain ⟨r, -, hr⟩ := List.mem_map.1 hmem
    cases hr
  · by_cases hearly : ∀ n, limit = some n →
        (distinctRecords visible (rs.map Except.ok)).length < n
    · refine .inr ⟨rs.map Except.ok, fault, ⟨⟨after, by simp⟩, hearly⟩, fun before' fault' h => ?_,
        gather_early hearly fault after⟩
      exact records_isPrefix h.occurs
    · push Not at hearly
      obtain ⟨n, rfl, hn⟩ := hearly
      refine .inl ⟨fun before' fault' h => ?_, gather_enough hn fault after⟩
      -- a later fault has even more records before it
      have hle := distinctRecords_mono visible (records_isPrefix h.occurs)
      have hlt := h.early n rfl
      omega

/-- Collecting gathers from the stream, and reports the fault that decides for the query. -/
theorem Act.collect_cases {σ : Type} (e : Engine σ) (l : Literal) (visible : List String)
    (limit : Option Nat) (query : String) {S : Session σ} (h : (e.query l S.engine).1 = .ok items) :
    ((∀ before fault, ¬ Interrupts visible limit items before fault) ∧
      ((collect e l visible limit query).runIn S).1 = .ok (upTo limit (distinctRecords visible items))) ∨
    ∃ before fault, Interrupts visible limit items before fault ∧
      (∀ before' fault', Interrupts visible limit items before' fault' → before <+: before') ∧
      ((collect e l visible limit query).runIn S).1 = .error (Failure.ofFault fault query) := by
  have hgather : ((collect e l visible limit query).runIn S).1 =
      (gather visible limit [] items).mapError fun fault => Failure.ofFault fault query := by
    unfold collect
    simp only [runIn_bind, runIn_call, runIn_orFail, h]
    rfl
  rcases gather_cases visible limit items with ⟨hno, hok⟩ | ⟨before, fault, hint, hfirst, hf⟩
  · exact .inl ⟨hno, by rw [hgather, hok]; rfl⟩
  · exact .inr ⟨before, fault, hint, hfirst, by rw [hgather, hf]; rfl⟩

/-- **Collecting takes the first distinct visible records.** It succeeds just if no fault comes before there
are as many as the limit says, and then gives these, whatever comes after them. It fails with the first
fault that comes before, and too many answers are reported with the text of the query. So under a lower
limit it also succeeds, and gives the first of the answers under the higher one. -/
theorem Act.collect_exact {σ : Type} (e : Engine σ) (l : Literal) (visible : List String)
    (query : String) {S : Session σ} {items : List Item}
    (h : (e.query l S.engine).1 = .ok items) :
    let collected := fun limit => ((collect e l visible limit query).runIn S).1
    (∀ limit L, collected limit = .ok L ↔
      (∀ before fault, ¬ Interrupts visible limit items before fault) ∧
        L = upTo limit (distinctRecords visible items)) ∧
      (∀ limit failure, collected limit = .error failure ↔
        ∃ before fault, Interrupts visible limit items before fault ∧
          (∀ before' fault', Interrupts visible limit items before' fault' → before <+: before') ∧
          failure = match fault with
            | .answerLimit most => Failure.answerLimit query most
            | other => Failure.engine other) ∧
      ∀ limit limit' L', NotAbove limit limit' → collected limit' = .ok L' →
        ∃ L, collected limit = .ok L ∧ L <+: L' := by
  intro collected
  have hok : ∀ limit L, collected limit = .ok L ↔
      (∀ before fault, ¬ Interrupts visible limit items before fault) ∧
        L = upTo limit (distinctRecords visible items) := by
    intro limit L
    rcases collect_cases e l visible limit query h with
      ⟨hno, (hrun : collected limit = _)⟩ | ⟨before, fault, hint, -, (hrun : collected limit = _)⟩
    · rw [hrun, Except.ok.injEq, eq_comm]
      exact (and_iff_right hno).symm
    · rw [hrun]
      exact ⟨fun h => (nomatch h), fun ⟨hno, _⟩ => absurd hint (hno before fault)⟩
  refine ⟨hok, fun limit failure => ?_, fun limit limit' L' hle hL' => ?_⟩
  · rcases collect_cases e l visible limit query h with
      ⟨hno, (hrun : collected limit = _)⟩ | ⟨before, fault, hint, hfirst, (hrun : collected limit = _)⟩
    · rw [hrun]
      exact ⟨fun h => (nomatch h), fun ⟨before, fault, hint, _⟩ => absurd hint (hno before fault)⟩
    · rw [hrun, Except.error.injEq]
      constructor
      · rintro rfl
        exact ⟨before, fault, hint, hfirst, by cases fault <;> rfl⟩
      · rintro ⟨before', fault', hint', hfirst', rfl⟩
        obtain rfl : fault = fault' := hint.fault_unique hint' (hfirst _ _ hint') (hfirst' _ _ hint)
        cases fault <;> rfl
  · obtain ⟨hno, rfl⟩ := (hok limit' L').1 hL'
    refine ⟨_, (hok limit _).2 ⟨fun before fault hint => hno before fault ?_, rfl⟩, upTo_isPrefix hle _⟩
    exact hint.of_notAbove hle

/-- Who likes what, as far as the engine tells: there is more than it gives. -/
def supperItems : List Item :=
  [.ok (.ofList [("who", .text "sam"), ("what", .text "pizza")]),
    .ok (.ofList [("who", .text "sam"), ("what", .text "soup")]),
    .ok (.ofList [("who", .text "alex"), ("what", .text "soup")]), .error (.answerLimit 3)]

/-- The engine that answers with these items. -/
def supperScript : Script := ⟨[("likes % %", [supperItems])], [], [], []⟩

/-- Who likes something? -/
def supperQuery : Literal := .of "likes % %" [.var "who", .var "what"]

theorem collect_exact_supper :
    let collected := fun limit => ((Act.collect supperScript.engine supperQuery ["who"] limit
      "likes (who) ()").runIn ⟨[], 0, 0⟩).1
    (supperScript.engine.query supperQuery []).1 = .ok supperItems ∧
    -- two of them are enough, and the fault is not reached
    collected (some 2) = .ok [.ofList [("who", .text "sam")], .ofList [("who", .text "alex")]] ∧
    (∀ before fault, ¬ Interrupts ["who"] (some 2) supperItems before fault) ∧
    (∃ L, collected (some 1) = .ok L ∧
      L <+: [.ofList [("who", .text "sam")], .ofList [("who", .text "alex")]]) ∧
    collected none = .error (.answerLimit "likes (who) ()" 3) ∧
    ∃ before fault, Interrupts ["who"] none supperItems before fault := by
  intro collected
  have hitems : (supperScript.engine.query supperQuery []).1 = .ok supperItems := by rfl
  obtain ⟨hok, hfail, hlower⟩ := Act.collect_exact supperScript.engine supperQuery ["who"]
    "likes (who) ()" (S := ⟨[], 0, 0⟩) hitems
  have htwo : collected (some 2) =
      .ok [.ofList [("who", .text "sam")], .ofList [("who", .text "alex")]] := by rfl
  have hall : collected none = .error (.answerLimit "likes (who) ()" 3) := by rfl
  have hle : NotAbove (some 1) (some 2) := fun n' hn' => ⟨1, by cases hn'; decide, rfl⟩
  obtain ⟨before, fault, hint, -, -⟩ := (hfail none _).1 hall
  exact ⟨hitems, htwo, ((hok (some 2) _).1 htwo).1, hlower _ _ _ hle htwo, hall, before, fault, hint⟩

end PassageLogic
