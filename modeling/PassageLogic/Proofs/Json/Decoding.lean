import PassageLogic.Json.Codec
import PassageLogic.Proofs.Json.WrittenDocuments
import PassageLogic.Proofs.Session.Directives

/-! # Decoding what was encoded

Encoders put documents together from texts, truth values and integers with arrays and with objects whose
names are fixed. Such documents are plain: they are read back, and they are sound and shallow enough for
a choice of kinds, which is read as a whole first (`Plain`). Decoders take them apart again: a record
whose members have the names of its fields gives the values in order (`fields?_ofMembers`), a choice gives
the position of its kind and the other members (`choice?_ofMembers`), and an array its items
(`list?_encoded`). -/

namespace PassageLogic

namespace Json

/-! ### Plain documents -/

/-- A document that is read back as it was written and that a choice of kinds takes, if it is nested
no deeper than `n`. -/
structure Plain (n : Nat) (j : Json) : Prop where
  wellFormed : j.WellFormed
  isSound : j.isSound = true
  height_le : j.height ≤ n

section Plain
variable {n : Nat} {j : Json} {js : List Json} {ms : List (String × Json)}

theorem isSoundItems_eq (js : List Json) : isSoundItems js = js.all isSound := by
  induction js with
  | nil => rfl
  | cons j js ih => rw [isSoundItems, ih, List.all_cons]

theorem isSoundMembers_eq (ms : List (Option String × Json)) :
    isSoundMembers ms = ms.all fun m => m.1.isSome && m.2.isSound := by
  induction ms with
  | nil => rfl
  | cons m ms ih => rw [isSoundMembers, ih, List.all_cons]

theorem heightItems_le (h : ∀ j ∈ js, j.height ≤ n) : heightItems js ≤ n := by
  induction js with
  | nil => exact Nat.zero_le n
  | cons j js ih =>
    obtain ⟨hj, hjs⟩ := List.forall_mem_cons.1 h
    exact Nat.max_le.2 ⟨hj, ih hjs⟩

theorem heightMembers_le {ms : List (Option String × Json)} (h : ∀ m ∈ ms, m.2.height ≤ n) :
    heightMembers ms ≤ n := by
  induction ms with
  | nil => exact Nat.zero_le n
  | cons m ms ih =>
    obtain ⟨hm, hms⟩ := List.forall_mem_cons.1 h
    exact Nat.max_le.2 ⟨hm, ih hms⟩

theorem plain_text (n : Nat) (s : String) : (text s).Plain n :=
  ⟨.text s, rfl, Nat.zero_le n⟩

theorem plain_bool (n : Nat) (b : Bool) : (Json.bool b).Plain n :=
  ⟨.bool b, rfl, Nat.zero_le n⟩

theorem plain_array (h : ∀ j ∈ js, j.Plain n) : (array js).Plain (n + 1) where
  wellFormed := .array fun j hj => (h j hj).wellFormed
  isSound := by
    rw [isSound, isSoundItems_eq, List.all_eq_true]
    exact fun j hj => (h j hj).isSound
  height_le := Nat.succ_le_succ (heightItems_le fun j hj => (h j hj).height_le)

/-- An array of plain items of one type. -/
theorem plain_map {α : Type} {encode : α → Json} {xs : List α} (h : ∀ x ∈ xs, (encode x).Plain n) :
    (array (xs.map encode)).Plain (n + 1) :=
  plain_array (List.forall_mem_map.2 h)

theorem plain_ofMembers (h : ∀ m ∈ ms, m.2.Plain n) : (ofMembers ms).Plain (n + 1) where
  wellFormed := .object (List.forall_mem_map.2 fun _ _ => rfl)
    (List.forall_mem_map.2 fun m hm => (h m hm).wellFormed)
  isSound := by
    rw [ofMembers, isSound, isSoundMembers_eq, List.all_eq_true]
    exact List.forall_mem_map.2 fun m hm => (h m hm).isSound
  height_le := Nat.succ_le_succ
    (heightMembers_le (List.forall_mem_map.2 fun m hm => (h m hm).height_le))

theorem Plain.mono {m : Nat} (h : j.Plain n) (hnm : n ≤ m) : j.Plain m :=
  ⟨h.wellFormed, h.isSound, h.height_le.trans hnm⟩

/-- A plain document is taken where there is room for its height. -/
theorem Plain.isReadable (h : j.Plain n) {count : Nat} (hcount : count + n ≤ deepest) :
    isReadable (.inside count) j = true := by
  have hheight := h.height_le
  simp only [Json.isReadable, h.isSound, Bool.true_and, decide_eq_true_eq]
  omega

end Plain

/-! ### Decoding -/

section Decoding
variable {α : Type} {encode : α → Json} {decode : Json → Option α} {ms : List (String × Json)}

@[simp] theorem text?_text (s : String) : text? (text s) = some s := rfl

@[simp] theorem bool?_bool (b : Bool) : bool? (.bool b) = some b := rfl

/-- Encoded items are decoded one by one. -/
theorem list?_encoded {xs : List α} (h : ∀ x ∈ xs, decode (encode x) = some x) :
    list? decode (.array (xs.map encode)) = some xs :=
  mapM_eq_some (List.forall₂_map_left_iff.2 (List.forall₂_same.2 h))

theorem filter_name (hms : (ms.map Prod.fst).Nodup) {m : String × Json} (hm : m ∈ ms) :
    (ms.filter fun m' => m'.1 == m.1) = [m] := by
  induction ms with
  | nil => cases hm
  | cons m' ms ih =>
    obtain ⟨hnew, hms⟩ := List.nodup_cons.1 hms
    rcases List.mem_cons.1 hm with rfl | hm
    · rw [List.filter_cons_of_pos (by simp), List.filter_eq_nil_iff.2]
      intro m' hm' heq
      exact hnew (List.mem_map.2 ⟨m', hm', beq_iff_eq.1 heq⟩)
    · rw [List.filter_cons_of_neg, ih hms hm]
      intro heq
      exact hnew (List.mem_map.2 ⟨m, hm, (beq_iff_eq.1 heq).symm⟩)

/-- The member of a name is the only one of that name. -/
theorem single?_ofMembers (hms : (ms.map Prod.fst).Nodup) {m : String × Json} (hm : m ∈ ms) :
    single? m.1 (ms.map fun m => (some m.1, m.2)) = some (some m.2) := by
  have hfilter : ((ms.map fun m => (some m.1, m.2)).filter fun m' => m'.1 == some m.1) =
      [(some m.1, m.2)] := by
    rw [List.filter_map]
    have hname : (fun m' : Option String × Json => m'.1 == some m.1) ∘
        (fun m' : String × Json => (some m'.1, m'.2)) = fun m' => m'.1 == m.1 := by
      funext m'
      simp
    rw [hname, filter_name hms hm, List.map_singleton]
  unfold single?
  rw [hfilter]

/-- The fields of some of the members, in their order. The members that are searched stay the same while
the fields go by. -/
theorem objectFields_ofMembers (hms : (ms.map Prod.fst).Nodup) {fs : List Field}
    {found : List (String × Json)} (hfs : fs.map Prod.fst = found.map Prod.fst) (hfound : found ⊆ ms) :
    objectFields (ms.map fun m => (some m.1, m.2)) fs = some (found.map fun m => some m.2) := by
  induction fs generalizing found with
  | nil =>
    rw [List.map_eq_nil_iff.1 hfs.symm]
    rfl
  | cons f fs ih =>
    cases found with
    | nil => cases hfs
    | cons m found =>
      obtain ⟨name, absence⟩ := f
      rw [List.map_cons, List.map_cons, List.cons_eq_cons] at hfs
      obtain ⟨rfl, hfs⟩ := hfs
      obtain ⟨hm, hfound⟩ := List.cons_subset.1 hfound
      rw [objectFields, single?_ofMembers hms hm, ih hfs hfound]
      rfl

/-- **A record that has each of its fields once is decoded field by field.** -/
theorem fields?_ofMembers {fs : List Field} (hfs : fs.map Prod.fst = ms.map Prod.fst)
    (hnodup : (fs.map Prod.fst).Nodup) :
    (ofMembers ms).fields? fs = some (ms.map fun m => some m.2) := by
  have hnames : (ms.map fun m => (some m.1, m.2)).all (fun m => m.1.isSome) = true := by simp
  have hfields := objectFields_ofMembers (hfs ▸ hnodup) hfs (List.Subset.refl ms)
  simpa only [fields?, ofMembers, hnames, if_true] using hfields

/-- **A choice of kinds is decoded by its kind.** -/
theorem choice?_ofMembers {place : Place} {kinds : List String} {kind : String} {k : Nat}
    (hreadable : isReadable place (ofMembers ((kindName, .text kind) :: ms)) = true)
    (hkind : kinds.idxOf? kind = some k)
    (hnodup : (((kindName, Json.text kind) :: ms).map Prod.fst).Nodup) :
    choice? place kinds (ofMembers ((kindName, .text kind) :: ms)) = some (k, ofMembers ms) := by
  have hsingle : single? kindName
      (((kindName, Json.text kind) :: ms).map fun m => (some m.1, m.2)) = some (some (.text kind)) :=
    single?_ofMembers hnodup List.mem_cons_self
  have hothers : ∀ m ∈ ms.map (fun m => (some m.1, m.2)), (m.1 != some kindName) = true := by
    refine List.forall_mem_map.2 fun m hm => bne_iff_ne.2 fun heq => ?_
    exact (List.nodup_cons.1 hnodup).1 (List.mem_map.2 ⟨m, hm, Option.some.inj heq⟩)
  have hfields : (((kindName, Json.text kind) :: ms).map fun m => (some m.1, m.2)).filter
      (fun m => m.1 != some kindName) = ms.map fun m => (some m.1, m.2) := by
    rw [List.map_cons, List.filter_cons_of_neg (by simp), List.filter_eq_self.2 hothers]
  have hindex : kindIndex? place kinds (.text kind) = some k := hkind
  unfold choice?
  rw [if_pos hreadable]
  simp only [ofMembers, hsingle, hfields, Option.bind_eq_bind, Option.bind_some, hindex]
  rfl

/-- The datum is decoded from its written document again. -/
def RoundTrips (encode : α → Json) (decode : Json → Option α) (x : α) : Prop :=
  (read? (encode x).write).bind decode = some x

/-- What is decoded from a plain document is decoded from the written one. -/
theorem Plain.roundTrips {n : Nat} {x : α} (h : (encode x).Plain n) (hx : decode (encode x) = some x) :
    RoundTrips encode decode x := by
  unfold RoundTrips
  rw [h.wellFormed.read?_write, Option.bind_some, hx]

end Decoding

end Json
end PassageLogic
