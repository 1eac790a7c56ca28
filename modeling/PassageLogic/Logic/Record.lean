import PassageLogic.Logic.Value

/-! # Records

A record gives values to names. Its entries are kept in ascending order of their names, which is the
order of their bytes, so that records with the same entries are the same list. -/

namespace PassageLogic

/-- Entries in strictly ascending order of their names. -/
abbrev Record.Ascending (entries : List (String × Value)) : Prop :=
  entries.Pairwise fun a b => a.1 < b.1

/-- Values by name. -/
structure Record where
  entries : List (String × Value)
  ascending : Record.Ascending entries

namespace Record

/-- The entries with one more, in its place by name; an entry of that name is replaced. -/
def insertEntry (name : String) (value : Value) :
    List (String × Value) → List (String × Value)
  | [] => [(name, value)]
  | (n, v) :: es =>
    if name < n then (name, value) :: (n, v) :: es
    else if name = n then (name, value) :: es
    else (n, v) :: insertEntry name value es

theorem mem_insertEntry {name : String} {value : Value} {e : String × Value}
    {es : List (String × Value)} (h : e ∈ insertEntry name value es) :
    e = (name, value) ∨ e ∈ es := by
  induction es with
  | nil => simpa [insertEntry] using h
  | cons a es ih =>
    obtain ⟨n, v⟩ := a
    simp only [insertEntry] at h
    split at h
    · simpa using h
    · split at h
      · rcases List.mem_cons.1 h with h | h
        · exact .inl h
        · exact .inr (List.mem_cons_of_mem _ h)
      · rcases List.mem_cons.1 h with h | h
        · exact .inr (h ▸ List.mem_cons_self)
        · exact (ih h).imp_right (List.mem_cons_of_mem _)

theorem ascending_insertEntry (name : String) (value : Value) {es : List (String × Value)}
    (h : Ascending es) : Ascending (insertEntry name value es) := by
  induction es with
  | nil => simp [insertEntry, Ascending]
  | cons a es ih =>
    obtain ⟨n, v⟩ := a
    have ⟨hn, hes⟩ := List.pairwise_cons.1 h
    simp only [insertEntry]
    split
    · rename_i hlt
      refine List.pairwise_cons.2 ⟨fun b hb => ?_, h⟩
      rcases List.mem_cons.1 hb with hb | hb
      · rw [hb]
        exact hlt
      · exact String.lt_trans hlt (hn b hb)
    · rename_i hnlt
      split
      · rename_i heq
        exact List.pairwise_cons.2 ⟨fun b hb => heq ▸ hn b hb, hes⟩
      · rename_i hne
        refine List.pairwise_cons.2 ⟨fun b hb => ?_, ih hes⟩
        rcases mem_insertEntry hb with hb | hb
        · rw [hb]
          by_cases hlt : n < name
          · exact hlt
          · exact absurd (String.le_antisymm (String.not_lt.1 hlt) (String.not_lt.1 hnlt)) hne
        · exact hn b hb

/-- The record without entries. -/
def empty : Record := ⟨[], List.Pairwise.nil⟩

/-- The record with a value for a name, in place of the one it had. -/
def insert (r : Record) (name : String) (value : Value) : Record :=
  ⟨insertEntry name value r.entries, ascending_insertEntry name value r.ascending⟩

/-- The value of a name. -/
def get? (r : Record) (name : String) : Option Value := r.entries.lookup name

/-- The name has a value. -/
def contains (r : Record) (name : String) : Bool := (r.get? name).isSome

/-- The names that have a value, in ascending order. -/
def names (r : Record) : List String := r.entries.map Prod.fst

/-- The number of entries. -/
def size (r : Record) : Nat := r.entries.length

/-- There are no entries. -/
def isEmpty (r : Record) : Bool := r.entries.isEmpty

/-- The record with further entries, later ones replacing earlier ones. -/
def insertAll (r : Record) (entries : List (String × Value)) : Record :=
  entries.foldl (fun r e => r.insert e.1 e.2) r

/-- The record with these entries, later ones replacing earlier ones. -/
def ofList (entries : List (String × Value)) : Record := empty.insertAll entries

/-- The entries of both records, those of the second one where both have a name. -/
def overlay (r other : Record) : Record := r.insertAll other.entries

/-- The entries whose names pass. -/
def keep (r : Record) (p : String → Bool) : Record :=
  ⟨r.entries.filter fun e => p e.1, r.ascending.sublist List.filter_sublist⟩

/-- Equality of records: the same names with equal values. -/
def same (r s : Record) : Bool := r.entries == s.entries

instance : BEq Record := ⟨same⟩

theorem ext {r s : Record} (h : r.entries = s.entries) : r = s := by
  cases r
  cases s
  cases h
  rfl

end Record
end PassageLogic
