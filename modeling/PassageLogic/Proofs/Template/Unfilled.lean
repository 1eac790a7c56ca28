import PassageLogic.Proofs.Statement.Spelling
import PassageLogic.Proofs.Template.Filling
import PassageLogic.Proofs.Session.Numbering

/-! # Variables that filling leaves

A query leaves a name open if a variable of that name remains when it is filled (`Record.LeavesOpen`): its
answers may then give the name a value. It leaves no parameter open if each variable with the name of a
parameter is written as a placeholder (`Placeholder.Tight`), no parameter begins between delimiters and no
value has quotes of both kinds (`Record.Fits.not_leavesOpen`). The variable `( room )` has the name `room`,
but it is no placeholder. -/

namespace PassageLogic

open Reading (Spells closing?)
open Text (trim)

namespace Placeholder

/-- Every variable of a known name is written as a placeholder: nothing but its name stands between the
parentheses, and the name has only word characters. -/
def Tight (known : String → Bool) (cs : List Char) : Prop :=
  ∀ inside, Spells inside cs → trim inside ≠ [] → known (String.ofList (trim inside)) = true →
    trim inside = inside ∧ ∀ c ∈ inside, Text.isWordChar c = true

variable {p : Record} {known : String → Bool} {cs inside rest : List Char}

theorem Tight.of_imp {ds : List Char} (h : Tight known cs)
    (hs : ∀ inside, Spells inside ds → Spells inside cs) : Tight known ds :=
  fun inside hin => h inside (hs inside hin)

/-- A quoted value ends at the first quote of its kind. -/
theorem exists_quote {v : String} (h : IsQuotable v) : ∃ c, closing? c = some c ∧ c ≠ '(' ∧
    c ∉ v.toList ∧ (Token.const v).display.toList = c :: (v.toList ++ [c]) := by
  rw [Token.display]
  split_ifs with hq
  · exact ⟨'\'', rfl, by decide, fun hm => h ⟨hq, hm⟩, by simp⟩
  · exact ⟨'"', rfl, by decide, hq, by simp⟩

/-- Nothing but word characters in the parentheses makes a placeholder. -/
theorem begins_of_isWordChar (hne : inside ≠ []) (hword : ∀ c ∈ inside, Text.isWordChar c = true)
    (hknown : known (String.ofList inside) = true) :
    begins known ('(' :: (inside ++ ')' :: rest)) = true :=
  begins_iff.2 ⟨rfl, inside, rest, name?_of_isWordChar hne hword, hknown⟩

/-- **No variable of a known name is left in a filled text.** -/
theorem not_contains_of_spells (hp : p.Quotable) (hfree : standFree p.contains none cs = true)
    (htight : Tight p.contains cs) (h : Spells inside (replace '(' ')' (quoted? p) cs))
    (hname : trim inside ≠ []) : p.contains (String.ofList (trim inside)) = false := by
  induction hn : cs.length using Nat.strong_induction_on generalizing cs with
  | _ n ih =>
  subst hn
  cases cs with
  | nil =>
    rw [replace] at h
    cases h
  | cons c cs =>
    rw [standFree] at hfree
    cases hb : begins p.contains (c :: cs) with
    | true =>
      obtain ⟨rfl, name, rest, hfound, hv⟩ := begins_iff.1 hb
      obtain ⟨v, hv⟩ := Option.isSome_iff_exists.1 hv
      obtain ⟨rfl, hword⟩ := name?_eq_some hfound
      have hclosing : ')' ∉ name := fun hc => (ne_of_isWordChar (hword _ hc)).2 rfl
      obtain ⟨q, hq, hne, hno, hdisplay⟩ := exists_quote (hp.get? hv)
      rw [replace_of_name hfound, quoted?, hv] at h
      simp only [Option.map_some, hdisplay, List.cons_append, List.append_assoc, List.nil_append] at h
      have hrest := (Reading.spells_delimited hq hno h).resolve_left fun he => hne he.1
      exact ih rest.length (by simp; omega) (standFree_of_append hclosing hfree)
        (htight.of_imp fun _ hin => .past rfl hclosing hin) hrest rfl
    | false =>
      rw [replace_cons (isSome_quoted? p) hb] at h
      cases hd : closing? c with
      | none =>
        rw [hd] at hfree
        exact ih cs.length (Nat.lt_succ_self _) hfree (htight.of_imp fun _ hin => .char hd hin)
          (Reading.spells_char hd h) rfl
      | some d =>
        rw [hd] at hfree
        have hne : d ≠ '(' := by
          rcases Reading.closing?_cases hd with ⟨-, rfl⟩ | ⟨-, rfl⟩ | ⟨-, rfl⟩ <;> decide
        rcases replace_within hne hfree with ⟨cs, rest, rfl, hcs, hrest, hreplace⟩ | ⟨hno, hreplace⟩
        · rw [hreplace _ (isSome_quoted? p)] at h
          rcases Reading.spells_delimited hd hcs h with ⟨rfl, rfl⟩ | h
          · -- it would have been filled
            obtain rfl : d = ')' := (Option.some.inj hd).symm
            rw [Bool.eq_false_iff]
            intro hknown
            obtain ⟨htrim, hword⟩ := htight inside (.here hcs) hname hknown
            rw [htrim] at hknown hname
            rw [begins_of_isWordChar hname hword hknown] at hb
            cases hb
          · exact ih rest.length (by simp; omega) hrest
              (htight.of_imp fun _ hin => .past hd hcs hin) h rfl
        · rw [hreplace _ (isSome_quoted? p)] at h
          exact absurd h (Reading.not_spells_unclosed hd hno)

end Placeholder

namespace Record

variable {p : Record} {query : String}

/-- The filled query has a variable of this name. -/
def LeavesOpen (p : Record) (query x : String) : Prop :=
  ∃ l, Line.read (Placeholder.fillParams p query) = .ok l ∧ x ∈ Act.visibleNames l.statements

/-- Each parameter that the query names is filled in as a constant of its own. -/
structure Fits (p : Record) (query : String) : Prop where
  quotable : p.Quotable
  standFree : Placeholder.standFree p.contains none query.toList = true
  tight : Placeholder.Tight p.contains query.toList

/-- **A query that fits leaves no parameter open.** -/
theorem Fits.not_leavesOpen (h : p.Fits query) {x : String} (hx : p.contains x = true) :
    ¬ p.LeavesOpen query x := by
  rintro ⟨l, hread, hvisible⟩
  obtain ⟨st, hst, hvar⟩ := mem_visibleNames.1 hvisible
  obtain ⟨hvar, hne⟩ := Statement.mem_vars.1 hvar
  obtain ⟨inside, hin, rfl⟩ := Line.spells_of_read hread hst hvar
  rw [Placeholder.fillParams, String.toList_ofList] at hin
  have hname : trim inside ≠ [] := fun he => hne (by rw [he])
  rw [Placeholder.not_contains_of_spells h.quotable h.standFree h.tight hin hname] at hx
  cases hx

end Record

end PassageLogic
