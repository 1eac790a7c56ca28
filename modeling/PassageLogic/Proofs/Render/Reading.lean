import PassageLogic.Proofs.Session.Reads
import PassageLogic.Proofs.Render.Blocks

/-! # Rendering that only reads

A template that neither asserts nor retracts nor performs leaves the clauses as they were, whatever it
renders and however it ends, and it renders the same again (`render_reads`). The exception is a context
in which the name of a nameless variable has a value: it is taken for that variable
(`render_varies`). -/

namespace PassageLogic

/-- The command changes the clauses. -/
def Verb.writes : Verb → Bool
  | .assert => true
  | .retract => true
  | .perform => true
  | .run => false
  | .display => false
  | .displayIfPossible => false

/-- The equations of a context are ordinary statements. -/
theorem Line.ordinary_constrained {context : Record} (hc : context.NamesApart) {l : Line}
    (hl : ∀ st ∈ l.statements, st.Ordinary) :
    ∀ st ∈ (l.constrained context).statements, st.Ordinary := by
  have hequations : ∀ st ∈ context.entries.map fun e => Statement.equation e.1 e.2.display,
      st.Ordinary := by
    intro st hst
    obtain ⟨e, he, rfl⟩ := List.mem_map.1 hst
    exact Statement.ordinary_equation (hc e he) _
  unfold Line.constrained
  split_ifs
  · exact hl
  · cases l with
    | claim st => exact List.forall_mem_append.2 ⟨hequations, hl⟩
    | conjunction sts => exact List.forall_mem_append.2 ⟨hequations, hl⟩
    | rule head body => exact hl

namespace Stage

open Act (Reads Repeats)

variable {shelf : Shelf} {settings : Settings} {display : String → Record → Act Store String}

/-! ### The clauses stay -/

theorem reads_joinAll {f : Record → Act Store String} (h : ∀ r, Reads (f r)) (rs : List Record) :
    Reads (joinAll f rs) := by
  induction rs with
  | nil => exact (Act.repeats_pure _).toReads
  | cons r rs ih => exact (h r).bind fun _ => ih.bind fun _ => (Act.repeats_pure _).toReads

theorem related_reads (hd : ∀ target context, Reads (display target context)) :
    Related (ofStore shelf settings) (ofStore shelf settings) display display (fun _ => True)
      (·.writes = false) (fun x _ => Reads x) where
  pure text := (Act.repeats_pure text).toReads
  throw f := (Act.repeats_throw f).toReads
  append hx hy := hx.bind fun _ => hy.bind fun _ => (Act.repeats_pure _).toReads
  command {context} _ verb hv text := by
    cases verb with
    | run =>
      exact (Act.repeats_ofExcept _).toReads.bind fun l =>
        (Act.reads_drain _).bind fun _ => (Act.repeats_pure _).toReads
    | display => exact hd text context
    | displayIfPossible =>
      refine (hd text context).outcome.bind fun r => ?_
      cases r <;> exact (Act.repeats_pure _).toReads
    | assert => cases hv
    | retract => cases hv
    | perform => cases hv
  branch kind query context _ body body' hbody alternative alternative' halt := by
    cases kind with
    | first =>
      refine (Act.reads_ask query _).bind fun answers => ?_
      cases answers with
      | nil => exact halt
      | cons answer _ => exact hbody _ trivial
    | each =>
      refine (Act.reads_ask query _).bind fun answers => ?_
      split
      · exact (Act.repeats_throw _).toReads
      · split
        · exact halt
        · exact reads_joinAll (fun r => hbody _ trivial) answers

/-! ### The outcome is the same -/

theorem repeats_joinAll {f : Record → Act Store String} {rs : List Record}
    (h : ∀ r ∈ rs, Repeats (f r)) : Repeats (joinAll f rs) := by
  induction rs with
  | nil => exact Act.repeats_pure _
  | cons r rs ih =>
    obtain ⟨hr, hrs⟩ := List.forall_mem_cons.1 h
    exact hr.bind fun _ => (ih hrs).bind fun _ => Act.repeats_pure _

theorem related_repeats
    (hd : ∀ target context, context.NamesApart → Repeats (display target context)) :
    Related (ofStore shelf settings) (ofStore shelf settings) display display Record.NamesApart
      (·.writes = false) (fun x _ => Repeats x) where
  pure text := Act.repeats_pure text
  throw f := Act.repeats_throw f
  append hx hy := hx.bind fun _ => hy.bind fun _ => Act.repeats_pure _
  command {context} hc verb hv text := by
    cases verb with
    | run =>
      refine (Act.repeats_ofExcept _).bind_of fun l hl => ?_
      have hst : ∀ st ∈ l.statements, st.Ordinary := fun st hst =>
        Statement.FromText.ordinary ⟨text, l, Act.read_of_canGive hl, hst⟩
      exact (Act.repeats_drain (Line.ordinary_constrained hc hst)).bind fun _ => Act.repeats_pure _
    | display => exact hd text context hc
    | displayIfPossible =>
      refine (hd text context hc).outcome.bind fun r => ?_
      cases r <;> exact Act.repeats_pure _
    | assert => cases hv
    | retract => cases hv
    | perform => cases hv
  branch kind query context hc body body' hbody alternative alternative' halt := by
    cases kind with
    | first =>
      refine (Act.repeats_ask query _).bind_of fun answers ha => ?_
      cases answers with
      | nil => exact halt
      | cons answer _ =>
        exact hbody _ (hc.overlay (Act.namesApart_of_ask ha answer List.mem_cons_self))
    | each =>
      refine (Act.repeats_ask query _).bind_of fun answers ha => ?_
      split
      · exact Act.repeats_throw _
      · split
        · exact halt
        · exact repeats_joinAll fun r hr => hbody _ (hc.overlay (Act.namesApart_of_ask ha r hr))

/-! ### Templates -/

section Templates
variable (hshelf : ∀ p ∈ shelf.passages, ∀ v ∈ Template.verbs settings.escape p.body, v.writes = false)
include hshelf

theorem reads_body (room : Nat) {text : String}
    (htext : ∀ v ∈ Template.verbs settings.escape text, v.writes = false) (params : Record) :
    Reads ((ofStore shelf settings).body room text params) := by
  induction room generalizing text params with
  | zero =>
    exact (related_reads fun _ _ => (Act.repeats_throw _).toReads).template rfl rfl htext trivial
  | succ room ih =>
    refine (related_reads fun target context => ?_).template rfl rfl htext trivial
    cases hf : (ofStore shelf settings).shelf.find? target context with
    | none => exact find_bind_of_none hf _ ▸ (Act.repeats_throw _).toReads
    | some found =>
      rw [find_bind_of_some hf]
      obtain ⟨⟨p, hp, hbody⟩, -⟩ := Shelf.mem_of_find? hf
      exact ih (hbody ▸ hshelf p hp) _

theorem repeats_body (hcontexts : ∀ e ∈ shelf.contexts, e.2.NamesApart) (room : Nat) {text : String}
    (htext : ∀ v ∈ Template.verbs settings.escape text, v.writes = false) {params : Record}
    (hparams : params.NamesApart) :
    Repeats ((ofStore shelf settings).body room text params) := by
  induction room generalizing text params with
  | zero => exact (related_repeats fun _ _ _ => Act.repeats_throw _).template rfl rfl htext hparams
  | succ room ih =>
    refine (related_repeats fun target context hc => ?_).template rfl rfl htext hparams
    cases hf : (ofStore shelf settings).shelf.find? target context with
    | none => exact find_bind_of_none hf _ ▸ Act.repeats_throw _
    | some found =>
      rw [find_bind_of_some hf]
      obtain ⟨⟨p, hp, hbody⟩, hcontext⟩ := Shelf.mem_of_find? hf
      refine ih (hbody ▸ hshelf p hp) ?_
      rcases hcontext with he | ⟨name, hname⟩
      · exact he ▸ hc
      · exact hcontexts _ hname

end Templates

end Stage

/-- What it does to a session to render a text. -/
def Session.render (S : Session Store) (shelf : Shelf) (settings : Settings) (text : String)
    (params : Record) : Except Failure String × Session Store :=
  ((Stage.ofStore shelf settings).render text params).runIn S

/-- What it does to a session to ask a text. -/
def Session.ask (S : Session Store) (text : String) (limit : Option Nat) :
    Except Failure (List Record) × Session Store :=
  (Act.ask Store.engine text limit).runIn S

/-- No command in the text, nor in a passage on the shelf, changes the clauses. -/
def Shelf.OnlyReads (shelf : Shelf) (escape : Char) (text : String) : Prop :=
  (∀ v ∈ Template.verbs escape text, v.writes = false) ∧
    ∀ p ∈ shelf.passages, ∀ v ∈ Template.verbs escape p.body, v.writes = false

/-- **Reading never writes.** To ask leaves the clauses as they were, however it ends. So does to render,
if no template has a command that changes the clauses; and in contexts without names of nameless
variables its outcome is the same in every session over these clauses. -/
theorem render_reads (shelf : Shelf) (settings : Settings) (text : String) (params : Record) :
    (∀ (S : Session Store) (query : String) (limit : Option Nat),
      S.FreshUpTo (S.ask query limit).2.transient → (S.ask query limit).2.engine = S.engine) ∧
    (shelf.OnlyReads settings.escape text →
      (∀ S : Session Store, S.FreshUpTo (S.render shelf settings text params).2.transient →
        (S.render shelf settings text params).2.engine = S.engine) ∧
      (params.NamesApart → (∀ e ∈ shelf.contexts, e.2.NamesApart) →
        ∀ S T : Session Store, T.engine = S.engine →
          S.FreshUpTo (S.render shelf settings text params).2.transient →
            T.FreshUpTo (T.render shelf settings text params).2.transient →
              (T.render shelf settings text params).1 = (S.render shelf settings text params).1)) := by
  refine ⟨fun S query limit => (Act.reads_ask query limit).engine_eq S, fun ⟨htext, hshelf⟩ => ?_⟩
  refine ⟨(Stage.reads_body hshelf _ htext params).engine_eq, fun hparams hcontexts => ?_⟩
  exact (Stage.repeats_body hshelf hcontexts _ htext hparams).outcome_eq

/-- A store that knows of a light that works and one that does not. -/
def lanternStore : Store where
  limits := { depth := 3, answers := 10 }
  clauses :=
    [.fact (.of "lit %" [.const (.text "lantern")]), .fact (.of "lit %" [.const (.text "torch")]),
      .fact (.of "broken %" [.const (.text "torch")])]

/-- A passage that lists the lights that work. -/
def lanternShelf : Shelf := ⟨[⟨"lights", "\\each lit (x), !broken (x)\n{x}\n\\end"⟩], []⟩

theorem render_reads_lantern :
    ((⟨lanternStore, 5, 7⟩ : Session Store).render lanternShelf {} "\\display lights" .empty).1 =
        .ok "lantern\n" ∧
      ((⟨lanternStore, 5, 7⟩ : Session Store).render lanternShelf {} "\\display lights"
        .empty).2.engine = lanternStore ∧
      ((⟨lanternStore, 5, 7⟩ : Session Store).ask "lit (x), !broken (x)" none).2.engine =
        lanternStore := by
  have hreads : lanternShelf.OnlyReads '\\' "\\display lights" :=
    ⟨by decide +kernel, by decide +kernel⟩
  have hplain : ∀ c ∈ lanternStore.clauses, '_' ∉ c.head.predicate.toList ∧
      ∀ l ∈ c.body, '_' ∉ l.predicate.toList := by
    decide
  have hfresh : ∀ k n m, (⟨lanternStore, k, n⟩ : Session Store).FreshUpTo m := fun _ _ =>
    Session.freshUpTo_of_no_underscore hplain
  have hout : ((⟨lanternStore, 0, 0⟩ : Session Store).render lanternShelf {} "\\display lights"
      .empty).1 = .ok "lantern\n" := by
    decide +kernel
  obtain ⟨hask, hrender⟩ := render_reads lanternShelf {} "\\display lights" .empty
  obtain ⟨hengine, houtcome⟩ := hrender hreads
  refine ⟨?_, hengine ⟨lanternStore, 5, 7⟩ (hfresh _ _ _),
    hask ⟨lanternStore, 5, 7⟩ "lit (x), !broken (x)" none (hfresh _ _ _)⟩
  rw [← hout]
  exact houtcome (fun e he => by cases he) (fun e he => by cases he) ⟨lanternStore, 0, 0⟩
    ⟨lanternStore, 5, 7⟩ rfl (hfresh _ _ _) (hfresh _ _ _)

/-- A store with a fact and a rule that never comes to an end. -/
def loopStore : Store where
  limits := { depth := 2, answers := 10 }
  clauses := [.fact (.of "p %" [.const (.text "sam")]),
    ⟨.of "p %" [.const (.text "alex")], [.of "p %" [.const (.text "alex")]]⟩]

/-- **A value for the name of a nameless variable is taken for that variable**, so that it matters where
the numbering starts: the first nameless variable is asked for `sam` alone, the second one for all. -/
theorem render_varies : ¬ ∀ (shelf : Shelf) (settings : Settings) (text : String) (params : Record),
    shelf.OnlyReads settings.escape text → ∀ S T : Session Store, T.engine = S.engine →
      S.FreshUpTo (S.render shelf settings text params).2.transient →
        T.FreshUpTo (T.render shelf settings text params).2.transient →
          (T.render shelf settings text params).1 = (S.render shelf settings text params).1 := by
  intro h
  have hreads : Shelf.empty.OnlyReads '\\' "\\do p ()" := ⟨by decide +kernel, fun p hp => by cases hp⟩
  have hplain : ∀ c ∈ loopStore.clauses, '_' ∉ c.head.predicate.toList ∧
      ∀ l ∈ c.body, '_' ∉ l.predicate.toList := by
    decide
  have hfresh : ∀ k n m, (⟨loopStore, k, n⟩ : Session Store).FreshUpTo m := fun _ _ =>
    Session.freshUpTo_of_no_underscore hplain
  have hfirst : ((⟨loopStore, 0, 0⟩ : Session Store).render .empty {} "\\do p ()"
      (.ofList [("(anon0)", .text "sam")])).1 = .ok "" := by
    decide +kernel
  have hsecond : ((⟨loopStore, 1, 1⟩ : Session Store).render .empty {} "\\do p ()"
      (.ofList [("(anon0)", .text "sam")])).1 = .error (.engine (.depth 2)) := by
    decide +kernel
  have hsame := h .empty {} "\\do p ()" (.ofList [("(anon0)", .text "sam")]) hreads
    ⟨loopStore, 0, 0⟩ ⟨loopStore, 1, 1⟩ rfl (hfresh _ _ _) (hfresh _ _ _)
  rw [hfirst, hsecond] at hsame
  cases hsame

end PassageLogic
