import PassageLogic.Proofs.Render.Brackets
import PassageLogic.Proofs.Render.Reading
import PassageLogic.Proofs.Render.Reached

/-! # Where the context goes

Queries and commands are filled from the parameters. So in blocks that run no query for its side effects and
display no passage, the context is seen on printed lines only. `Stage.Prints` says this of one step in all
contexts at once: from a session it leaves one and the same session, and fails alike in all of them or
prints the same lines, which only have to be filled from the context (`PrintedLine`). Whatever branches add
to the context is the same in all of them, since the answers are.

`Stage.context_printed`: two contexts give the same calls of the engine, the same session after them, and the
same failure or the same lines. -/

namespace PassageLogic

/-- A line that is printed, before it is filled: the answers of the branches around it, from the outermost
on, and the line. -/
structure PrintedLine where
  answers : List Record
  line : String

namespace PrintedLine

/-- The line as it is printed in a context. -/
def text (context : Record) (p : PrintedLine) : String :=
  Placeholder.fillLine (p.answers.foldl Record.overlay context) p.line ++ "\n"

/-- Lines as they are printed in a context, one after the other. -/
def textAll (context : Record) : List PrintedLine → String
  | [] => ""
  | p :: ps => p.text context ++ textAll context ps

/-- The line inside a further branch, with this answer. -/
def under (answer : Record) (p : PrintedLine) : PrintedLine := { p with answers := answer :: p.answers }

variable {context : Record}

theorem textAll_append (ps qs : List PrintedLine) :
    textAll context (ps ++ qs) = textAll context ps ++ textAll context qs := by
  induction ps with
  | nil => exact String.empty_append.symm
  | cons p ps ih => rw [List.cons_append, textAll, textAll, ih, String.append_assoc]

theorem textAll_under (answer : Record) (ps : List PrintedLine) :
    textAll context (ps.map (under answer)) = textAll (context.overlay answer) ps := by
  induction ps with
  | nil => rfl
  | cons p ps ih =>
    rw [List.map_cons, textAll, textAll, ih]
    rfl

end PrintedLine

namespace Block

mutual

/-- The lines that a block prints, in order. -/
def prints : Block → List String
  | .print text => [text]
  | .command _ _ => []
  | .branch _ _ body none => listPrints body
  | .branch _ _ body (some alternative) => listPrints body ++ listPrints alternative

/-- The lines that blocks print. -/
def listPrints : List Block → List String
  | [] => []
  | b :: bs => prints b ++ listPrints bs

end

end Block

namespace Stage

variable {σ : Type} {stage : Stage σ}

/-- The lines that are printed, if there is no failure, are among these. -/
def Among (lines : List String) : Except Failure (List PrintedLine) → Prop
  | .error _ => True
  | .ok ps => ∀ p ∈ ps, p.line ∈ lines

/-- From each session the step does the same in all contexts: it leaves one session, and fails in one way or
prints one list of lines, all of them among `lines`, filled from the context. -/
def Prints (lines : List String) (x : Record → Act σ String) : Prop :=
  ∀ S, ∃ r T, Among lines r ∧
    ∀ context, (x context).runIn S = (r.map (PrintedLine.textAll context), T)

variable {lines more : List String} {x y : Record → Act σ String}

theorem Prints.mono (h : Prints lines x) (hlines : lines ⊆ more) : Prints more x := by
  intro S
  obtain ⟨r, T, hr, hx⟩ := h S
  refine ⟨r, T, ?_, hx⟩
  cases r with
  | error failure => trivial
  | ok ps => exact fun p hp => hlines (hr p hp)

/-- A step that prints nothing and does not look at the context. -/
theorem prints_silent {x : Act σ String} (h : ∀ S text, (x.runIn S).1 = .ok text → text = "") :
    Prints lines fun _ => x := by
  intro S
  rcases hx : x.runIn S with ⟨failure | text, T⟩
  · exact ⟨.error failure, T, trivial, fun _ => hx⟩
  · obtain rfl := h S text (congrArg Prod.fst hx)
    exact ⟨.ok [], T, fun p hp => (by cases hp), fun _ => hx⟩

/-- What comes before the end of a command may fail, but prints nothing. -/
theorem prints_quiet {α : Type} (x : Act σ α) : Prints lines fun _ => (do let _ ← x; return "") := by
  refine prints_silent fun S text => ?_
  rw [Act.runIn_bind]
  rcases x.runIn S with ⟨failure | a, T⟩ <;> intro h <;> cases h
  rfl

theorem prints_pure : Prints lines fun _ => (pure "" : Act σ String) :=
  prints_silent fun _ _ h => by cases h; rfl

theorem prints_print (text : String) :
    Prints [text] fun context => (pure (Placeholder.fillLine context text ++ "\n") : Act σ String) := by
  refine fun S => ⟨.ok [⟨[], text⟩], S, fun p hp => ?_, fun context => ?_⟩
  · rw [List.mem_singleton.1 hp]
    exact List.mem_singleton_self text
  · rw [Act.runIn_pure, Except.map, PrintedLine.textAll, PrintedLine.textAll, String.append_empty]
    rfl

/-- **Steps one after the other** print the lines of both. -/
theorem Prints.append (hx : Prints lines x) (hy : Prints lines y) :
    Prints lines fun context => (do return (← x context) ++ (← y context)) := by
  intro S
  obtain ⟨r, T, hr, hx⟩ := hx S
  simp only [runIn_append, hx]
  cases r with
  | error failure => exact ⟨.error failure, T, trivial, fun _ => rfl⟩
  | ok ps =>
    obtain ⟨r', U, hr', hy⟩ := hy T
    refine ⟨r'.map (ps ++ ·), U, ?_, fun context => ?_⟩
    · cases r' with
      | error failure => trivial
      | ok qs => exact List.forall_mem_append.2 ⟨hr, hr'⟩
    · simp only [Except.map, hy]
      cases r' with
      | error failure => rfl
      | ok qs => simp only [PrintedLine.textAll_append]

/-- **The answer of a branch** is laid over every context alike. -/
theorem Prints.under (h : Prints lines x) (answer : Record) :
    Prints lines fun context => x (context.overlay answer) := by
  intro S
  obtain ⟨r, T, hr, hx⟩ := h S
  refine ⟨r.map (List.map (PrintedLine.under answer)), T, ?_, fun context => ?_⟩
  · cases r with
    | error failure => trivial
    | ok ps => exact List.forall_mem_map.2 hr
  · rw [hx]
    cases r with
    | error failure => rfl
    | ok ps => simp only [Except.map, PrintedLine.textAll_under]

theorem Prints.joinAll (h : Prints lines x) (answers : List Record) :
    Prints lines fun context => joinAll (fun answer => x (context.overlay answer)) answers := by
  induction answers with
  | nil => exact prints_pure
  | cons answer answers ih => exact (h.under answer).append ih

/-- **A branch asks the same in all contexts**, and goes on in the same way. -/
theorem Prints.branch (hx : Prints lines x) (hy : Prints lines y) (kind : BranchKind) (query : String) :
    Prints lines fun context => stage.branch kind query context x (y context) := by
  intro S
  simp only [runIn_branch]
  rcases (Act.ask stage.engine query (some (stage.branchLimit kind))).runIn S with
    ⟨failure | _ | ⟨answer, answers⟩, T⟩
  · exact ⟨.error failure, T, trivial, fun _ => rfl⟩
  · exact hy T
  · cases kind with
    | first => exact hx.under answer T
    | each =>
      dsimp only
      split
      · exact ⟨.error _, T, trivial, fun _ => rfl⟩
      · exact hx.joinAll (answer :: answers) T

/-- A command that changes the clauses is carried out in the same way in all contexts. -/
theorem prints_command (display : String → Record → Act σ String) {verb : Verb}
    (hv : verb.writes = true) (text : String) :
    Prints lines fun context => stage.command display context verb text := by
  cases verb with
  | run | display | displayIfPossible => cases hv
  | assert | retract | perform => exact prints_quiet _

variable (stage) in
mutual

theorem prints_block (display : String → Record → Act σ String) (params : Record) :
    ∀ b : Block, b.Only (·.writes = true) → Prints b.prints (stage.block display params b)
  | .print text, _ => prints_print text
  | .command _ _, hb => prints_command display (Block.only_command.1 hb) _
  | .branch kind _ body none, hb =>
    (prints_blocks display params body (Block.only_branch.1 hb).1).branch
      prints_pure kind _
  | .branch kind _ body (some alternative), hb =>
    ((prints_blocks display params body (Block.only_branch.1 hb).1).mono
        (List.subset_append_left _ _)).branch
      ((prints_blocks display params alternative ((Block.only_branch.1 hb).2 _ rfl)).mono
        (List.subset_append_right _ _)) kind _

/-- **Blocks print the same lines in all contexts.** -/
theorem prints_blocks (display : String → Record → Act σ String) (params : Record) :
    ∀ bs : List Block, (∀ b ∈ bs, b.Only (·.writes = true)) →
      Prints (Block.listPrints bs) (stage.blocks display params bs)
  | [], _ => prints_pure
  | b :: bs, hbs =>
    ((prints_block display params b (hbs b List.mem_cons_self)).mono
        (List.subset_append_left _ _)).append
      ((prints_blocks display params bs fun c hc => hbs c (List.mem_cons_of_mem _ hc)).mono
        (List.subset_append_right _ _))

end

/-- **The context flows into printed lines only.** Blocks that neither run a query for its side effects nor
display a passage make the same calls of the engine in any two contexts, with the same results, and leave the
same session, its clauses included. They fail in the same way in both, or print the same lines, each filled
from the context that the same answers were laid over. -/
theorem context_printed (stage : Stage σ) (frame : Frame) {bs : List Block}
    (hbs : ∀ b ∈ bs, b.Only (·.writes = true)) (context context' : Record) (S : Session σ) :
    S.events (stage.traced.act (.blocks frame bs context)) =
        S.events (stage.traced.act (.blocks frame bs context')) ∧
      ((stage.act (.blocks frame bs context)).runIn S).2 =
        ((stage.act (.blocks frame bs context')).runIn S).2 ∧
      ((∃ failure, ((stage.act (.blocks frame bs context)).runIn S).1 = .error failure ∧
          ((stage.act (.blocks frame bs context')).runIn S).1 = .error failure) ∨
        ∃ ps : List PrintedLine, (∀ p ∈ ps, p.line ∈ Block.listPrints bs) ∧
          ((stage.act (.blocks frame bs context)).runIn S).1 = .ok (PrintedLine.textAll context ps) ∧
          ((stage.act (.blocks frame bs context')).runIn S).1 =
            .ok (PrintedLine.textAll context' ps)) := by
  refine ⟨?_, ?_⟩
  · obtain ⟨r, T, -, hrun⟩ := stage.traced.prints_blocks (stage.traced.displayAt frame.depth) frame.params
      bs hbs ⟨(S.engine, []), S.anonymous, S.transient⟩
    unfold Session.events act
    rw [hrun, hrun]
  · obtain ⟨r, T, hr, hrun⟩ := stage.prints_blocks (stage.displayAt frame.depth) frame.params bs hbs S
    simp only [act, hrun]
    refine ⟨trivial, ?_⟩
    cases r with
    | error failure => exact .inl ⟨failure, rfl, rfl⟩
    | ok ps => exact .inr ⟨ps, hr, rfl, rfl⟩

/-- A branch that marks the rooms it goes through, and prints a mood that only the context knows. -/
def moodBlocks : List Block :=
  [.branch .each "in \"sam\" (room)"
    [.command .assert "seen \"sam\"", .print "{room}: {mood}"] (some [.print "nowhere"])]

/-- A context that knows the mood. -/
def moodOf (mood : String) : Record := .ofList [("mood", .text mood)]

theorem context_printed_mood :
    (∀ b ∈ moodBlocks, b.Only (·.writes = true)) ∧
      ((emptyStage.act (.blocks ⟨.empty, 0⟩ moodBlocks (moodOf "glad"))).runIn twoRooms).1 =
        .ok "hall: glad\nyard: glad\n" ∧
      ((emptyStage.act (.blocks ⟨.empty, 0⟩ moodBlocks (moodOf "sad"))).runIn twoRooms).1 =
        .ok "hall: sad\nyard: sad\n" ∧
      twoRooms.events (emptyStage.traced.act (.blocks ⟨.empty, 0⟩ moodBlocks (moodOf "glad"))) =
        twoRooms.events (emptyStage.traced.act (.blocks ⟨.empty, 0⟩ moodBlocks (moodOf "sad"))) ∧
      ((emptyStage.act (.blocks ⟨.empty, 0⟩ moodBlocks (moodOf "glad"))).runIn twoRooms).2 =
        ((emptyStage.act (.blocks ⟨.empty, 0⟩ moodBlocks (moodOf "sad"))).runIn twoRooms).2 := by
  have hbs : ∀ b ∈ moodBlocks, b.Only (·.writes = true) := by
    simp [moodBlocks, Block.only_branch, Block.only_command, Block.only_print, Verb.writes]
  obtain ⟨hevents, hsession, -⟩ :=
    context_printed emptyStage ⟨.empty, 0⟩ hbs (moodOf "glad") (moodOf "sad") twoRooms
  exact ⟨hbs, by decide +kernel, by decide +kernel, hevents, hsession⟩

end Stage
end PassageLogic
