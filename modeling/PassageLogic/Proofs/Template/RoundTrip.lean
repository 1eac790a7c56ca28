import PassageLogic.Template.Assembly
import PassageLogic.Template.Printer
import PassageLogic.Proofs.Template.SourceLines

/-! # Templates read back

A template that is written line by line is read back as it was, if its texts fit on their lines: a text
that is printed is one line and no command, and the text of a command is trimmed and holds no newline.

* `SourceLine.readAll_join`: the lines of the written text are read back one by one.
* `Assembly.takeAll_lines`: the lines of a block, taken in a row, add that block and leave all else as
  it was, with any branches open.
* `readStrict_write`: the two together. -/

namespace PassageLogic

/-! ### Lines -/

namespace SourceLine

/-- A text that can be printed: one line that gives no word of a command. -/
structure IsPrintable (escape : Char) (text : String) : Prop where
  line : Text.IsLine text.toList
  plain : IsPrinted escape text.toList

/-- A text that can stand after the word of a command. -/
structure IsArgument (text : String) : Prop where
  trimmed : Text.IsTrimmed text.toList
  line : '\n' ∉ text.toList

instance (escape : Char) (text : String) : Decidable (IsPrintable escape text) :=
  decidable_of_iff (Text.IsLine text.toList ∧ IsPrinted escape text.toList)
    ⟨fun ⟨h1, h2⟩ => ⟨h1, h2⟩, fun ⟨h1, h2⟩ => ⟨h1, h2⟩⟩

instance (text : String) : Decidable (IsArgument text) :=
  decidable_of_iff (Text.IsTrimmed text.toList ∧ '\n' ∉ text.toList)
    ⟨fun ⟨h1, h2⟩ => ⟨h1, h2⟩, fun ⟨h1, h2⟩ => ⟨h1, h2⟩⟩

/-- What is written for the line is one line, which says it. -/
def ReadsBack (escape : Char) (l : SourceLine) : Prop :=
  Text.IsLine (l.display escape).toList ∧ Says escape (l.display escape).toList l

variable {escape : Char} {word text : String} {rest : List Char}

theorem ne_nil_of_mem_words : ∀ word ∈ words, word.toList ≠ [] := by
  decide

/-- A word of a command after the escape character begins a line, if one line can follow it. -/
theorem isLine_word (he : escape ≠ '\n') (hw : word ∈ words) (hrest : Text.IsLine rest) :
    Text.IsLine (escape :: (word.toList ++ rest)) := by
  have hword := not_isBlank_of_mem_words word hw
  constructor
  · rw [List.mem_cons, List.mem_append, not_or, not_or]
    exact ⟨he.symm, fun h => absurd (hword _ h) (by decide), hrest.1⟩
  · rw [List.getLast?_cons, List.getLast?_append]
    cases hlast : rest.getLast? with
    | some c =>
      intro h
      exact hrest.2 (hlast.trans h)
    | none =>
      -- nothing follows the word, and its last character is not blank
      have hc := List.getLast?_eq_some_getLast (ne_nil_of_mem_words word hw)
      rw [hc]
      intro h
      have hreturn : word.toList.getLast _ = '\r' := Option.some.inj h
      have hblank := hword _ (List.mem_of_getLast? hc)
      rw [hreturn] at hblank
      exact absurd hblank (by decide)

/-- A space and a text after it follow a word on one line. -/
theorem IsArgument.isLine (h : IsArgument text) : Text.IsLine (' ' :: text.toList) := by
  constructor
  · rw [List.mem_cons, not_or]
    exact ⟨by decide, h.line⟩
  · rw [List.getLast?_cons]
    cases hlast : text.toList.getLast? with
    | none => decide
    | some c =>
      intro hc
      obtain rfl : c = '\r' := Option.some.inj hc
      exact absurd (h.trimmed.2 _ hlast) (by decide)

/-- The space between a word and its text is trimmed away again. -/
theorem IsArgument.gives (h : IsArgument text) (escape : Char) (word : String) :
    Gives escape (escape :: (word.toList ++ ' ' :: text.toList)) word text := by
  refine ⟨' ' :: text.toList, rfl, fun c hc => ?_, ?_⟩
  · obtain rfl : ' ' = c := Option.some.inj hc
    rfl
  · show _ = Text.trim text.toList
    exact h.trimmed.trim_eq.symm

/-- A word is given by a line that holds nothing else. -/
theorem gives_nil (escape : Char) (word : String) :
    Gives escape (escape :: (word.toList ++ [])) word "" :=
  ⟨[], rfl, fun _ hc => absurd hc nofun, rfl⟩

theorem IsPrintable.readsBack (h : IsPrintable escape text) : ReadsBack escape (.print text) := by
  refine ⟨h.line, ?_⟩
  have hsays : Says escape text.toList (.print (String.ofList text.toList)) := .print h.plain
  rwa [String.ofList_toList] at hsays

/-- A line that is written as a word and one line after it reads back if it says that. -/
theorem readsBack_of_word {l : SourceLine} (he : escape ≠ '\n') (hw : word ∈ words)
    (hrest : Text.IsLine rest)
    (htext : (l.display escape).toList = escape :: (word.toList ++ rest))
    (hread : Says escape (escape :: (word.toList ++ rest)) l) : l.ReadsBack escape := by
  unfold ReadsBack
  rw [htext]
  exact ⟨isLine_word he hw hrest, hread⟩

theorem IsArgument.readsBack_command (h : IsArgument text) (he : escape ≠ '\n') (verb : Verb) :
    ReadsBack escape (.command verb text) :=
  readsBack_of_word he (verb_word_mem_words verb) h.isLine (by simp [display])
    (.command (h.gives escape verb.word))

theorem IsArgument.readsBack_opening (h : IsArgument text) (he : escape ≠ '\n')
    (kind : BranchKind) : ReadsBack escape (.opening kind text) :=
  readsBack_of_word he (kind_word_mem_words kind) h.isLine (by simp [display])
    (.opening (h.gives escape kind.word))

theorem readsBack_alternative (he : escape ≠ '\n') : ReadsBack escape .alternative :=
  readsBack_of_word he alternativeWord_mem_words (by decide) (by simp [display])
    (.alternative (gives_nil escape alternativeWord))

theorem readsBack_closing (he : escape ≠ '\n') : ReadsBack escape .closing :=
  readsBack_of_word he closingWord_mem_words (by decide) (by simp [display])
    (.closing (gives_nil escape closingWord))

/-- **Lines are read back one by one** from the text that has a newline after each of them. -/
theorem readAll_join {ls : List SourceLine} (h : ∀ l ∈ ls, l.ReadsBack escape) :
    readAll escape (String.join (ls.map fun l => l.display escape ++ "\n")) = ls := by
  have htext : (String.join (ls.map fun l => l.display escape ++ "\n")).toList =
      (ls.map fun l => (l.display escape).toList).flatMap fun l => l ++ ['\n'] := by
    simp [String.toList_join, List.flatMap_map]
  unfold readAll
  rw [htext, Text.lines_flatMap, List.map_map]
  · calc ls.map (read escape ∘ fun l => (l.display escape).toList)
        = ls.map id := List.map_congr_left fun l hl => (h l hl).2.read_eq
      _ = ls := List.map_id ls
  · intro line hline
    obtain ⟨l, hl, rfl⟩ := List.mem_map.1 hline
    exact (h l hl).1

end SourceLine

/-! ### Blocks -/

namespace Block

/-- A block whose texts all fit on their lines, at any depth. -/
inductive Writable (escape : Char) : Block → Prop where
  | print {text : String} (h : SourceLine.IsPrintable escape text) : Writable escape (.print text)
  | command {verb : Verb} {text : String} (h : SourceLine.IsArgument text) :
    Writable escape (.command verb text)
  | branch {kind : BranchKind} {query : String} {body : List Block}
    {alternative : Option (List Block)} (h : SourceLine.IsArgument query)
    (hbody : ∀ b ∈ body, Writable escape b)
    (halternative : ∀ bs ∈ alternative, ∀ b ∈ bs, Writable escape b) :
    Writable escape (.branch kind query body alternative)

variable {escape : Char} {b : Block} {bs : List Block}

mutual

/-- Whether a block can be written is decided text by text. -/
def decidableWritable (escape : Char) : ∀ b : Block, Decidable (b.Writable escape)
  | .print text => decidable_of_iff (SourceLine.IsPrintable escape text)
    ⟨.print, fun | .print h => h⟩
  | .command _ text => decidable_of_iff (SourceLine.IsArgument text)
    ⟨.command, fun | .command h => h⟩
  | .branch _ query body none =>
    have := decidableAllWritable escape body
    decidable_of_iff (SourceLine.IsArgument query ∧ ∀ b ∈ body, b.Writable escape)
      ⟨fun ⟨h, hbody⟩ => .branch h hbody nofun, fun | .branch h hbody _ => ⟨h, hbody⟩⟩
  | .branch _ query body (some alternative) =>
    have := decidableAllWritable escape body
    have := decidableAllWritable escape alternative
    decidable_of_iff (SourceLine.IsArgument query ∧ (∀ b ∈ body, b.Writable escape) ∧
        ∀ b ∈ alternative, b.Writable escape)
      ⟨fun ⟨h, hbody, halternative⟩ => .branch h hbody fun _ hbs => Option.some.inj hbs ▸ halternative,
        fun | .branch h hbody halternative => ⟨h, hbody, halternative _ rfl⟩⟩

/-- The same for all blocks of a list. -/
def decidableAllWritable (escape : Char) : ∀ bs : List Block,
    Decidable (∀ b ∈ bs, b.Writable escape)
  | [] => isTrue nofun
  | b :: bs =>
    have := decidableWritable escape b
    have := decidableAllWritable escape bs
    decidable_of_iff (b.Writable escape ∧ ∀ b ∈ bs, b.Writable escape) List.forall_mem_cons.symm

end

instance (escape : Char) (b : Block) : Decidable (b.Writable escape) := decidableWritable escape b

theorem mem_listLines {l : SourceLine} : l ∈ listLines bs ↔ ∃ b ∈ bs, l ∈ b.lines := by
  induction bs with
  | nil => simp [listLines]
  | cons b bs ih => simp [listLines, ih]

/-- **Every line of a block reads back** if its texts fit on their lines. -/
theorem Writable.readsBack (h : b.Writable escape) (he : escape ≠ '\n') :
    ∀ l ∈ b.lines, l.ReadsBack escape := by
  induction h with
  | print h =>
    intro l hl
    obtain rfl := List.mem_singleton.1 hl
    exact h.readsBack
  | command h =>
    intro l hl
    obtain rfl := List.mem_singleton.1 hl
    exact h.readsBack_command he _
  | @branch kind query body alternative h _ _ ihbody ihalternative =>
    have hlines : ∀ {bs : List Block}, (∀ b ∈ bs, ∀ l ∈ b.lines, l.ReadsBack escape) →
        ∀ l ∈ listLines bs, l.ReadsBack escape := by
      intro bs ih l hl
      obtain ⟨b, hb, hl⟩ := mem_listLines.1 hl
      exact ih b hb l hl
    cases alternative with
    | none =>
      unfold lines
      rw [List.cons_append, List.forall_mem_cons, List.forall_mem_append, List.forall_mem_singleton]
      exact ⟨h.readsBack_opening he kind, hlines ihbody, SourceLine.readsBack_closing he⟩
    | some bs =>
      unfold lines
      rw [List.cons_append, List.cons_append, List.forall_mem_cons, List.forall_mem_append,
        List.forall_mem_append, List.forall_mem_cons, List.forall_mem_singleton]
      exact ⟨h.readsBack_opening he kind, ⟨hlines ihbody, SourceLine.readsBack_alternative he,
        hlines (ihalternative bs rfl)⟩, SourceLine.readsBack_closing he⟩

end Block

/-! ### Assembly -/

namespace Template

open Block (listLines)

/-- Blocks that are added to the body of an open branch. -/
theorem Open.foldl_push_body {o : Open} (h : o.alternative = none) (bs : List Block) :
    bs.foldl Open.push o = { o with body := bs.reverse ++ o.body } := by
  induction bs generalizing o with
  | nil => rfl
  | cons b bs ih =>
    have hpush : o.push b = { o with body := b :: o.body } := by
      unfold push
      rw [h]
    have hrest := ih (o := { o with body := b :: o.body }) h
    rw [List.foldl_cons, hpush, hrest, List.reverse_cons, List.append_assoc, List.singleton_append]

/-- Blocks that are added to the alternative of an open branch. -/
theorem Open.foldl_push_alternative {o : Open} {cs : List Block} (h : o.alternative = some cs)
    (bs : List Block) :
    bs.foldl Open.push o = { o with alternative := some (bs.reverse ++ cs) } := by
  induction bs generalizing o cs with
  | nil => rw [List.foldl_nil, List.reverse_nil, List.nil_append, ← h]
  | cons b bs ih =>
    have hpush : o.push b = { o with alternative := some (b :: cs) } := by
      unfold push
      rw [h]
    rw [List.foldl_cons, hpush, ih rfl, List.reverse_cons, List.append_assoc,
      List.singleton_append]

namespace Assembly

/-- Blocks that are added while no branch is open. -/
theorem foldl_push_finished {a : Assembly} (h : a.opened = []) (bs : List Block) :
    bs.foldl push a = { a with finished := bs.reverse ++ a.finished } := by
  induction bs generalizing a with
  | nil => rfl
  | cons b bs ih =>
    have hpush : a.push b = { a with finished := b :: a.finished } := by
      unfold push
      rw [h]
    have hrest := ih (a := { a with finished := b :: a.finished }) h
    rw [List.foldl_cons, hpush, hrest, List.reverse_cons, List.append_assoc, List.singleton_append]

/-- Blocks that are added while a branch is open. -/
theorem foldl_push_opened (a : Assembly) (o : Open) (os : List Open) (bs : List Block) :
    bs.foldl push { a with opened := o :: os } =
      { a with opened := bs.foldl Open.push o :: os } := by
  induction bs generalizing o with
  | nil => rfl
  | cons b bs ih => exact ih (o.push b)

/-- Blocks after an opening line are the body of its branch. -/
theorem foldl_push_opening (a : Assembly) (number : Nat) (kind : BranchKind) (query : String)
    (body : List Block) : body.foldl push (a.take number (.opening kind query)) =
      { a with opened := ⟨kind, query, number, body.reverse, none⟩ :: a.opened } := by
  have hbody := Open.foldl_push_body (o := ⟨kind, query, number, [], none⟩) rfl body
  show body.foldl push { a with opened := ⟨kind, query, number, [], none⟩ :: a.opened } = _
  rw [foldl_push_opened, hbody, List.append_nil]

/-- Blocks after an `else` line are the alternative of its branch. -/
theorem foldl_push_alternative (a : Assembly) (number : Nat) {o : Open} (os : List Open)
    (h : o.alternative = none) (alternative : List Block) :
    alternative.foldl push (take { a with opened := o :: os } number .alternative) =
      { a with opened := { o with alternative := some alternative.reverse } :: os } := by
  have htake : take { a with opened := o :: os } number .alternative =
      { a with opened := { o with alternative := some [] } :: os } := by
    simp only [take, h]
  have halternative := Open.foldl_push_alternative (o := { o with alternative := some [] }) rfl
    alternative
  rw [htake, foldl_push_opened, halternative, List.append_nil]

mutual

/-- **The lines of a block add the block**, and change nothing else. -/
theorem takeAll_lines (a : Assembly) (number : Nat) : ∀ b : Block,
    a.takeAll number b.lines = a.push b
  | .print _ => rfl
  | .command _ _ => rfl
  | .branch kind query body none => by
    unfold Block.lines
    rw [List.cons_append, takeAll, takeAll_append, takeAll_listLines _ _ body, foldl_push_opening]
    show a.push (.branch kind query body.reverse.reverse none) = _
    rw [List.reverse_reverse]
  | .branch kind query body (some alternative) => by
    unfold Block.lines
    rw [List.cons_append, List.cons_append, takeAll, takeAll_append, takeAll_append,
      takeAll_listLines _ _ body, foldl_push_opening]
    simp only [takeAll]
    rw [takeAll_listLines _ _ alternative, foldl_push_alternative _ _ _ rfl]
    show a.push (.branch kind query body.reverse.reverse (some alternative.reverse.reverse)) = _
    rw [List.reverse_reverse, List.reverse_reverse]

/-- The lines of blocks add the blocks in their order. -/
theorem takeAll_listLines (a : Assembly) (number : Nat) : ∀ bs : List Block,
    a.takeAll number (listLines bs) = bs.foldl push a
  | [] => rfl
  | b :: bs => by
    unfold Block.listLines
    rw [takeAll_append, takeAll_lines, takeAll_listLines _ _ bs, List.foldl_cons]

end

end Assembly

/-- Lines of blocks are assembled without a problem. -/
theorem assemble_listLines (bs : List Block) : assemble (listLines bs) = (bs, []) := by
  unfold assemble
  rw [Assembly.takeAll_listLines, Assembly.foldl_push_finished rfl]
  show ((bs.reverse ++ []).reverse, []) = _
  rw [List.append_nil, List.reverse_reverse]

variable {escape : Char} {blocks : List Block}

/-- **A template that is written is read back as it was**, however deep its branches are, with and
without alternatives, and with empty bodies too. -/
theorem readStrict_write (he : escape ≠ '\n') (h : ∀ b ∈ blocks, b.Writable escape) :
    readStrict escape (write escape blocks) = .ok blocks := by
  have hlines : SourceLine.readAll escape (write escape blocks) = listLines blocks := by
    refine SourceLine.readAll_join fun l hl => ?_
    obtain ⟨b, hb, hl⟩ := Block.mem_listLines.1 hl
    exact (h b hb).readsBack he l hl
  unfold readStrict
  rw [hlines, assemble_listLines]

/-- A branch in a branch, with an alternative and without, empty bodies, and a line that begins with the
escape character but is no command. -/
def hallBlocks : List Block :=
  [.branch .each "room (r)"
      [.branch .first "lit (r)" [.print "  bright"]
          (some [.command .displayIfPossible "dark", .print ""]),
        .branch .first "locked (r)" [] none]
      none,
    .branch .first "alone" [] (some []), .print "\\endless", .command .run ""]

theorem readStrict_write_hall : '\\' ≠ '\n' ∧ (∀ b ∈ hallBlocks, b.Writable '\\') ∧
    write '\\' hallBlocks =
      "\\each room (r)\n\\if lit (r)\n  bright\n\\else\n\\display? dark\n\n\\end\n" ++
        "\\if locked (r)\n\\end\n\\end\n\\if alone\n\\else\n\\end\n\\endless\n\\do \n" ∧
    readStrict '\\' (write '\\' hallBlocks) = .ok hallBlocks := by
  have hwritable : ∀ b ∈ hallBlocks, b.Writable '\\' := by decide +kernel
  exact ⟨by decide, hwritable, by decide +kernel, readStrict_write (by decide) hwritable⟩

end Template
end PassageLogic
