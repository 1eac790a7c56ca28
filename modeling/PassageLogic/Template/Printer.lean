import PassageLogic.Template.Line

/-! # The text of a template

Every block is written as the lines that it is read from: a branch as its opening line, its body, an
`else` line and the alternative if there is one, and an `end` line. Every line ends with a newline. -/

namespace PassageLogic

namespace Block

mutual

/-- The lines of a block. -/
def lines : Block → List SourceLine
  | .print text => [.print text]
  | .command verb text => [.command verb text]
  | .branch kind query body none => .opening kind query :: listLines body ++ [.closing]
  | .branch kind query body (some alternative) =>
    .opening kind query :: listLines body ++ .alternative :: listLines alternative ++ [.closing]

/-- The lines of blocks in order. -/
def listLines : List Block → List SourceLine
  | [] => []
  | b :: bs => lines b ++ listLines bs

end

end Block

/-- The text of a template. -/
def Template.write (escape : Char) (blocks : List Block) : String :=
  String.join ((Block.listLines blocks).map fun l => l.display escape ++ "\n")

end PassageLogic
