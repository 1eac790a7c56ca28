import PassageLogic.Template.Placeholder

/-! # Passages

A passage is a named template. A shelf holds passages by their exact names, a later one in place of an
earlier one of its name, and may hold a context for a name: that passage is then rendered in its own
context and not in the one in which it was asked for. -/

namespace PassageLogic

/-- A named template. -/
structure Passage where
  name : String
  body : String
deriving DecidableEq

/-- A passage that was found, and the context to render it in. -/
structure Found where
  name : String
  body : String
  context : Record

/-- Passages by name, and the contexts of those that bring their own. -/
structure Shelf where
  passages : List Passage
  contexts : List (String × Record)

namespace Shelf

/-- The shelf without passages. -/
def empty : Shelf := ⟨[], []⟩

/-- The shelf with a passage in place of the one of its name. -/
def insert (shelf : Shelf) (p : Passage) : Shelf :=
  { shelf with passages := p :: shelf.passages.filter fun q => q.name ≠ p.name }

/-- The shelf with a context for the passage of a name. -/
def withContext (shelf : Shelf) (name : String) (context : Record) : Shelf :=
  { shelf with contexts := (name, context) :: shelf.contexts }

/-- The shelf with these passages, put on it in order. -/
def ofList (ps : List Passage) : Shelf := ps.foldl insert empty

/-- The passage of exactly this name. -/
def get? (shelf : Shelf) (name : String) : Option Passage :=
  shelf.passages.find? fun p => p.name == name

/-- The number of passages. -/
def size (shelf : Shelf) : Nat := shelf.passages.length

/-- There are no passages. -/
def isEmpty (shelf : Shelf) : Bool := shelf.passages.isEmpty

/-- The name that a target names in a context: trimmed, with its parameters replaced. -/
def nameOf (target : String) (context : Record) : String :=
  Placeholder.fillParams context (Text.trimmed target)

/-- The passage that a target names in a context. -/
def find? (shelf : Shelf) (target : String) (context : Record) : Option Found :=
  let name := nameOf target context
  (shelf.get? name).map fun p => ⟨name, p.body, (shelf.contexts.lookup name).getD context⟩

end Shelf
end PassageLogic
