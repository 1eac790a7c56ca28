/-! # Tables of TOML

A table is opened by a header or comes to be by a dotted key or by a longer header; each may be
extended only in the ways that it came to be. A header opens no table twice and none that dotted keys
made. A dotted key goes through no table that a header opened, and adds to none that a header passed
through. The tables of an array are opened one after the other, and only the last one is extended. -/

namespace PassageLogic.Toml

/-- A value. What no setting takes, such as floats, dates, arrays and inline tables, is kept only as
being there. -/
inductive Scalar where
  | text (s : String)
  | integer (n : Int)
  | boolean (b : Bool)
  | other
deriving DecidableEq

/-- How a table came to be. -/
inductive Origin where
  /-- A header opened it. -/
  | opened
  /-- A header passed through it. -/
  | passed
  /-- A dotted key made it. -/
  | dotted
deriving DecidableEq

/-- What a key leads to. -/
inductive Node where
  | value (v : Scalar)
  | table (origin : Origin) (members : List (String × Node))
  | tables (items : List (List (String × Node)))

/-- The members of a table. -/
abbrev Members := List (String × Node)

/-- The members with another node for a key. -/
def put (key : String) (node : Node) : Members → Members
  | [] => [(key, node)]
  | (k, n) :: ms => if k = key then (key, node) :: ms else (k, n) :: put key node ms

/-- The members with the table at the end of a path changed. Tables on the path that are missing come
to be. -/
def update (dotted : Bool) (f : Origin → Members → Option Members) :
    List String → Origin → Members → Option Members
  | [], origin, ms => f origin ms
  | k :: ks, _, ms =>
    match ms.lookup k with
    | none => do
      let origin := if dotted then Origin.dotted else .passed
      return put k (.table origin (← update dotted f ks origin [])) ms
    | some (.value _) => none
    | some (.tables items) => do
      let last ← update dotted f ks .opened (← items.getLast?)
      return put k (.tables (items.dropLast ++ [last])) ms
    | some (.table origin inner) => do
      if dotted && origin = .opened then none
      else return put k (.table origin (← update dotted f ks origin inner)) ms

/-- A key with dots in it and its value. -/
structure Pair where
  path : List String
  key : String
  value : Scalar

/-- The members with a pair added: the key must be new, and a path must end in a table that dotted keys
made. -/
def addPair (ms : Members) (p : Pair) : Option Members :=
  update true (fun origin inner =>
    if p.path.isEmpty || origin = .dotted then
      match inner.lookup p.key with
      | some _ => none
      | none => some (inner ++ [(p.key, .value p.value)])
    else none) p.path .opened ms

/-- The members with pairs added. -/
def addPairs (ms : Members) (ps : List Pair) : Option Members := ps.foldlM addPair ms

/-- A header and the pairs after it. -/
structure Section where
  /-- The header opens a table of an array. -/
  isItem : Bool
  path : List String
  key : String
  pairs : List Pair

/-- The members with a section added. -/
def addSection (ms : Members) (s : Section) : Option Members :=
  update false (fun _ inner =>
    if s.isItem then
      match inner.lookup s.key with
      | none => do return put s.key (.tables [← addPairs [] s.pairs]) inner
      | some (.tables items) => do
        return put s.key (.tables (items ++ [← addPairs [] s.pairs])) inner
      | some _ => none
    else
      match inner.lookup s.key with
      | none => do return put s.key (.table .opened (← addPairs [] s.pairs)) inner
      | some (.table .passed old) => do
        return put s.key (.table .opened (← addPairs old s.pairs)) inner
      | some _ => none) s.path .opened ms

end PassageLogic.Toml
