import PassageLogic.Session.Ask

/-! # Directives and actions

A directive is a derivable fact that gives a command about a predicate and values: to assert or to
retract the fact that they make. An action is asserted only while it is performed: the directives
that are derivable with it and were not before are carried out, and the action is retracted again. -/

namespace PassageLogic

/-- A command about a predicate and its arguments. -/
structure Directive where
  command : String
  predicate : String
  args : List Value
deriving DecidableEq, BEq

namespace Directive

/-- The most arguments of a directive. -/
def mostArgs : Nat := 8

/-- The variable of the command. -/
def commandVar : String := "command"

/-- The variable of the predicate. -/
def predicateVar : String := "predicate"

/-- The variable of an argument. -/
def argVar (k : Nat) : String := toString k

/-- The variables of a directive with `n` arguments. -/
def vars (n : Nat) : List String := commandVar :: predicateVar :: (List.range n).map argVar

/-- The predicate of the facts that are directives with `n` arguments. -/
def factPredicate (n : Nat) : String :=
  Text.joinWith " " (commandWord :: List.replicate (n + 2) placeholder)

/-- The query for directives with `n` arguments. -/
def query (n : Nat) : Literal := .of (factPredicate n) ((vars n).map Term.var)

/-- The directive of an answer to the query, if all its variables have a value. -/
def ofRecord? (r : Record) (n : Nat) : Option Directive := do
  let command ← r.get? commandVar
  let predicate ← r.get? predicateVar
  let args ← (List.range n).mapM fun k => r.get? (argVar k)
  return ⟨command.display, predicate.display, args⟩

/-- The fact that a directive is about. -/
def fact (d : Directive) : Clause := .fact (.of d.predicate (d.args.map Term.const))

end Directive

/-- What a directive can command. -/
inductive Effect where
  | assert
  | retract
deriving DecidableEq

/-- The effect of a command. -/
def Effect.ofCommand? : String → Option Effect
  | "assert" => some .assert
  | "retract" => some .retract
  | _ => none

/-- The command of an effect. -/
def Effect.command : Effect → String
  | .assert => "assert"
  | .retract => "retract"

namespace Act

variable {σ : Type}

/-- The effect that a command names. -/
def effectOf (command : String) : Act σ Effect :=
  match Effect.ofCommand? command with
  | some effect => pure effect
  | none => throw (.unknownCommand command)

/-- The directives with `n` arguments that are derivable. -/
def directivesOf (e : Engine σ) (n : Nat) : Act σ (List Directive) := do
  let records ← collect e (Directive.query n) (Directive.vars n) none (Directive.factPredicate n)
  return records.filterMap fun r => Directive.ofRecord? r n

/-- The directives with numbers of arguments from this list. -/
def directivesFor (e : Engine σ) : List Nat → Act σ (List Directive)
  | [] => pure []
  | n :: ns => do
    let ds ← directivesOf e n
    return ds ++ (← directivesFor e ns)

/-- All derivable directives, by their number of arguments. -/
def directives (e : Engine σ) : Act σ (List Directive) :=
  directivesFor e (List.range (Directive.mostArgs + 1))

/-- Carry out a directive. -/
def dispatch (e : Engine σ) (d : Directive) : Act σ Unit := do
  match ← effectOf d.command with
  | .assert => orFail d.predicate (← call (e.assert d.fact))
  | .retract =>
    let _ ← orFail d.predicate (← call (e.retract d.fact))

/-- Carry out directives in order. -/
def dispatchAll (e : Engine σ) : List Directive → Act σ Unit
  | [] => pure ()
  | d :: ds => do
    dispatch e d
    dispatchAll e ds

/-- Carry out the directives that are derivable and are not among the given ones. -/
def dispatchNew (e : Engine σ) (before : List Directive) : Act σ (List Directive) := do
  let new := (← directives e).filter fun d => !before.contains d
  dispatchAll e new
  return new

/-- Perform a text as an action; the result is the directives that were carried out. -/
def perform (e : Engine σ) (text : String) : Act σ (List Directive) := do
  let action ← clausesOf text
  let before ← directives e
  let result ← match ← assertAll e action with
    | .ok () => outcome (dispatchNew e before)
    | .error fault => pure (.error (Failure.ofFault fault text))
  orFail text (← retractAll e action)
  ofExcept result

end Act
end PassageLogic
