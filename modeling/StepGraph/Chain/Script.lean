import StepGraph.Chain.Build

/-!
# Scripts

A script is a program of calls and of bodies under a condition or an iteration, nested to any depth.
A statement may name the reference that it gives, and later statements refer to it by that name.
Names hold for the whole script and outlive a rollback, as variables outside of the bodies do.

A statement that fails ends the body it stands in, unless the failure is to be ignored. A run keeps
an entry for every statement that has been executed.
-/

namespace StepGraph

/-- The references that have been given a name. -/
abbrev Bindings := String → Reference

namespace Bindings

/-- Gives a name to a reference, if there are both. -/
def bind (b : Bindings) : Option String → Option Reference → Bindings
  | some name, some r => fun n => if n = name then r else b n
  | _, _ => b

/-- The names of what is there in the body of an iteration. -/
def bindScope (b : Bindings) (scope : IterationScope) : Bindings :=
  (b.bind (some "item") (some scope.item)).bind (some "index") (some scope.index)

end Bindings

/-- What follows when a statement fails. -/
inductive OnFailure where
  /-- The body ends with the error. -/
  | propagate
  /-- The next statement is executed. -/
  | ignore
  deriving DecidableEq, Repr

/-- A program that defines a chain. Every statement but `done` has a target, the name for its
reference, and is followed by the rest of the program. -/
inductive Script where
  | done
  | call (operation : Bindings → Call) (target : Option String) (onFailure : OnFailure)
      (rest : Script)
  | condition (active : Bindings → Condition) (body : Script) (target : Option String)
      (onFailure : OnFailure) (rest : Script)
  | iteration (active : Bindings → Source) (body : Script) (target : Option String)
      (onFailure : OnFailure) (rest : Script)

namespace Script

/-- What an executed statement asked for, with all names looked up. -/
inductive Action where
  | call (call : Call)
  | condition (active : Condition)
  | iteration (active : Source)

/-- What is kept of an executed statement. -/
structure Entry where
  action : Action
  before : Chain
  outcome : Call.Outcome
  after : Chain
  /-- The entries of the body, if the statement has one that was entered. -/
  body : List Entry

/-- The end of a script, or of one of its bodies. -/
structure Run where
  chain : Chain
  bindings : Bindings
  log : List Entry
  /-- The last reference that a statement gave. -/
  last : Option Reference
  /-- The error that ended the run early. -/
  failure : Option DefinitionError

/-- The outcome of a body: its last reference, or the error that ended it. -/
def Run.outcome (r : Run) : Call.Outcome :=
  match r.failure with
  | some e => .error e
  | none => .ok r.last

/-- The run that starts with an entry which gave `r?`. -/
def Run.behind (run : Run) (entry : Entry) (r? : Option Reference) : Run :=
  { run with log := entry :: run.log, last := run.last <|> r? }

/-- Goes on after a statement with `rest`, unless its failure ends the body. -/
def proceed (entry : Entry) (bindings : Bindings) (target : Option String) (onFailure : OnFailure)
    (rest : Bindings → Run) : Run :=
  match entry.outcome with
  | .ok r? => (rest (bindings.bind target r?)).behind entry r?
  | .error e =>
    match onFailure with
    | .propagate => ⟨entry.after, bindings, [entry], none, some e⟩
    | .ignore => (rest bindings).behind entry none

/-- The entry of a call. -/
def callEntry (c : Chain) (call : Call) : Entry :=
  let (outcome, after) := call.apply c
  ⟨.call call, c, outcome, after, []⟩

/-- The entry of a statement whose body cannot be entered. -/
def refusedEntry (c : Chain) (action : Action) (e : DefinitionError) : Entry :=
  ⟨action, c, .error e, c, []⟩

/-- The entry of a condition whose body has run. -/
def conditionEntry (c : Chain) (active : Condition) (body : Run) : Entry :=
  let (outcome, after) := body.chain.leaveCondition c body.outcome
  ⟨.condition active, c, outcome, after, body.log⟩

/-- The entry of an iteration whose body has run. -/
def iterationEntry (c : Chain) (active : Source) (body : Run) : Entry :=
  let (outcome, after) := body.chain.leaveIteration c body.outcome
  ⟨.iteration active, c, outcome.map some, after, body.log⟩

/-- Runs a script from a chain. -/
def run (c : Chain) (bindings : Bindings) : Script → Run
  | done => ⟨c, bindings, [], none, none⟩
  | call operation target onFailure rest =>
    let entry := callEntry c (operation bindings)
    proceed entry bindings target onFailure (run entry.after · rest)
  | condition active body target onFailure rest =>
    let condition := active bindings
    match c.enterCondition condition with
    | .error e =>
      proceed (refusedEntry c (.condition condition) e) bindings target onFailure (run c · rest)
    | .ok inner =>
      let ran := run inner bindings body
      let entry := conditionEntry c condition ran
      proceed entry ran.bindings target onFailure (run entry.after · rest)
  | iteration active body target onFailure rest =>
    let source := active bindings
    match c.enterIteration source with
    | .error e =>
      proceed (refusedEntry c (.iteration source) e) bindings target onFailure (run c · rest)
    | .ok inner =>
      let ran := run inner (bindings.bindScope {}) body
      let entry := iterationEntry c source ran
      proceed entry ran.bindings target onFailure (run entry.after · rest)

/-- The chain that a run has defined, with the output that is returned if it did not fail. -/
def Run.define (r : Run) (returned : Bindings → Option Output) : Except DefinitionError Chain :=
  r.chain.conclude <|
    match r.failure with
    | some e => .error e
    | none => .ok (returned r.bindings)

end Script
end StepGraph
