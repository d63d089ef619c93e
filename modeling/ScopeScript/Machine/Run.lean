import ScopeScript.Machine.Step

/-! # Runs

A run repeats steps as often as it is allowed to. Whether it came to an end is read off the last
configuration, so a run that was not allowed enough steps is not mistaken for one that ended.
-/

namespace ScopeScript

/-- The outcome of a configuration in which everything is done. -/
def ConfigOf.outcome? {ε σ : Type} (config : ConfigOf ε σ) : Option Outcome :=
  match config.control, config.frames with
  | .done outcome, [] => some outcome
  | _, _ => none

/-- Whether everything is done. -/
def ConfigOf.isDone {ε σ : Type} (config : ConfigOf ε σ) : Bool :=
  config.outcome?.isSome

/-- The configuration after at most `fuel` steps. -/
def run : Nat → Config → Config
  | 0, config => config
  | fuel + 1, config => if config.isDone then config else run fuel (step config)

/-- The outcome and the state of a run from some work, if it ends in time. -/
def runToEnd (fuel : Nat) (control : Control) (frames : List (Frame ScopeId)) (state : State) :
    Option (Outcome × State) :=
  let last := run fuel ⟨control, frames, state⟩
  last.outcome?.map fun outcome => (outcome, last.state)

/-- Run one statement. -/
def execute (fuel : Nat) (stmt : Stmt) (state : State) : Option (Except Fault Flow × State) :=
  (runToEnd fuel (.exec stmt) [] state).map fun (outcome, state) =>
    match outcome with
    | .flow flow => (.ok flow, state)
    | .fault fault => (.error fault, state)
    | .value _ => (.ok .normal, state)

/-- Evaluate one expression. -/
def evaluate (fuel : Nat) (expr : Expr) (state : State) : Option (Except Fault Value × State) :=
  (runToEnd fuel (.eval expr) [] state).map fun (outcome, state) =>
    match outcome with
    | .value value => (.ok value, state)
    | .fault fault => (.error fault, state)
    | .flow _ => (.ok .nil, state)

/-- Add the bindings of references. Those of earlier programs stay, since functions that refer to
them may still be called. -/
def State.addLocals (state : State) (locals : Locals) : State :=
  { state with locals := state.locals ∪ locals }

/-- The configuration in front of a program. -/
def Config.ofProgram (program : Program) (locals : Locals) (state : State) : Config :=
  ⟨.done (.flow .normal), [.program program], state.addLocals locals⟩

/-- The result of a program that has come to its end: its output is passed on, and a fault of that
hides any other. -/
def finish (outcome : Outcome) (sink : Sink) : Except Fault Unit :=
  match sink.flushFault? with
  | some fault => .error (.output fault)
  | none =>
    match outcome with
    | .fault fault => .error fault
    | _ => .ok ()

/-- Run a program. -/
def interpret (fuel : Nat) (program : Program) (locals : Locals) (state : State) :
    Option (Except Fault Unit × State) :=
  let last := run fuel (.ofProgram program locals state)
  last.outcome?.map fun outcome => (finish outcome last.state.sink, last.state)

end ScopeScript
