import ScopeScript.Binding.Resolve
import ScopeScript.Machine.Run
import ScopeScript.Syntax.Program

/-! # Sessions

A session runs sources one after another. What one source declares globally is there for the next.
A source that is rejected before it runs leaves the state as it was; it only uses up node numbers.
-/

namespace ScopeScript

/-- The built-in native functions. -/
def builtins : List Native :=
  [⟨"clock", 0, .clock⟩, ⟨"println", 1, .printLine⟩]

namespace State

/-- Bind a native function to its name in the outermost scope. -/
def addNative (state : State) (native : Native) : State :=
  let (id, store) := state.store.addNative native
  { state with store := store.bind state.globals native.name ⟨.native id, true⟩ }

/-- The state in front of the first program: an outermost scope with the built-in natives. -/
def start (sink : Sink) (clock : Clock) : State :=
  let (globals, store) := ({} : Store).addScope (.empty none)
  builtins.foldl addNative ⟨store, globals, globals, ∅, sink, clock⟩

end State

/-- What stays from one source to the next. -/
structure Session where
  state : State
  nextId : NodeId := 0

/-- A program that may run, with the bindings of its references. -/
structure Prepared where
  program : Program
  resolution : Resolution

/-- Read a source with a first unused node number and bind its references. -/
def prepareSource (nextId : NodeId) (source : String) : Except Rejection Prepared × NodeId :=
  match parseSource nextId source with
  | (.error rejection, nextId) => (.error rejection, nextId)
  | (.ok program, nextId) =>
    match resolve program with
    | .error errors => (.error (.static (errors.map ScopeError.diagnostic)), nextId)
    | .ok resolution => (.ok ⟨program, resolution⟩, nextId)

namespace Session

/-- A new session. -/
def start (sink : Sink) (clock : Clock) : Session :=
  ⟨.start sink clock, 0⟩

/-- Read the next source and bind its references. -/
def prepare (session : Session) (source : String) : Except Rejection Prepared × Session :=
  let (result, nextId) := prepareSource session.nextId source
  (result, { session with nextId })

/-- What a source that ran has to report: its warnings, or the fault that stopped it. -/
def report (prepared : Prepared) (result : Except Fault Unit) :
    Except Rejection (List Diagnostic) :=
  match result with
  | .ok () => .ok (prepared.resolution.warnings.map ScopeError.diagnostic)
  | .error fault => .error (.runtime fault.diagnostic)

/-- Run a source, if that ends within so many steps. -/
def run (session : Session) (fuel : Nat) (source : String) :
    Option (Except Rejection (List Diagnostic) × Session) :=
  match session.prepare source with
  | (.error rejection, session) => some (.error rejection, session)
  | (.ok prepared, session) =>
    (interpret fuel prepared.program prepared.resolution.locals session.state).map
      fun (result, state) => (report prepared result, { session with state })

/-- A source that ends is either rejected or accepted and run to its end. -/
theorem run_cases {session session' : Session} {fuel : Nat} {source : String}
    {result : Except Rejection (List Diagnostic)}
    (h : session.run fuel source = some (result, session')) :
    (∃ rejection nextId, prepareSource session.nextId source = (.error rejection, nextId)
      ∧ result = .error rejection ∧ session' = ⟨session.state, nextId⟩)
    ∨ ∃ prepared nextId last outcome,
      prepareSource session.nextId source = (.ok prepared, nextId)
      ∧ ScopeScript.run fuel (.ofProgram prepared.program prepared.resolution.locals
        session.state) = last
      ∧ last.outcome? = some outcome
      ∧ result = report prepared (finish outcome last.state.sink)
      ∧ session' = ⟨last.state, nextId⟩ := by
  unfold run prepare at h
  cases hprepare : prepareSource session.nextId source with
  | mk prepared nextId =>
      rw [hprepare] at h
      cases prepared with
      | error rejection =>
          cases h
          exact .inl ⟨rejection, nextId, rfl, rfl, rfl⟩
      | ok prepared =>
          simp only [interpret, Option.map_map] at h
          obtain ⟨outcome, houtcome, heq⟩ := Option.map_eq_some_iff.mp h
          cases heq
          exact .inr ⟨prepared, nextId, _, outcome, rfl, rfl, houtcome, rfl, rfl⟩

end Session

end ScopeScript
