import ScopeScript.Proofs.Execution.Moves
import ScopeScript.Proofs.Execution.Surroundings
import ScopeScript.Session

/-!
# The current scope is restored

A host may install natives of its own. All that is assumed about such a native is how it uses the
machine: it calls values, runs statements, blocks and expressions, and writes lines, as often as it
likes and whatever comes of it, may change what it has got hold of in the store, and in the end
gives any value or fault. So a run is not determined by where it starts. But on every path, through
whatever ends and faults, each piece of work leaves the current scope, the outermost scope and the
table of bindings as it found them.
-/

namespace ScopeScript

/-- A native ends with a value or with a fault. -/
def Outcome.ofResult : Except Fault Value → Outcome
  | .ok given => .value given
  | .error cause => .fault cause

/-- Statements that are run in a scope, on top of frames. The current scope is to be current again
afterwards. -/
def Config.ofBlock (body : List Stmt) (scope : ScopeId) (base : List (Frame ScopeId))
    (state : State) : Config :=
  ⟨.done (.flow .normal), .block body state.current :: base, { state with current := scope }⟩

mutual
/-- Everything above some frames gets done. A native does what the machine says or what a host
does. -/
inductive Completes : List (Frame ScopeId) → Config → Outcome → State → Prop
  | rest {base : List (Frame ScopeId)} {outcome : Outcome} {state : State} :
      Completes base ⟨.done outcome, base, state⟩ outcome state
  | step {base : List (Frame ScopeId)} {config : Config} {outcome : Outcome} {last : State} :
      ¬ config.RestsOn base → Completes base (step config) outcome last →
      Completes base config outcome last
  | host {base frames : List (Frame ScopeId)} {id : NativeId} {arguments : List Value}
      {state state' : State} {outcome : Outcome} {last : State} (result : Except Fault Value) :
      Uses state state' → Completes base ⟨.done (.ofResult result), frames, state'⟩ outcome last →
      Completes base ⟨.call (.native id) arguments, frames, state⟩ outcome last

/-- What a host may do between two states. -/
inductive Uses : State → State → Prop
  | nothing {state : State} : Uses state state
  | write {state state' : State} (lines : List String) :
      Uses state state' → Uses state (state'.writeLines lines).2
  | touch {state state' : State} (store : Store) (clock : Clock) :
      Uses state state' → Uses state { state' with store, clock }
  | work {state state' state'' : State} {control : Control} {outcome : Outcome} :
      Uses state state' → Completes [] ⟨control, [], state'⟩ outcome state'' → Uses state state''
  | block {state state' state'' : State} {body : List Stmt} {scope : ScopeId} {outcome : Outcome} :
      Uses state state' → Completes [] (.ofBlock body scope [] state') outcome state'' →
      Uses state state''
end

/-! ## What is restored -/

/-- The second state has the surroundings of the first. -/
abbrev State.Restored (state last : State) : Prop :=
  last.Surrounded state.current state.globals state.locals

theorem Config.returns_work (control : Control) (base : List (Frame ScopeId)) (state : State) :
    Config.Returns ⟨control, base, state⟩ base state.current state.globals state.locals :=
  ⟨⟨[], rfl, rfl⟩, rfl, rfl⟩

theorem Config.returns_ofBlock (body : List Stmt) (scope : ScopeId) (base : List (Frame ScopeId))
    (state : State) :
    (Config.ofBlock body scope base state).Returns base state.current state.globals state.locals :=
  ⟨⟨[.block body state.current], rfl, rfl⟩, rfl, rfl⟩

/-- What a host leaves as it was, a call of its native leaves as it was. -/
theorem Config.Returns.host {base frames : List (Frame ScopeId)} {scope globals : ScopeId}
    {locals : Locals} {callee : Value} {arguments : List Value} {state state' : State}
    (outcome : Outcome)
    (h : Config.Returns ⟨.call callee arguments, frames, state⟩ base scope globals locals)
    (huses : state.Restored state') :
    Config.Returns ⟨.done outcome, frames, state'⟩ base scope globals locals := by
  obtain ⟨upper, hframes, hupper⟩ := h.current
  refine ⟨⟨upper, hframes, ?_⟩, huses.globals.trans h.globals, huses.locals.trans h.locals⟩
  rw [huses.current]
  exact hupper

-- Work and hosts call one another, so both are shown together, by recursion on how it was done.
mutual
theorem Completes.restored {base : List (Frame ScopeId)} {config : Config} {outcome : Outcome}
    {last : State} {scope globals : ScopeId} {locals : Locals} :
    Completes base config outcome last → config.Returns base scope globals locals →
      last.Surrounded scope globals locals
  | .rest, h => h.rest
  | .step hgoing hrest, h => hrest.restored (h.step hgoing)
  | .host _ huses hrest, h => hrest.restored (h.host _ huses.restored)

theorem Uses.restored {state state' : State} : Uses state state' → state.Restored state'
  | .nothing => ⟨rfl, rfl, rfl⟩
  | .write _ huses => ⟨huses.restored.current, huses.restored.globals, huses.restored.locals⟩
  | .touch _ _ huses => ⟨huses.restored.current, huses.restored.globals, huses.restored.locals⟩
  | .work huses hwork =>
    have hlast := hwork.restored (Config.returns_work ..)
    ⟨hlast.current.trans huses.restored.current, hlast.globals.trans huses.restored.globals,
      hlast.locals.trans huses.restored.locals⟩
  | .block huses hwork =>
    have hlast := hwork.restored (Config.returns_ofBlock ..)
    ⟨hlast.current.trans huses.restored.current, hlast.globals.trans huses.restored.globals,
      hlast.locals.trans huses.restored.locals⟩
end

/-! ## Between runs -/

/-- A state that a host can leave an interpreter in between two runs: natives have been installed,
programs have been run with any tables of bindings, to any end, and the interpreter has been used in
other ways. -/
inductive AtRest : State → Prop
  | start (sink : Sink) (clock : Clock) : AtRest (.start sink clock)
  | native {state : State} (native : Native) : AtRest state → AtRest (state.addNative native)
  | uses {state state' : State} : AtRest state → Uses state state' → AtRest state'
  | program {state last : State} {program : Program} {locals : Locals} {outcome : Outcome} :
      AtRest state → Completes [] (.ofProgram program locals state) outcome last → AtRest last

theorem AtRest.current {state : State} (h : AtRest state) : state.current = state.globals := by
  induction h with
  | start => rfl
  | native _ _ ih => exact ih
  | uses _ huses ih =>
      have hlast := huses.restored
      rw [hlast.current, hlast.globals, ih]
  | @program state _ program locals _ _ hrun ih =>
      have hreturns : (Config.ofProgram program locals state).Returns [] state.current state.globals
          (state.locals ∪ locals) :=
        ⟨⟨[.program program], rfl, rfl⟩, rfl, rfl⟩
      have hlast := hrun.restored hreturns
      rw [hlast.current, hlast.globals, ih]

/-- A run of the machine is one in which hosts do nothing of their own. -/
theorem completes_run {fuel : Nat} {config : Config} {outcome : Outcome}
    (h : (run fuel config).outcome? = some outcome) :
    Completes [] config outcome (run fuel config).state := by
  have hrest : ∀ {last : Config}, last.outcome? = some outcome →
      Completes [] last outcome last.state := by
    rintro ⟨control, frames, state⟩ hlast
    cases control with
    | eval | exec | call => cases frames <;> cases hlast
    | done =>
        cases frames with
        | nil =>
            cases hlast
            exact .rest
        | cons => cases hlast
  induction fuel generalizing config with
  | zero => exact hrest h
  | succ fuel ih =>
      rw [run] at h ⊢
      split at h
      next hdone =>
        rw [if_pos hdone]
        exact hrest h
      next hgoing =>
        rw [if_neg hgoing]
        refine .step ?_ (ih h)
        rintro ⟨_, _, rfl⟩
        exact hgoing rfl

/-- After a source, whatever came of it, an interpreter is at rest again. -/
theorem Session.run_atRest {session session' : Session} {fuel : Nat} {source : String}
    {report : Except Rejection (List Diagnostic)} (h : AtRest session.state)
    (hrun : session.run fuel source = some (report, session')) : AtRest session'.state := by
  rcases Session.run_cases hrun with ⟨rejection, nextId, -, -, rfl⟩ |
    ⟨prepared, nextId, last, outcome, -, rfl, houtcome, -, rfl⟩
  · exact h
  · exact h.program (completes_run houtcome)

/-- On every path the surroundings are restored: when a statement, an expression or a call has come
to its end, or a block that was run in any scope, whether normally, by a signal or by a fault, the
current scope, the outermost scope and the table of bindings are what they were. So an interpreter
at rest stands in its outermost scope, and whatever comes of the next source, it is at rest
again. -/
theorem surroundings_restored :
    (∀ base control state outcome last,
      Completes base ⟨control, base, state⟩ outcome last → state.Restored last)
    ∧ (∀ base body scope state outcome last,
      Completes base (.ofBlock body scope base state) outcome last → state.Restored last)
    ∧ ∀ session : Session, AtRest session.state →
      session.state.current = session.state.globals
        ∧ ∀ fuel source report session', session.run fuel source = some (report, session') →
          AtRest session'.state := by
  refine ⟨?_, ?_, ?_⟩
  · intro base control state outcome last h
    exact h.restored (Config.returns_work control base state)
  · intro base body scope state outcome last h
    exact h.restored (Config.returns_ofBlock body scope base state)
  · intro session h
    exact ⟨h.current, fun _ _ _ _ => Session.run_atRest h⟩

/-- A host native runs a block in a new scope, in which another block looks up a name that is
missing, and fails for a reason of its own. -/
theorem surroundings_restored_in_host :
    let state := State.start {} ⟨fun _ => 0, 0⟩
    let entered := { state with store := (state.store.addScope (.empty (some state.current))).2 }
    let block := Config.ofBlock
      [.block [.expression (.variable 0 ⟨.identifier, "missing", 1⟩)]] 1 [] entered
    let last := run 20 block
    (run 3 block).state.current = 2
      ∧ last.control.error?.map RuntimeError.cause = some (.undefinedVariable "missing")
      ∧ (∃ outcome, Completes [] block outcome last.state) ∧ entered.Restored last.state
      ∧ Completes [] ⟨.call (.native 0) [], [], state⟩ (.fault (.output .full)) last.state
      ∧ state.Restored last.state
      ∧ AtRest last.state ∧ last.state.current = last.state.globals
      ∧ ∃ report session', Session.run ⟨last.state, 1⟩ 20 "{ missing; }" = some (report, session')
        ∧ AtRest session'.state := by
  intro state entered block last
  obtain ⟨hwork, hblock, hrest⟩ := surroundings_restored
  have hinner : (run 3 block).state.current = 2 := by decide +kernel
  have hcause : last.control.error?.map RuntimeError.cause =
      some (.undefinedVariable "missing") := by
    decide +kernel
  have hends : last.outcome?.isSome := by decide +kernel
  have hsource : (Session.run ⟨last.state, 1⟩ 20 "{ missing; }").isSome := by decide +kernel
  obtain ⟨outcome, houtcome⟩ := Option.isSome_iff_exists.mp hends
  obtain ⟨⟨report, session'⟩, hrun⟩ := Option.isSome_iff_exists.mp hsource
  have hran : Completes [] block outcome last.state := completes_run houtcome
  -- From here on it does not matter how the run of the block came to its end.
  clear_value last
  have huses : Uses state last.state := (Uses.nothing.touch entered.store state.clock).block hran
  have hcall : Completes [] ⟨.call (.native 0) [], [], state⟩ (.fault (.output .full)) last.state :=
    .host (.error (.output .full)) huses .rest
  have hatRest : AtRest last.state := (AtRest.start _ _).uses (Uses.nothing.work hcall)
  obtain ⟨hcurrent, hnext⟩ := hrest ⟨last.state, 1⟩ hatRest
  exact ⟨hinner, hcause, ⟨outcome, hran⟩, hblock _ _ _ _ _ _ hran, hcall, hwork _ _ _ _ _ hcall,
    hatRest, hcurrent, report, session', hrun, hnext _ _ _ _ hrun⟩

end ScopeScript
