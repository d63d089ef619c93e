import ScopeScript.Proofs.Execution.Edits
import ScopeScript.Proofs.Execution.Signals

/-!
# What a machine returns to

The frame of a block or of a call keeps the scope that was current before it. So the frames alone
say which scope will be current once they have been left, and no step changes what they say about
the frames below. The outermost scope and the table of bindings are never changed at all.
-/

namespace ScopeScript

/-- The scope that the end of a frame returns to, if it changes the current one. -/
def Frame.outer? : Frame ScopeId → Option ScopeId
  | .block _ outer => some outer
  | _ => none

/-- The scope that is current when frames have been left. -/
def returnsTo (scope : ScopeId) (frames : List (Frame ScopeId)) : ScopeId :=
  frames.foldl (fun scope frame => frame.outer?.getD scope) scope

theorem returnsTo_append (scope : ScopeId) (first second : List (Frame ScopeId)) :
    returnsTo scope (first ++ second) = returnsTo (returnsTo scope first) second :=
  List.foldl_append

/-- When a move and what it puts off have been done, a scope is current. -/
def Move.ReturnsTo (move : Move) (scope : ScopeId) : Prop :=
  returnsTo move.state.current move.push = scope

section Moves

variable (state : State)

theorem leave_current (frame : Frame ScopeId) :
    (frame.leave state).current = frame.outer?.getD state.current := by
  cases frame <;> rfl

theorem result_returns (result : Except RuntimeError Value) :
    Move.ReturnsTo (.result result state) state.current := by
  cases result <;> rfl

theorem writeMove_returns (lines : List String) (outcome : Outcome) :
    (writeMove lines outcome state).ReturnsTo state.current := by
  unfold writeMove
  split
  next hlines => exact (congrArg (fun result => result.2.current) hlines).symm
  next hlines => exact (congrArg (fun result => result.2.current) hlines).symm

theorem declareMove_returns (name : Token) (binding : Binding) :
    (declareMove name binding state).ReturnsTo state.current := by
  unfold declareMove
  split <;> rfl

theorem assignMove_returns (id : NodeId) (name : Token) (value : Value) :
    (assignMove id name value state).ReturnsTo state.current := by
  unfold assignMove
  split <;> rfl

theorem getMove_returns (name : Token) (object : Value) :
    (getMove name object state).ReturnsTo state.current := by
  unfold getMove
  split
  next => split <;> rfl
  next => rfl

theorem superMove_returns (id : NodeId) (keyword name : Token) :
    (superMove id keyword name state).ReturnsTo state.current := by
  unfold superMove
  split
  next => rfl
  next =>
    split
    next => rfl
    next =>
      split
      next => rfl
      next => split <;> rfl
      next => rfl
    next => rfl

theorem invokeMove_returns (callee : Value) (paren : Token) (arguments : List Value) :
    (invokeMove callee paren arguments state).ReturnsTo state.current := by
  unfold invokeMove
  split
  next => rfl
  next => split <;> rfl

/-- The scope of a call is made current only together with a frame that changes back. Where the
parameters cannot be bound, nothing has been changed yet. -/
theorem enterMove_returns (closure : Closure ScopeId) (arguments : List Value) :
    (enterMove closure arguments state).ReturnsTo state.current := by
  unfold enterMove
  dsimp only
  split <;> rfl

theorem constructMove_returns (classId : ClassId) (arguments : List Value) :
    (constructMove classId arguments state).ReturnsTo state.current := by
  unfold constructMove
  dsimp only
  split
  next => rfl
  next => exact (returnsTo_append ..).trans (enterMove_returns ..)

theorem nativeMove_returns (behaviour : NativeBehaviour) (arguments : List Value) :
    (nativeMove behaviour arguments state).ReturnsTo state.current := by
  cases behaviour with
  | printLine | emit => exact writeMove_returns ..
  | apply => cases arguments <;> rfl
  | clock | first | count | fail => rfl

theorem callMove_returns (callee : Value) (arguments : List Value) :
    (callMove callee arguments state).ReturnsTo state.current := by
  unfold callMove
  split
  next =>
    split
    next => exact nativeMove_returns ..
    next => rfl
  next =>
    split
    next => exact enterMove_returns ..
    next => rfl
  next => exact constructMove_returns ..
  next => rfl

theorem classMove_returns (name : Token) (superclass : Option ClassId)
    (methods : List (FunctionDecl Stmt)) :
    (classMove name superclass methods state).ReturnsTo state.current := by
  unfold classMove
  split
  next => rfl
  next =>
    unfold defineClass
    dsimp only
    split <;> rfl

theorem evalMove_returns (expr : Expr) : (evalMove expr state).ReturnsTo state.current := by
  cases expr with
  | «variable» | thisExpr => exact result_returns ..
  | superExpr => exact superMove_returns ..
  | literal | unary | binary | logical | grouping | assign | call | get | set => rfl

theorem execMove_returns (stmt : Stmt) : (execMove stmt state).ReturnsTo state.current := by
  cases stmt with
  | varDecl name initializer =>
      cases initializer with
      | none => exact declareMove_returns ..
      | some => rfl
  | function => exact declareMove_returns ..
  | returnStmt keyword value => cases value <;> rfl
  | classDecl name superclass methods =>
      cases superclass with
      | none => exact classMove_returns ..
      | some => rfl
  | expression | print | letDecl | block | ifElse | whileLoop | breakStmt => rfl

theorem nextArgument_returns (callee : Value) (paren : Token) (before : List Value)
    (after : List Expr) :
    (Frame.nextArgument callee paren before after state).ReturnsTo state.current := by
  cases after with
  | nil => exact invokeMove_returns ..
  | cons => rfl

theorem onValue_returns (frame : Frame ScopeId) (value : Value) :
    (frame.onValue value state).ReturnsTo (frame.leave state).current := by
  cases frame with
  | unary | binaryRight => exact result_returns ..
  | logical =>
      simp only [Frame.onValue]
      split <;> rfl
  | assign => exact assignMove_returns ..
  | callee | argument => exact nextArgument_returns ..
  | get => exact getMove_returns ..
  | setObject => cases value <;> rfl
  | print => exact writeMove_returns ..
  | declare => exact declareMove_returns ..
  | branch thenBranch elseBranch =>
      simp only [Frame.onValue]
      split
      next => rfl
      next => cases elseBranch <;> rfl
  | whileTest =>
      simp only [Frame.onValue]
      split <;> rfl
  | superclass =>
      cases value with
      | cls => exact classMove_returns ..
      | nil | bool | number | string | native | function | object => rfl
  | binaryLeft | setValue | discard | returning | whileBody | block | activation | construct
  | program => rfl

theorem onFlow_returns (frame : Frame ScopeId) (flow : Flow) :
    (frame.onFlow flow state).ReturnsTo (frame.leave state).current := by
  cases frame with
  | whileBody => cases flow <;> rfl
  | block rest => cases flow <;> cases rest <;> rfl
  | program rest => cases rest <;> rfl
  | activation =>
      simp only [Frame.onFlow]
      split
      next => exact result_returns ..
      next => cases flow <;> rfl
  | unary | binaryLeft | binaryRight | logical | assign | callee | argument | get | setObject
  | setValue | discard | print | declare | returning | branch | whileTest | superclass
  | construct => rfl

/-- A frame that goes on with an outcome keeps the promise of its end. -/
theorem resume_returns (frame : Frame ScopeId) (outcome : Outcome) :
    (frame.resume outcome state).ReturnsTo (frame.leave state).current := by
  cases outcome with
  | value value => exact onValue_returns state frame value
  | flow flow => exact onFlow_returns state frame flow
  | fault => rfl

end Moves

/-! ## Steps -/

/-- What a piece of work has to leave as it was. -/
structure State.Surrounded (state : State) (scope globals : ScopeId) (locals : Locals) : Prop where
  current : state.current = scope
  globals : state.globals = globals
  locals : state.locals = locals

/-- When everything above some frames has been done, the state will be surrounded in such a way. -/
structure Config.Returns (config : Config) (base : List (Frame ScopeId)) (scope globals : ScopeId)
    (locals : Locals) : Prop where
  current : ∃ upper, config.frames = upper ++ base ∧ returnsTo config.state.current upper = scope
  globals : config.state.globals = globals
  locals : config.state.locals = locals

theorem Edit.surroundings {state state' : State} (h : Edit state state') :
    state'.globals = state.globals ∧ state'.locals = state.locals := by
  cases h <;> exact ⟨rfl, rfl⟩

theorem Edits.surroundings {state state' : State} (h : Edits state state') :
    state'.globals = state.globals ∧ state'.locals = state.locals := by
  induction h with
  | refl => exact ⟨rfl, rfl⟩
  | tail _ hedit ih => exact ⟨hedit.surroundings.1.trans ih.1, hedit.surroundings.2.trans ih.2⟩

variable {base : List (Frame ScopeId)} {scope globals : ScopeId} {locals : Locals}

theorem Move.ReturnsTo.onto {move : Move} {inner : ScopeId} (h : move.ReturnsTo inner)
    {upper : List (Frame ScopeId)} (hupper : returnsTo inner upper = scope) :
    ∃ upper', (move.onto (upper ++ base)).frames = upper' ++ base
      ∧ returnsTo (move.onto (upper ++ base)).state.current upper' = scope := by
  refine ⟨move.push ++ upper, (List.append_assoc ..).symm, ?_⟩
  rw [returnsTo_append]
  exact (congrArg (returnsTo · upper) h).trans hupper

/-- Work that is not at its end goes on to return to the same surroundings. -/
theorem Config.Returns.step {config : Config} (h : config.Returns base scope globals locals)
    (hgoing : ¬ config.RestsOn base) :
    (step config).Returns base scope globals locals := by
  obtain ⟨hglobals, hlocals⟩ := (step_edits config).surroundings
  refine ⟨?_, hglobals.trans h.globals, hlocals.trans h.locals⟩
  obtain ⟨control, frames, state⟩ := config
  obtain ⟨upper, rfl, hupper⟩ := h.current
  cases control with
  | eval expr => exact (evalMove_returns state expr).onto hupper
  | exec stmt => exact (execMove_returns state stmt).onto hupper
  | call callee arguments => exact (callMove_returns state callee arguments).onto hupper
  | done outcome =>
      cases upper with
      | nil => exact absurd ⟨outcome, state, rfl⟩ hgoing
      | cons frame upper =>
          refine (resume_returns state frame outcome).onto ?_
          rw [leave_current]
          exact hupper

/-- At its end, the work has returned. -/
theorem Config.Returns.rest {outcome : Outcome} {state : State}
    (h : Config.Returns ⟨.done outcome, base, state⟩ base scope globals locals) :
    state.Surrounded scope globals locals := by
  obtain ⟨upper, hframes, hupper⟩ := h.current
  obtain rfl : upper = [] := List.self_eq_append_left.mp hframes
  exact ⟨hupper, h.globals, h.locals⟩

end ScopeScript
