import Mathlib.Logic.Relation
import ScopeScript.Machine.Step

/-!
# What a step does to the state

Whatever a step is about, it changes the state by edits of a few kinds, some of them guarded: a name
is declared only where it is new, and assigned to only where it may be. What every edit leaves alone
is left alone by every step.
-/

namespace ScopeScript

/-- A change of the state. -/
inductive Edit : State → State → Prop
  | write (state : State) (lines : List String) : Edit state (state.writeLines lines).2
  | tick (state : State) : Edit state state.readClock.2
  | move (state : State) (id : ScopeId) : Edit state { state with current := id }
  | addScope (state : State) (scope : Scope) :
      Edit state { state with store := (state.store.addScope scope).2 }
  | declare {state : State} {id : ScopeId} {name : Token} (binding : Binding) :
      state.store.checkDeclare id name = none →
      Edit state { state with store := state.store.bind id name.lexeme binding }
  | assign {state : State} {id : ScopeId} {name : Token} (value : Value) :
      state.store.checkAssign id name = none →
      Edit state { state with store := state.store.put id name value }
  | addFunction (state : State) (closure : Closure ScopeId) :
      Edit state { state with store := (state.store.addFunction closure).2 }
  | addClass (state : State) (cls : Class ScopeId) :
      Edit state { state with store := (state.store.addClass cls).2 }
  | addInstance (state : State) (classId : ClassId) :
      Edit state { state with store := (state.store.addInstance classId).2 }
  | setField (state : State) (id : InstanceId) (name : String) (value : Value) :
      Edit state { state with store := state.store.setField id name value }

/-- Changes of the state, one after another. -/
def Edits : State → State → Prop :=
  Relation.ReflTransGen Edit

/-- A move changes the state by edits. -/
def Move.Edits (state : State) (move : Move) : Prop :=
  ScopeScript.Edits state move.state

namespace Edits

variable {state state' : State}

theorem refl (state : State) : Edits state state :=
  Relation.ReflTransGen.refl

theorem one (h : Edit state state') : Edits state state' :=
  Relation.ReflTransGen.single h

theorem andThen {state'' : State} (h : Edits state state') (h' : Edit state' state'') :
    Edits state state'' :=
  Relation.ReflTransGen.tail h h'

end Edits

section Moves

variable (state : State)

/-- An assignment by walking outward takes effect where the name may be assigned to. -/
theorem Store.checkAssign_of_target {store : Store} {id target : ScopeId} {name : Token}
    (h : store.assignTarget id name = .ok target) : store.checkAssign target name = none := by
  unfold Store.assignTarget at h
  split at h
  next => cases h
  next =>
    split at h
    next => cases h
    next hcheck =>
      cases h
      exact hcheck

theorem Store.checkAssign_of_targetAt {store : Store} {id target : ScopeId} {distance : Nat}
    {name : Token} (h : store.assignTargetAt id distance name = .ok target) :
    store.checkAssign target name = none := by
  unfold Store.assignTargetAt at h
  dsimp only at h
  split at h
  next => cases h
  next hcheck =>
    cases h
    exact hcheck

theorem result_edits (result : Except RuntimeError Value) :
    Move.Edits state (.result result state) := by
  cases result <;> exact .refl state

theorem writeMove_edits (lines : List String) (outcome : Outcome) :
    (writeMove lines outcome state).Edits state := by
  have hwrite := Edits.one (.write state lines)
  unfold writeMove
  split
  next hlines =>
    rw [hlines] at hwrite
    exact hwrite
  next hlines =>
    rw [hlines] at hwrite
    exact hwrite

theorem declareMove_edits (name : Token) (binding : Binding) :
    (declareMove name binding state).Edits state := by
  unfold declareMove
  split
  next => exact .refl state
  next hcheck => exact .one (.declare binding hcheck)

theorem assignMove_edits (id : NodeId) (name : Token) (value : Value) :
    (assignMove id name value state).Edits state := by
  unfold assignMove
  split
  next => exact .refl state
  next target htarget =>
    refine .one (.assign value ?_)
    unfold State.assignTarget at htarget
    split at htarget
    next => exact Store.checkAssign_of_targetAt htarget
    next => exact Store.checkAssign_of_target htarget

theorem bindMethod_edits (method : Closure ScopeId) (receiver : InstanceId) :
    Edits state { state with store := (state.store.bindMethod method receiver).2 } :=
  .one (.addScope state _)

theorem bindMethodValue_edits (method : Closure ScopeId) (receiver : InstanceId) :
    Edits state { state with store := (state.store.bindMethodValue method receiver).2 } :=
  (bindMethod_edits state method receiver).andThen (.addFunction _ _)

theorem getMove_edits (name : Token) (object : Value) :
    (getMove name object state).Edits state := by
  unfold getMove
  split
  next =>
    split
    next => exact .refl state
    next => exact .refl state
    next => exact bindMethodValue_edits state _ _
  next => exact .refl state

theorem superMove_edits (id : NodeId) (keyword name : Token) :
    (superMove id keyword name state).Edits state := by
  unfold superMove
  split
  next => exact .refl state
  next =>
    split
    next => exact .refl state
    next =>
      split
      next => exact .refl state
      next =>
        split
        next => exact .refl state
        next => exact bindMethodValue_edits state _ _
      next => exact .refl state
    next => exact .refl state

theorem enterMove_edits (closure : Closure ScopeId) (arguments : List Value) :
    (enterMove closure arguments state).Edits state := by
  unfold enterMove
  dsimp only
  split
  next => exact .refl state
  next scope _ => exact (Edits.one (.addScope state scope)).andThen (.move _ _)

/-- When the instance has been made, its initializer is entered. -/
theorem constructMove_edits_made (classId : ClassId) (arguments : List Value) :
    Edits { state with store := (state.store.addInstance classId).2 }
      (constructMove classId arguments state).state := by
  unfold constructMove
  dsimp only
  split
  next => exact .refl _
  next initializer _ =>
    exact (bindMethod_edits _ initializer _).trans (enterMove_edits _ _ arguments)

theorem constructMove_edits (classId : ClassId) (arguments : List Value) :
    (constructMove classId arguments state).Edits state :=
  (Edits.one (.addInstance state classId)).trans (constructMove_edits_made state classId arguments)

theorem nativeMove_edits (behaviour : NativeBehaviour) (arguments : List Value) :
    (nativeMove behaviour arguments state).Edits state := by
  cases behaviour with
  | clock => exact .one (.tick state)
  | printLine => exact writeMove_edits state _ _
  | emit => exact writeMove_edits state _ _
  | apply => cases arguments <;> exact .refl state
  | first | count | fail => exact .refl state

theorem callMove_edits (callee : Value) (arguments : List Value) :
    (callMove callee arguments state).Edits state := by
  unfold callMove
  split
  next =>
    split
    next => exact nativeMove_edits state _ arguments
    next => exact .refl state
  next =>
    split
    next => exact enterMove_edits state _ arguments
    next => exact .refl state
  next => exact constructMove_edits state _ arguments
  next => exact .refl state

theorem classScope_edits (superclass : Option ClassId) :
    Edits state { state with store := (classScope superclass state).2 } := by
  cases superclass with
  | none => exact .refl state
  | some => exact .one (.addScope state _)

/-- The name of a class is declared, its scope and the class itself are added, and the class is
assigned to its name. -/
theorem classMove_edits (name : Token) (superclass : Option ClassId)
    (methods : List (FunctionDecl Stmt)) :
    (classMove name superclass methods state).Edits state := by
  unfold classMove
  split
  next => exact .refl state
  next hcheck =>
    refine (Edits.one (.declare ⟨.nil, true⟩ hcheck)).trans ?_
    generalize ({ state with
      store := state.store.bind state.current name.lexeme ⟨.nil, true⟩ } : State) = declared
    have hmade := (classScope_edits declared superclass).andThen (.addClass _
      ⟨name.lexeme, superclass, methodTable (classScope superclass declared).1 methods⟩)
    unfold defineClass
    dsimp only
    split
    next => exact hmade
    next htarget => exact hmade.andThen (.assign _ (Store.checkAssign_of_target htarget))

theorem evalMove_edits (expr : Expr) : (evalMove expr state).Edits state := by
  cases expr with
  | «variable» => exact result_edits state _
  | thisExpr => exact result_edits state _
  | superExpr => exact superMove_edits state _ _ _
  | literal | unary | binary | logical | grouping | assign | call | get | set => exact .refl state

theorem execMove_edits (stmt : Stmt) : (execMove stmt state).Edits state := by
  cases stmt with
  | varDecl name initializer =>
      cases initializer with
      | none => exact declareMove_edits state name _
      | some => exact .refl state
  | block => exact (Edits.one (.addScope state _)).andThen (.move _ _)
  | function declaration =>
      exact (Edits.one (.addFunction state _)).trans (declareMove_edits _ declaration.name _)
  | returnStmt keyword value => cases value <;> exact .refl state
  | classDecl name superclass methods =>
      cases superclass with
      | none => exact classMove_edits state name none methods
      | some => exact .refl state
  | expression | print | letDecl | ifElse | whileLoop | breakStmt => exact .refl state

theorem leave_edits (frame : Frame ScopeId) : Edits state (frame.leave state) := by
  cases frame with
  | block => exact .one (.move state _)
  | _ => exact .refl state

theorem nextArgument_edits (callee : Value) (paren : Token) (before : List Value)
    (after : List Expr) : (Frame.nextArgument callee paren before after state).Edits state := by
  cases after with
  | nil =>
      simp only [Frame.nextArgument, invokeMove]
      split
      next => exact .refl state
      next => split <;> exact .refl state
  | cons => exact .refl state

theorem onValue_edits (frame : Frame ScopeId) (value : Value) :
    (frame.onValue value state).Edits state := by
  cases frame with
  | unary => exact result_edits state _
  | binaryRight => exact result_edits state _
  | logical operator right =>
      simp only [Frame.onValue]
      split <;> exact .refl state
  | assign id name => exact assignMove_edits state id name value
  | callee paren arguments => exact nextArgument_edits state value paren [] arguments
  | argument called paren before after => exact nextArgument_edits state called paren _ after
  | get name => exact getMove_edits state name value
  | setObject => cases value <;> exact .refl state
  | setValue object name => exact .one (.setField state object name.lexeme value)
  | print => exact writeMove_edits state _ _
  | declare name => exact declareMove_edits state name _
  | branch thenBranch elseBranch =>
      simp only [Frame.onValue]
      split
      next => exact .refl state
      next => cases elseBranch <;> exact .refl state
  | whileTest =>
      simp only [Frame.onValue]
      split <;> exact .refl state
  | superclass name expr methods =>
      cases value with
      | cls id => exact classMove_edits state name (some id) methods
      | nil | bool | number | string | native | function | object => exact .refl state
  | block rest outer => exact .one (.move state outer)
  | binaryLeft | discard | returning | construct | whileBody | activation | program =>
      exact .refl state

theorem onFlow_edits (frame : Frame ScopeId) (flow : Flow) :
    (frame.onFlow flow state).Edits state := by
  cases frame with
  | whileBody => cases flow <;> exact .refl state
  | block rest outer =>
      -- A block that goes on to its next statement stays in its scope; otherwise it is left.
      cases flow with
      | normal =>
          cases rest with
          | nil => exact .one (.move state outer)
          | cons => exact .refl state
      | returned | broke => cases rest <;> exact .one (.move state outer)
  | program rest => cases rest <;> exact .refl state
  | activation closure =>
      simp only [Frame.onFlow]
      split
      next => exact result_edits state _
      next => cases flow <;> exact .refl state
  | _ => exact .refl state

end Moves

/-- A step changes the state by edits. -/
theorem step_edits (config : Config) : Edits config.state (step config).state := by
  obtain ⟨control, frames, state⟩ := config
  cases control with
  | eval expr => exact evalMove_edits state expr
  | exec stmt => exact execMove_edits state stmt
  | call callee arguments => exact callMove_edits state callee arguments
  | done outcome =>
      cases frames with
      | nil => exact .refl state
      | cons frame frames =>
          cases outcome with
          | value value => exact onValue_edits state frame value
          | flow flow => exact onFlow_edits state frame flow
          | fault => exact leave_edits state frame

end ScopeScript
