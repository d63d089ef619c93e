import ScopeScript.Machine.Step

/-!
# Where classes come from

Only the declaration of a class adds a class, with the superclass that it has found, and nothing
changes a class afterwards.
-/

namespace ScopeScript

/-- The class that is declared next: its name, its superclass and its methods. -/
def Config.makesClass? (config : Config) :
    Option (Token × Option ClassId × List (FunctionDecl Stmt)) :=
  match config.control, config.frames with
  | .exec (.classDecl name none methods), _ => some (name, none, methods)
  | .done (.value (.cls superclass)), .superclass name _ methods :: _ =>
    some (name, some superclass, methods)
  | _, _ => none

/-- A move leaves the classes as they are. -/
def Move.KeepsClasses (state : State) (move : Move) : Prop :=
  move.state.store.classes = state.store.classes

section Moves

variable (state : State)

theorem result_keepsClasses (result : Except RuntimeError Value) :
    Move.KeepsClasses state (.result result state) := by
  cases result <;> rfl

theorem writeMove_keepsClasses (lines : List String) (outcome : Outcome) :
    (writeMove lines outcome state).KeepsClasses state := by
  unfold writeMove State.writeLines
  cases state.sink.writeLines lines with
  | mk fault? sink => cases fault? <;> rfl

theorem declareMove_keepsClasses (name : Token) (binding : Binding) :
    (declareMove name binding state).KeepsClasses state := by
  unfold declareMove
  split <;> rfl

theorem assignMove_keepsClasses (id : NodeId) (name : Token) (value : Value) :
    (assignMove id name value state).KeepsClasses state := by
  unfold assignMove
  split <;> rfl

theorem getMove_keepsClasses (name : Token) (object : Value) :
    (getMove name object state).KeepsClasses state := by
  unfold getMove
  split
  next => split <;> rfl
  next => rfl

theorem superMove_keepsClasses (id : NodeId) (keyword name : Token) :
    (superMove id keyword name state).KeepsClasses state := by
  unfold superMove
  split
  next => rfl
  next =>
    split
    next => rfl
    next =>
      split
      next => rfl
      next => split <;> rfl
      next => rfl
    next => rfl

theorem enterMove_keepsClasses (closure : Closure ScopeId) (arguments : List Value) :
    (enterMove closure arguments state).KeepsClasses state := by
  unfold enterMove
  dsimp only
  split <;> rfl

theorem constructMove_keepsClasses (classId : ClassId) (arguments : List Value) :
    (constructMove classId arguments state).KeepsClasses state := by
  unfold constructMove
  dsimp only
  split
  next => rfl
  next => exact enterMove_keepsClasses _ _ arguments

theorem nativeMove_keepsClasses (behaviour : NativeBehaviour) (arguments : List Value) :
    (nativeMove behaviour arguments state).KeepsClasses state := by
  cases behaviour with
  | printLine => exact writeMove_keepsClasses state _ _
  | emit => exact writeMove_keepsClasses state _ _
  | apply => cases arguments <;> rfl
  | clock | first | count | fail => rfl

theorem callMove_keepsClasses (callee : Value) (arguments : List Value) :
    (callMove callee arguments state).KeepsClasses state := by
  unfold callMove
  split
  next =>
    split
    next => exact nativeMove_keepsClasses state _ arguments
    next => rfl
  next =>
    split
    next => exact enterMove_keepsClasses state _ arguments
    next => rfl
  next => exact constructMove_keepsClasses state _ arguments
  next => rfl

theorem evalMove_keepsClasses (expr : Expr) : (evalMove expr state).KeepsClasses state := by
  cases expr with
  | «variable» => exact result_keepsClasses state _
  | thisExpr => exact result_keepsClasses state _
  | superExpr => exact superMove_keepsClasses state _ _ _
  | literal | unary | binary | logical | grouping | assign | call | get | set => rfl

theorem nextArgument_keepsClasses (callee : Value) (paren : Token) (before : List Value)
    (after : List Expr) :
    (Frame.nextArgument callee paren before after state).KeepsClasses state := by
  cases after with
  | nil =>
      simp only [Frame.nextArgument, invokeMove]
      split
      next => rfl
      next => split <;> rfl
  | cons => rfl

/-- A class that is declared is added behind the others, or its name could not be declared. -/
theorem classMove_classes (name : Token) (superclass : Option ClassId)
    (methods : List (FunctionDecl Stmt)) :
    (classMove name superclass methods state).KeepsClasses state
      ∨ ∃ scope, (classMove name superclass methods state).state.store.classes =
        state.store.classes.push ⟨name.lexeme, superclass, methodTable scope methods⟩ := by
  unfold classMove
  split
  next => exact .inl rfl
  next =>
    right
    unfold defineClass classScope
    cases superclass with
    | none =>
        dsimp only
        split <;> exact ⟨_, rfl⟩
    | some superclass =>
        dsimp only
        split <;> exact ⟨_, rfl⟩

theorem onFlow_keepsClasses (frame : Frame ScopeId) (flow : Flow) :
    (frame.onFlow flow state).KeepsClasses state := by
  cases frame with
  | whileBody => cases flow <;> rfl
  | block rest outer => cases flow <;> cases rest <;> rfl
  | program rest => cases rest <;> rfl
  | activation closure =>
      simp only [Frame.onFlow]
      split
      next => exact result_keepsClasses state _
      next => cases flow <;> rfl
  | _ => rfl

theorem onValue_classes (frame : Frame ScopeId) (value : Value) (frames : List (Frame ScopeId)) :
    (frame.onValue value state).KeepsClasses state
      ∨ ∃ name superclass methods scope,
        Config.makesClass? ⟨.done (.value value), frame :: frames, state⟩ =
          some (name, superclass, methods)
        ∧ (frame.onValue value state).state.store.classes =
          state.store.classes.push ⟨name.lexeme, superclass, methodTable scope methods⟩ := by
  cases frame with
  | unary => exact .inl (result_keepsClasses state _)
  | binaryRight => exact .inl (result_keepsClasses state _)
  | logical operator right =>
      left
      simp only [Frame.onValue]
      split <;> rfl
  | assign id name => exact .inl (assignMove_keepsClasses state id name value)
  | callee paren arguments => exact .inl (nextArgument_keepsClasses state value paren [] arguments)
  | argument called paren before after =>
      exact .inl (nextArgument_keepsClasses state called paren _ after)
  | get name => exact .inl (getMove_keepsClasses state name value)
  | setObject => cases value <;> exact .inl rfl
  | print => exact .inl (writeMove_keepsClasses state _ _)
  | declare name => exact .inl (declareMove_keepsClasses state name _)
  | branch thenBranch elseBranch =>
      left
      simp only [Frame.onValue]
      split
      next => rfl
      next => cases elseBranch <;> rfl
  | whileTest =>
      left
      simp only [Frame.onValue]
      split <;> rfl
  | superclass name expr methods =>
      -- The one frame that makes a class, and only out of a value that is a class.
      cases value with
      | cls superclass =>
          rcases classMove_classes state name (some superclass) methods with hkeeps |
            ⟨scope, hclasses⟩
          · exact .inl hkeeps
          · exact .inr ⟨name, some superclass, methods, scope, rfl, hclasses⟩
      | nil | bool | number | string | native | function | object => exact .inl rfl
  | binaryLeft | setValue | discard | returning | construct | whileBody | block | activation
  | program => exact .inl rfl

end Moves

/-- A step leaves the classes as they are, or it is the declaration of a class. -/
theorem step_classes (config : Config) :
    (step config).state.store.classes = config.state.store.classes
      ∨ ∃ name superclass methods scope, config.makesClass? = some (name, superclass, methods)
        ∧ (step config).state.store.classes = config.state.store.classes.push
          ⟨name.lexeme, superclass, methodTable scope methods⟩ := by
  obtain ⟨control, frames, state⟩ := config
  cases control with
  | eval expr => exact .inl (evalMove_keepsClasses state expr)
  | call callee arguments => exact .inl (callMove_keepsClasses state callee arguments)
  | exec stmt =>
      cases stmt with
      | varDecl name initializer =>
          cases initializer with
          | none => exact .inl (declareMove_keepsClasses state name _)
          | some => exact .inl rfl
      | function declaration => exact .inl (declareMove_keepsClasses _ declaration.name _)
      | classDecl name superclass methods =>
          cases superclass with
          | none =>
              rcases classMove_classes state name none methods with hkeeps | ⟨scope, hclasses⟩
              · exact .inl hkeeps
              · exact .inr ⟨name, none, methods, scope, rfl, hclasses⟩
          | some => exact .inl rfl
      | returnStmt keyword value => cases value <;> exact .inl rfl
      | expression | print | letDecl | block | ifElse | whileLoop | breakStmt => exact .inl rfl
  | done outcome =>
      cases frames with
      | nil => exact .inl rfl
      | cons frame frames =>
          cases outcome with
          | value value => exact onValue_classes state frame value frames
          | flow flow => exact .inl (onFlow_keepsClasses state frame flow)
          | fault fault => cases frame <;> exact .inl rfl

end ScopeScript
