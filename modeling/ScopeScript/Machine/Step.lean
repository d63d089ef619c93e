import ScopeScript.Machine.Basic
import ScopeScript.Machine.Operator

/-! # Transitions

One step takes a configuration to the next. It looks at the work in hand or, when that is done, at
the innermost frame, and never at the frames below. A fault leaves the frames one by one, and
every frame that changed the current scope changes it back.
-/

namespace ScopeScript

namespace State

/-- The value that a reference has: in the scope that the table says, or else among the globals. -/
def lookUp (state : State) (id : NodeId) (name : Token) : Except RuntimeError Value :=
  match state.locals[id]? with
  | some distance => state.store.getAt state.current distance name
  | none => state.store.get state.globals name

/-- The scope in which an assignment takes effect. -/
def assignTarget (state : State) (id : NodeId) (name : Token) : Except RuntimeError ScopeId :=
  match state.locals[id]? with
  | some distance => state.store.assignTargetAt state.current distance name
  | none => state.store.assignTarget state.globals name

/-- Write lines until one fails. -/
def writeLines (state : State) (lines : List String) : Option SinkFault × State :=
  let (fault?, sink) := state.sink.writeLines lines
  (fault?, { state with sink })

/-- Read the clock. -/
def readClock (state : State) : Float × State :=
  (state.clock.readings state.clock.ticks,
    { state with clock := { state.clock with ticks := state.clock.ticks + 1 } })

end State

/-- The token that stands for the receiver where no `this` is written. -/
def thisToken (line : Nat) : Token :=
  ⟨.keyword .thisKw, "this", line⟩

/-- The token at which native functions fail. -/
def nativeToken : Token :=
  ⟨.identifier, "native", 0⟩

/-- Write lines and end with an outcome. -/
def writeMove (lines : List String) (outcome : Outcome) (state : State) : Move :=
  match state.writeLines lines with
  | (none, state) => ⟨.done outcome, [], state⟩
  | (some fault, state) => .fault (.output fault) state

/-- Declare a name in the current scope. -/
def declareMove (name : Token) (binding : Binding) (state : State) : Move :=
  match state.store.checkDeclare state.current name with
  | some error => .fault (.runtime error) state
  | none =>
    .normal { state with store := state.store.bind state.current name.lexeme binding }

/-- Assign to a name. -/
def assignMove (id : NodeId) (name : Token) (value : Value) (state : State) : Move :=
  match state.assignTarget id name with
  | .error error => .fault (.runtime error) state
  | .ok scope => .value value { state with store := state.store.put scope name value }

/-- Give a property of a value. -/
def getMove (name : Token) (object : Value) (state : State) : Move :=
  match object with
  | .object id =>
    match state.store.property? id name.lexeme with
    | none => .fail name (.undefinedProperty name.lexeme) state
    | some (.field value) => .value value state
    | some (.method method) =>
      let (value, store) := state.store.bindMethodValue method id
      .value value { state with store }
  | other => .fail name (.noProperties other.typeName) state

/-- Give the method that `super` names, bound to the receiver. The receiver lies one scope inside
`super`. -/
def superMove (id : NodeId) (keyword method : Token) (state : State) : Move :=
  match state.locals[id]? with
  | none => .fail keyword .superUnbound state
  | some distance =>
    match state.store.getAt state.current distance keyword with
    | .error error => .fault (.runtime error) state
    | .ok (.cls superclass) =>
      match state.store.getAt state.current (distance - 1) (thisToken keyword.line) with
      | .error error => .fault (.runtime error) state
      | .ok (.object receiver) =>
        match state.store.findMethod? superclass method.lexeme with
        | none => .fail method (.undefinedProperty method.lexeme) state
        | some found =>
          let (value, store) := state.store.bindMethodValue found receiver
          .value value { state with store }
      | .ok _ => .fail keyword .thisNotInstance state
    | .ok _ => .fail keyword .superNotClass state

/-- Check that a value can be called with so many arguments, and call it. -/
def invokeMove (callee : Value) (paren : Token) (arguments : List Value) (state : State) : Move :=
  match state.store.arity? callee with
  | none => .fail paren (.notCallable callee.typeName) state
  | some arity =>
    if arguments.length = arity then ⟨.call callee arguments, [], state⟩
    else .fail paren (.argumentCount arity arguments.length) state

/-- Run the body of a function in a new scope with its parameters. -/
def enterMove (closure : Closure ScopeId) (arguments : List Value) (state : State) : Move :=
  let parameters := closure.declaration.params.zip arguments
  match (Scope.empty (some closure.scope)).declareAll parameters with
  | .error error => .fault (.runtime error) state
  | .ok scope =>
    let outer := state.current
    let (current, store) := state.store.addScope scope
    ⟨.done (.flow .normal), [.block closure.declaration.body outer, .activation closure],
      { state with store, current }⟩

/-- Make an instance of a class and run its initializer, if it has one. -/
def constructMove (classId : ClassId) (arguments : List Value) (state : State) : Move :=
  let (object, store) := state.store.addInstance classId
  match store.findMethod? classId initializerName with
  | none => .value (.object object) { state with store }
  | some initializer =>
    let (closure, store) := store.bindMethod initializer object
    let move := enterMove closure arguments { state with store }
    { move with push := move.push ++ [.construct object] }

/-- Call a native function. -/
def nativeMove (behaviour : NativeBehaviour) (arguments : List Value) (state : State) : Move :=
  match behaviour with
  | .clock =>
    let (seconds, state) := state.readClock
    .value (.number seconds) state
  | .printLine =>
    writeMove [state.store.display (arguments.headD .nil)] (.value .nil) state
  | .first => .value (arguments.headD .nil) state
  | .count => .value (.number (Float.ofNat arguments.length)) state
  | .emit => writeMove (arguments.map state.store.display) (.value .nil) state
  | .fail => .fail nativeToken .nativeFailure state
  | .apply =>
    match arguments with
    | [] => .fail nativeToken .nativeNotCallable state
    | callee :: rest => ⟨.call callee rest, [], state⟩

/-- Call a value, however many arguments it wants. -/
def callMove (callee : Value) (arguments : List Value) (state : State) : Move :=
  match callee with
  | .native id =>
    match state.store.natives[id]? with
    | some native => nativeMove native.behaviour arguments state
    | none => .fail nativeToken .nativeNotCallable state
  | .function id =>
    match state.store.functions[id]? with
    | some closure => enterMove closure arguments state
    | none => .fail nativeToken .nativeNotCallable state
  | .cls id => constructMove id arguments state
  | _ => .fail nativeToken .nativeNotCallable state

/-- The method table of a class whose methods are declared in a scope. Of two methods with one name
the later counts. -/
def methodTable {ε : Type} (scope : ε) (methods : List (FunctionDecl Stmt)) : NameMap (Closure ε) :=
  methods.foldl (fun table method =>
    table.insert method.name.lexeme ⟨method, scope, method.isInitializer⟩) .empty

/-- The scope that the methods of a class are declared in: the current one or, where the class has a
superclass, one inside it with `super`. -/
def classScope (superclass : Option ClassId) (state : State) : ScopeId × Store :=
  match superclass with
  | none => (state.current, state.store)
  | some superclass =>
    state.store.addScope
      ((Scope.empty (some state.current)).bind "super" ⟨.cls superclass, true⟩)

/-- Make a class and assign it to its name. -/
def defineClass (name : Token) (superclass : Option ClassId) (methods : List (FunctionDecl Stmt))
    (state : State) : Move :=
  let (scope, store) := classScope superclass state
  let (id, store) := store.addClass ⟨name.lexeme, superclass, methodTable scope methods⟩
  match store.assignTarget state.current name with
  | .error error => .fault (.runtime error) { state with store }
  | .ok target => .normal { state with store := store.put target name (.cls id) }

/-- Declare a class. The name is declared before the methods are made, so that they can refer to it,
and gets its value last. -/
def classMove (name : Token) (superclass : Option ClassId) (methods : List (FunctionDecl Stmt))
    (state : State) : Move :=
  match state.store.checkDeclare state.current name with
  | some error => .fault (.runtime error) state
  | none =>
    defineClass name superclass methods
      { state with store := state.store.bind state.current name.lexeme ⟨.nil, true⟩ }

/-- The token at which a superclass that is not a class is reported. -/
def superclassToken (name : Token) : Expr → Token
  | .variable _ superName => superName
  | _ => name

/-- The value of a constant. -/
def Literal.toValue : Literal → Value
  | .number value => .number value
  | .string text => .string text
  | .bool value => .bool value
  | .nil => .nil

/-- Begin an expression. -/
def evalMove (expr : Expr) (state : State) : Move :=
  match expr with
  | .literal value => .value value.toValue state
  | .grouping inner => .eval inner [] state
  | .unary operator right => .eval right [.unary operator] state
  | .binary left operator right => .eval left [.binaryLeft operator right] state
  | .logical left operator right => .eval left [.logical operator right] state
  | .variable id name => .result (state.lookUp id name) state
  | .assign id name value => .eval value [.assign id name] state
  | .call callee paren arguments => .eval callee [.callee paren arguments] state
  | .get object name => .eval object [.get name] state
  | .set object name value => .eval object [.setObject name value] state
  | .superExpr id keyword method => superMove id keyword method state
  | .thisExpr id keyword => .result (state.lookUp id keyword) state

/-- Begin a statement. -/
def execMove (stmt : Stmt) (state : State) : Move :=
  match stmt with
  | .expression value => .eval value [.discard] state
  | .print value => .eval value [.print] state
  | .varDecl name none => declareMove name ⟨.nil, true⟩ state
  | .varDecl name (some value) => .eval value [.declare name true] state
  | .letDecl name value => .eval value [.declare name false] state
  | .block body =>
    let outer := state.current
    let (current, store) := state.store.addScope (.empty (some outer))
    ⟨.done (.flow .normal), [.block body outer], { state with store, current }⟩
  | .ifElse condition thenBranch elseBranch =>
    .eval condition [.branch thenBranch elseBranch] state
  | .whileLoop condition body => .eval condition [.whileTest condition body] state
  | .function declaration =>
    let (id, store) := state.store.addFunction ⟨declaration, state.current, false⟩
    declareMove declaration.name ⟨.function id, true⟩ { state with store }
  | .returnStmt _ none => .flow (.returned .nil) state
  | .returnStmt _ (some value) => .eval value [.returning] state
  | .breakStmt _ => .flow .broke state
  | .classDecl name none methods => classMove name none methods state
  | .classDecl name (some superclass) methods =>
    .eval superclass [.superclass name superclass methods] state

namespace Frame

/-- The state after a frame is left: the end of a block returns to the scope around it. -/
def leave (frame : Frame ScopeId) (state : State) : State :=
  match frame with
  | .block _ outer => { state with current := outer }
  | _ => state

/-- Leave a frame with an outcome that it does not wait for. -/
def pass (frame : Frame ScopeId) (outcome : Outcome) (state : State) : Move :=
  ⟨.done outcome, [], frame.leave state⟩

/-- Call with the arguments so far, or go on with the next one. -/
def nextArgument (called : Value) (paren : Token) (before : List Value) (after : List Expr)
    (state : State) : Move :=
  match after with
  | [] => invokeMove called paren before state
  | next :: rest => .eval next [.argument called paren before rest] state

/-- Go on with a value. -/
def onValue (frame : Frame ScopeId) (value : Value) (state : State) : Move :=
  match frame with
  | .unary operator => .result (applyUnary operator value) state
  | .binaryLeft operator right => .eval right [.binaryRight value operator] state
  | .binaryRight left operator => .result (applyBinary state.store.toHeap left operator value) state
  | .logical operator right =>
    if decides operator value then .value value state else .eval right [] state
  | .assign id name => assignMove id name value state
  | .callee paren arguments => nextArgument value paren [] arguments state
  | .argument called paren before after =>
    nextArgument called paren (before ++ [value]) after state
  | .get name => getMove name value state
  | .setObject name expr =>
    match value with
    | .object object => .eval expr [.setValue object name] state
    | _ => .fail name .noFields state
  | .setValue object name =>
    .value value { state with store := state.store.setField object name.lexeme value }
  | .discard => .normal state
  | .print => writeMove [state.store.display value] (.flow .normal) state
  | .declare name mutable => declareMove name ⟨value, mutable⟩ state
  | .returning => .flow (.returned value) state
  | .branch thenBranch elseBranch =>
    if value.truthy then .exec thenBranch [] state
    else
      match elseBranch with
      | some elseBranch => .exec elseBranch [] state
      | none => .normal state
  | .whileTest condition body =>
    if value.truthy then .exec body [.whileBody condition body] state else .normal state
  | .superclass name expr methods =>
    match value with
    | .cls id => classMove name (some id) methods state
    | _ => .fail (superclassToken name expr) .superclassNotClass state
  | .construct object => .value (.object object) state
  | other => other.pass (.value value) state

/-- Go on after a statement. -/
def onFlow (frame : Frame ScopeId) (flow : Flow) (state : State) : Move :=
  match frame with
  | .whileBody condition body =>
    match flow with
    | .normal => .eval condition [.whileTest condition body] state
    | .broke => .normal state
    | .returned value => .flow (.returned value) state
  | .block rest outer =>
    match flow, rest with
    | .normal, stmt :: rest => .exec stmt [.block rest outer] state
    | flow, _ => .flow flow { state with current := outer }
  | .activation closure =>
    if closure.isInitializer then
      .result (state.store.getAt closure.scope 0 (thisToken closure.declaration.name.line)) state
    else
      match flow with
      | .returned value => .value value state
      | .normal | .broke => .value .nil state
  | .program rest =>
    match rest with
    | [] => .normal state
    | stmt :: rest => .exec stmt [.program rest] state
  | other => other.pass (.flow flow) state

/-- Go on with an outcome. -/
def resume (frame : Frame ScopeId) (outcome : Outcome) (state : State) : Move :=
  match outcome with
  | .value value => frame.onValue value state
  | .flow flow => frame.onFlow flow state
  | .fault fault => frame.pass (.fault fault) state

end Frame

/-- The next configuration. When everything is done there is nothing more to do. -/
def step : Config → Config
  | ⟨.eval expr, frames, state⟩ => (evalMove expr state).onto frames
  | ⟨.exec stmt, frames, state⟩ => (execMove stmt state).onto frames
  | ⟨.call callee arguments, frames, state⟩ => (callMove callee arguments state).onto frames
  | ⟨.done outcome, frame :: frames, state⟩ => (frame.resume outcome state).onto frames
  | ⟨.done outcome, [], state⟩ => ⟨.done outcome, [], state⟩

end ScopeScript
