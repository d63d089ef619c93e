import ScopeScript.Machine.Run

/-!
# A machine for lexical scoping

This machine runs programs as lexical scoping says and knows nothing of scope chains or of distances
to bindings. Every local declaration gets a cell of its own. An environment is a map from the
visible local names to their cells; it is never changed, only replaced by one that has a name more,
and a function keeps the environment of its declaration. A name without a cell is global.

Operators, objects, output and the order of evaluation are those of the other machine.
-/

namespace ScopeScript.Lexical

/-- The place of a cell. -/
abbrev CellId := Nat

/-- The cells of the local names in sight. At the top level there is no environment, and what is
declared there is global. -/
abbrev Environment := Option (NameMap CellId)

namespace Environment

/-- The cell of a name, if it is local. -/
def cell? (env : Environment) (name : String) : Option CellId :=
  env.bind (·.find? name)

/-- The environment inside a block or function, where declarations are local. -/
def enter (env : Environment) : Environment :=
  some (env.getD .empty)

/-- An environment with one name more. -/
def extend (env : Environment) (name : String) (cell : CellId) : Environment :=
  some ((env.getD .empty).insert name cell)

end Environment

/-- What all parts of a running program share. -/
structure State where
  heap : Heap Environment
  cells : Array Binding
  globals : NameMap Binding
  /-- The names in sight of what is being worked on. -/
  current : Environment
  sink : Sink
  clock : Clock

/-- A moment of a run. -/
abbrev Config := ConfigOf Environment State

/-- What a transition does. -/
abbrev Move := MoveOf Environment State

namespace State

/-- What a name stands for in an environment. -/
def binding? (state : State) (env : Environment) (name : String) : Option Binding :=
  match env.cell? name with
  | some cell => state.cells[cell]?
  | none => state.globals.find? name

/-- The value of a name in an environment. -/
def lookUp (state : State) (env : Environment) (name : Token) : Except RuntimeError Value :=
  match state.binding? env name.lexeme with
  | some binding => .ok binding.value
  | none => .error ⟨name, .undefinedVariable name.lexeme⟩

/-- Change what a name in sight stands for. -/
def put (state : State) (name : String) (binding : Binding) : State :=
  match state.current.cell? name with
  | some cell => { state with cells := state.cells.modify cell fun _ => binding }
  | none => { state with globals := state.globals.insert name binding }

/-- Make a cell and add it to an environment under a name. -/
def allot (state : State) (env : Environment) (name : String) (binding : Binding) :
    Environment × State :=
  (env.extend name state.cells.size, { state with cells := state.cells.push binding })

/-- Make cells for names in turn, each with a value. -/
def allotAll (state : State) (env : Environment) : List (Token × Value) → Environment × State
  | [] => (env, state)
  | (name, value) :: rest =>
    let (env, state) := state.allot env name.lexeme ⟨value, true⟩
    state.allotAll env rest

/-- The environment behind a declaration. -/
def upon (state : State) (name : String) : Environment :=
  state.current.map (·.insert name state.cells.size)

/-- Declare a name. A global must not be declared twice; a local declaration never fails. -/
def declare (state : State) (name : Token) (binding : Binding) : Except RuntimeError State :=
  match state.current with
  | none =>
    if state.globals.contains name.lexeme then .error ⟨name, .alreadyDeclared name.lexeme⟩
    else .ok { state with globals := state.globals.insert name.lexeme binding }
  | some _ =>
    let (current, state) := state.allot state.current name.lexeme binding
    .ok { state with current }

/-- Assign to a name in sight. -/
def assign (state : State) (name : Token) (value : Value) : Except RuntimeError State :=
  match state.binding? state.current name.lexeme with
  | none => .error ⟨name, .undefinedVariable name.lexeme⟩
  | some binding =>
    if binding.mutable then .ok (state.put name.lexeme ⟨value, true⟩)
    else .error ⟨name, .assignedConstant name.lexeme⟩

/-- Bind a method to an instance: its body sees the instance as `this`. -/
def bindMethod (state : State) (method : Closure Environment) (receiver : InstanceId) :
    Closure Environment × State :=
  let (scope, state) := state.allot method.scope "this" ⟨.object receiver, true⟩
  ({ method with scope }, state)

/-- Bind a method to an instance, as a value. -/
def bindMethodValue (state : State) (method : Closure Environment) (receiver : InstanceId) :
    Value × State :=
  let (closure, state) := state.bindMethod method receiver
  let (id, heap) := state.heap.addFunction closure
  (.function id, { state with heap })

end State

/-- Write lines and end with an outcome. -/
def writeMove (lines : List String) (outcome : Outcome) (state : State) : Move :=
  match state.sink.writeLines lines with
  | (none, sink) => ⟨.done outcome, [], { state with sink }⟩
  | (some fault, sink) => .fault (.output fault) { state with sink }

/-- Declare a name. -/
def declareMove (name : Token) (binding : Binding) (state : State) : Move :=
  match state.declare name binding with
  | .error error => .fault (.runtime error) state
  | .ok state => .normal state

/-- Declare a function. Its body sees its own name. -/
def functionMove (declaration : FunctionDecl Stmt) (state : State) : Move :=
  let scope := state.upon declaration.name.lexeme
  let (id, heap) := state.heap.addFunction ⟨declaration, scope, false⟩
  declareMove declaration.name ⟨.function id, true⟩ { state with heap }

/-- Assign to a name. -/
def assignMove (name : Token) (value : Value) (state : State) : Move :=
  match state.assign name value with
  | .error error => .fault (.runtime error) state
  | .ok state => .value value state

/-- Give a property of a value. -/
def getMove (name : Token) (object : Value) (state : State) : Move :=
  match object with
  | .object id =>
    match state.heap.property? id name.lexeme with
    | none => .fail name (.undefinedProperty name.lexeme) state
    | some (.field value) => .value value state
    | some (.method method) =>
      let (value, state) := state.bindMethodValue method id
      .value value state
  | other => .fail name (.noProperties other.typeName) state

/-- Give the method that `super` names, bound to the receiver. -/
def superMove (keyword method : Token) (state : State) : Move :=
  match state.current.cell? keyword.lexeme with
  | none => .fail keyword .superUnbound state
  | some _ =>
    match state.lookUp state.current keyword with
    | .error error => .fault (.runtime error) state
    | .ok (.cls superclass) =>
      match state.lookUp state.current (thisToken keyword.line) with
      | .error error => .fault (.runtime error) state
      | .ok (.object receiver) =>
        match state.heap.findMethod? superclass method.lexeme with
        | none => .fail method (.undefinedProperty method.lexeme) state
        | some found =>
          let (value, state) := state.bindMethodValue found receiver
          .value value state
      | .ok _ => .fail keyword .thisNotInstance state
    | .ok _ => .fail keyword .superNotClass state

/-- Check that a value can be called with so many arguments, and call it. -/
def invokeMove (callee : Value) (paren : Token) (arguments : List Value) (state : State) : Move :=
  match state.heap.arity? callee with
  | none => .fail paren (.notCallable callee.typeName) state
  | some arity =>
    if arguments.length = arity then ⟨.call callee arguments, [], state⟩
    else .fail paren (.argumentCount arity arguments.length) state

/-- Run the body of a function where it sees its parameters. -/
def enterMove (closure : Closure Environment) (arguments : List Value) (state : State) : Move :=
  let outer := state.current
  let parameters := closure.declaration.params.zip arguments
  let (current, state) := state.allotAll closure.scope.enter parameters
  ⟨.done (.flow .normal), [.block closure.declaration.body outer, .activation closure],
    { state with current }⟩

/-- Make an instance of a class and run its initializer, if it has one. -/
def constructMove (classId : ClassId) (arguments : List Value) (state : State) : Move :=
  let (object, heap) := state.heap.addInstance classId
  match heap.findMethod? classId initializerName with
  | none => .value (.object object) { state with heap }
  | some initializer =>
    let (closure, state) := { state with heap }.bindMethod initializer object
    let move := enterMove closure arguments state
    { move with push := move.push ++ [.construct object] }

/-- Call a native function. -/
def nativeMove (behaviour : NativeBehaviour) (arguments : List Value) (state : State) : Move :=
  match behaviour with
  | .clock =>
    .value (.number (state.clock.readings state.clock.ticks))
      { state with clock := { state.clock with ticks := state.clock.ticks + 1 } }
  | .printLine => writeMove [state.heap.display (arguments.headD .nil)] (.value .nil) state
  | .first => .value (arguments.headD .nil) state
  | .count => .value (.number (Float.ofNat arguments.length)) state
  | .emit => writeMove (arguments.map state.heap.display) (.value .nil) state
  | .fail => .fail nativeToken .nativeFailure state
  | .apply =>
    match arguments with
    | [] => .fail nativeToken .nativeNotCallable state
    | callee :: rest => ⟨.call callee rest, [], state⟩

/-- Call a value, however many arguments it wants. -/
def callMove (callee : Value) (arguments : List Value) (state : State) : Move :=
  match callee with
  | .native id =>
    match state.heap.natives[id]? with
    | some native => nativeMove native.behaviour arguments state
    | none => .fail nativeToken .nativeNotCallable state
  | .function id =>
    match state.heap.functions[id]? with
    | some closure => enterMove closure arguments state
    | none => .fail nativeToken .nativeNotCallable state
  | .cls id => constructMove id arguments state
  | _ => .fail nativeToken .nativeNotCallable state

/-- What the methods of a class see: what is in sight and, where the class has a superclass, that as
`super`. -/
def classScope (superclass : Option ClassId) (state : State) : Environment × State :=
  match superclass with
  | none => (state.current, state)
  | some superclass => state.allot state.current "super" ⟨.cls superclass, true⟩

/-- Make a class and assign it to its name. -/
def defineClass (name : Token) (superclass : Option ClassId) (methods : List (FunctionDecl Stmt))
    (state : State) : Move :=
  let (scope, state) := classScope superclass state
  let (id, heap) :=
    state.heap.addClass ⟨name.lexeme, superclass, methodTable scope methods⟩
  .normal ({ state with heap }.put name.lexeme ⟨.cls id, true⟩)

/-- Declare a class. Its methods see its name. -/
def classMove (name : Token) (superclass : Option ClassId) (methods : List (FunctionDecl Stmt))
    (state : State) : Move :=
  match state.declare name ⟨.nil, true⟩ with
  | .error error => .fault (.runtime error) state
  | .ok state => defineClass name superclass methods state

/-- Begin an expression. -/
def evalMove (expr : Expr) (state : State) : Move :=
  match expr with
  | .literal value => .value value.toValue state
  | .grouping inner => .eval inner [] state
  | .unary operator right => .eval right [.unary operator] state
  | .binary left operator right => .eval left [.binaryLeft operator right] state
  | .logical left operator right => .eval left [.logical operator right] state
  | .variable _ name => .result (state.lookUp state.current name) state
  | .assign id name value => .eval value [.assign id name] state
  | .call callee paren arguments => .eval callee [.callee paren arguments] state
  | .get object name => .eval object [.get name] state
  | .set object name value => .eval object [.setObject name value] state
  | .superExpr _ keyword method => superMove keyword method state
  | .thisExpr _ keyword => .result (state.lookUp state.current keyword) state

/-- Begin a statement. -/
def execMove (stmt : Stmt) (state : State) : Move :=
  match stmt with
  | .expression value => .eval value [.discard] state
  | .print value => .eval value [.print] state
  | .varDecl name none => declareMove name ⟨.nil, true⟩ state
  | .varDecl name (some value) => .eval value [.declare name true] state
  | .letDecl name value => .eval value [.declare name false] state
  | .block body =>
    ⟨.done (.flow .normal), [.block body state.current],
      { state with current := state.current.enter }⟩
  | .ifElse condition thenBranch elseBranch =>
    .eval condition [.branch thenBranch elseBranch] state
  | .whileLoop condition body => .eval condition [.whileTest condition body] state
  | .function declaration => functionMove declaration state
  | .returnStmt _ none => .flow (.returned .nil) state
  | .returnStmt _ (some value) => .eval value [.returning] state
  | .breakStmt _ => .flow .broke state
  | .classDecl name none methods => classMove name none methods state
  | .classDecl name (some superclass) methods =>
    .eval superclass [.superclass name superclass methods] state

/-- The state after a frame is left: the end of a block drops the names of the block. -/
def leave (frame : Frame Environment) (state : State) : State :=
  match frame with
  | .block _ outer => { state with current := outer }
  | _ => state

/-- Leave a frame with an outcome that it does not wait for. -/
def pass (frame : Frame Environment) (outcome : Outcome) (state : State) : Move :=
  ⟨.done outcome, [], leave frame state⟩

/-- Call with the arguments so far, or go on with the next one. -/
def nextArgument (called : Value) (paren : Token) (before : List Value) (after : List Expr)
    (state : State) : Move :=
  match after with
  | [] => invokeMove called paren before state
  | next :: rest => .eval next [.argument called paren before rest] state

/-- Go on with a value. -/
def onValue (frame : Frame Environment) (value : Value) (state : State) : Move :=
  match frame with
  | .unary operator => .result (applyUnary operator value) state
  | .binaryLeft operator right => .eval right [.binaryRight value operator] state
  | .binaryRight left operator => .result (applyBinary state.heap left operator value) state
  | .logical operator right =>
    if decides operator value then .value value state else .eval right [] state
  | .assign _ name => assignMove name value state
  | .callee paren arguments => nextArgument value paren [] arguments state
  | .argument called paren before after =>
    nextArgument called paren (before ++ [value]) after state
  | .get name => getMove name value state
  | .setObject name expr =>
    match value with
    | .object object => .eval expr [.setValue object name] state
    | _ => .fail name .noFields state
  | .setValue object name =>
    .value value { state with heap := state.heap.setField object name.lexeme value }
  | .discard => .normal state
  | .print => writeMove [state.heap.display value] (.flow .normal) state
  | .declare name mutable => declareMove name ⟨value, mutable⟩ state
  | .returning => .flow (.returned value) state
  | .branch thenBranch elseBranch =>
    if value.truthy then .exec thenBranch [] state
    else
      match elseBranch with
      | some elseBranch => .exec elseBranch [] state
      | none => .normal state
  | .whileTest condition body =>
    if value.truthy then .exec body [.whileBody condition body] state else .normal state
  | .superclass name expr methods =>
    match value with
    | .cls id => classMove name (some id) methods state
    | _ => .fail (superclassToken name expr) .superclassNotClass state
  | .construct object => .value (.object object) state
  | other => pass other (.value value) state

/-- Go on after a statement. -/
def onFlow (frame : Frame Environment) (flow : Flow) (state : State) : Move :=
  match frame with
  | .whileBody condition body =>
    match flow with
    | .normal => .eval condition [.whileTest condition body] state
    | .broke => .normal state
    | .returned value => .flow (.returned value) state
  | .block rest outer =>
    match flow, rest with
    | .normal, stmt :: rest => .exec stmt [.block rest outer] state
    | flow, _ => .flow flow { state with current := outer }
  | .activation closure =>
    if closure.isInitializer then
      .result (state.lookUp closure.scope (thisToken closure.declaration.name.line)) state
    else
      match flow with
      | .returned value => .value value state
      | .normal | .broke => .value .nil state
  | .program rest =>
    match rest with
    | [] => .normal state
    | stmt :: rest => .exec stmt [.program rest] state
  | other => pass other (.flow flow) state

/-- Go on with an outcome. -/
def resume (frame : Frame Environment) (outcome : Outcome) (state : State) : Move :=
  match outcome with
  | .value value => onValue frame value state
  | .flow flow => onFlow frame flow state
  | .fault fault => pass frame (.fault fault) state

/-- The next configuration. -/
def step : Config → Config
  | ⟨.eval expr, frames, state⟩ => (evalMove expr state).onto frames
  | ⟨.exec stmt, frames, state⟩ => (execMove stmt state).onto frames
  | ⟨.call callee arguments, frames, state⟩ => (callMove callee arguments state).onto frames
  | ⟨.done outcome, frame :: frames, state⟩ => (resume frame outcome state).onto frames
  | ⟨.done outcome, [], state⟩ => ⟨.done outcome, [], state⟩

/-- The configuration after at most `fuel` steps. -/
def run : Nat → Config → Config
  | 0, config => config
  | fuel + 1, config => if config.isDone then config else run fuel (step config)

end ScopeScript.Lexical
