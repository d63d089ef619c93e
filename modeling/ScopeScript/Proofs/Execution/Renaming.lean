import ScopeScript.Machine.Run
import ScopeScript.Proofs.Scoping.Renaming

/-!
# Runs of renumbered programs

A configuration is renumbered by renumbering the trees in it: what it works on, what its frames
keep, and the code of functions and methods in the heap. It gets another table of bindings along
with that. As long as the two tables say the same about the nodes that come up, a step of the
renumbered configuration is the renumbered step.
-/

namespace ScopeScript

namespace NameMap

variable {α β : Type}

/-- A map with a function applied to every value. -/
def map (g : α → β) (names : NameMap α) : NameMap β :=
  ⟨names.entries.map fun entry => (entry.1, g entry.2)⟩

@[simp] theorem find?_map (g : α → β) (names : NameMap α) (name : String) :
    (names.map g).find? name = (names.find? name).map g := by
  obtain ⟨entries⟩ := names
  simp only [find?, map]
  induction entries with
  | nil => rfl
  | cons entry rest ih =>
      simp only [List.map_cons, findEntry?]
      split
      next => rfl
      next => exact ih

theorem map_insert (g : α → β) (names : NameMap α) (name : String) (value : α) :
    (names.insert name value).map g = (names.map g).insert name (g value) := by
  obtain ⟨entries⟩ := names
  simp only [insert, map, mk.injEq]
  induction entries with
  | nil => rfl
  | cons entry rest ih =>
      simp only [List.map_cons, insertEntry]
      split
      next => rfl
      next => rw [List.map_cons, ih]

@[simp] theorem map_id (names : NameMap α) : names.map id = names := by
  simp [map]

theorem map_congr {g g' : α → β} {names : NameMap α}
    (h : ∀ entry ∈ names.entries, g entry.2 = g' entry.2) : names.map g = names.map g' := by
  have hentries : names.entries.map (fun entry => (entry.1, g entry.2)) =
      names.entries.map (fun entry => (entry.1, g' entry.2)) :=
    List.map_congr_left fun entry hentry => by rw [h entry hentry]
  simp only [map, hentries]

end NameMap

/-! ## Renumbered code -/

section Code

variable {ε : Type} (f : NodeId → NodeId)

/-- A function with other numbers. -/
def Closure.rename (closure : Closure ε) : Closure ε :=
  { closure with declaration := FunctionDecl.rename f closure.declaration }

/-- A class with other numbers in its methods. -/
def Class.rename (cls : Class ε) : Class ε :=
  { cls with methods := cls.methods.map (Closure.rename f) }

/-- A heap with other numbers in its functions and methods. -/
def Heap.rename (heap : Heap ε) : Heap ε :=
  { heap with
    functions := heap.functions.map (Closure.rename f)
    classes := heap.classes.map (Class.rename f) }

/-- A store with other numbers in its functions and methods. -/
def Store.rename (store : Store) : Store :=
  { store with toHeap := store.toHeap.rename f }

/-- A state with other numbers and another table of bindings. -/
def State.rename (locals : Locals) (state : State) : State :=
  { state with store := state.store.rename f, locals }

/-- Work with other numbers. -/
def Control.rename : Control → Control
  | .eval expr => .eval (expr.rename f)
  | .exec stmt => .exec (stmt.rename f)
  | .call callee arguments => .call callee arguments
  | .done outcome => .done outcome

/-- A frame with other numbers. -/
def Frame.rename : Frame ScopeId → Frame ScopeId
  | .binaryLeft operator right => .binaryLeft operator (right.rename f)
  | .logical operator right => .logical operator (right.rename f)
  | .assign id name => .assign (f id) name
  | .callee paren rest => .callee paren (rest.map (Expr.rename f))
  | .argument called paren before after =>
    .argument called paren before (after.map (Expr.rename f))
  | .setObject name value => .setObject name (value.rename f)
  | .branch thenBranch elseBranch =>
    .branch (thenBranch.rename f) (elseBranch.map (Stmt.rename f))
  | .whileTest condition body => .whileTest (condition.rename f) (body.rename f)
  | .whileBody condition body => .whileBody (condition.rename f) (body.rename f)
  | .superclass name expr methods =>
    .superclass name (expr.rename f) (methods.map (FunctionDecl.rename f))
  | .block rest outer => .block (rest.map (Stmt.rename f)) outer
  | .activation closure => .activation (closure.rename f)
  | .program rest => .program (rest.map (Stmt.rename f))
  | frame => frame

/-- A configuration with other numbers and another table of bindings. -/
def Config.rename (locals : Locals) (config : Config) : Config :=
  ⟨config.control.rename f, config.frames.map (Frame.rename f), config.state.rename f locals⟩

/-- A move with other numbers and another table of bindings. -/
def Move.rename (locals : Locals) (move : Move) : Move :=
  ⟨move.control.rename f, move.push.map (Frame.rename f), move.state.rename f locals⟩

/-- The numbers in what is being worked on. -/
def Control.ids : Control → List NodeId
  | .eval expr => expr.ids
  | .exec stmt => stmt.ids
  | .call .. | .done _ => []

/-- The numbers in what a frame keeps. -/
def Frame.ids : Frame ScopeId → List NodeId
  | .binaryLeft _ right | .logical _ right | .setObject _ right => right.ids
  | .assign id _ => [id]
  | .callee _ rest | .argument _ _ _ rest => Expr.idsAll rest
  | .branch thenBranch elseBranch => thenBranch.ids ++ Stmt.idsAll elseBranch.toList
  | .whileTest condition body | .whileBody condition body => condition.ids ++ body.ids
  | .superclass _ expr methods => expr.ids ++ FunctionDecl.idsAll methods
  | .block rest _ | .program rest => Stmt.idsAll rest
  | .activation closure => closure.declaration.ids
  | _ => []

end Code

/-! ## The same numbers -/

section Same

variable {ε : Type}

theorem Closure.rename_id : (Closure.rename id : Closure ε → Closure ε) = id := by
  funext closure
  simp [Closure.rename]

theorem Class.rename_id : (Class.rename id : Class ε → Class ε) = id := by
  funext cls
  simp [Class.rename, Closure.rename_id]

@[simp] theorem Heap.rename_id (heap : Heap ε) : heap.rename id = heap := by
  simp [Heap.rename, Closure.rename_id, Class.rename_id]

theorem State.rename_id (locals : Locals) (state : State) :
    state.rename id locals = { state with locals } := by
  simp [State.rename, Store.rename]

end Same

/-! ## What does not depend on numbers -/

namespace Heap

variable {ε : Type} (f : NodeId → NodeId) (heap : Heap ε)

theorem findMethod?_rename (id : ClassId) (name : String) :
    (heap.rename f).findMethod? id name = (heap.findMethod? id name).map (Closure.rename f) := by
  have hwithin : ∀ fuel id, (heap.rename f).findMethodWithin? name fuel id =
      (heap.findMethodWithin? name fuel id).map (Closure.rename f) := by
    intro fuel
    induction fuel with
    | zero => exact fun _ => rfl
    | succ fuel ih =>
        intro id
        rw [findMethodWithin?, findMethodWithin?, rename, Array.getElem?_map]
        cases heap.classes[id]? with
        | none => rfl
        | some cls =>
            simp only [Option.map_some, Class.rename, NameMap.find?_map]
            cases cls.methods.find? name with
            | some => rfl
            | none =>
                cases cls.superclass with
                | none => rfl
                | some superclass => exact ih superclass
  exact hwithin (id + 1) id


theorem functions_rename (id : FunctionId) :
    (heap.rename f).functions[id]? = heap.functions[id]?.map (Closure.rename f) :=
  Array.getElem?_map

theorem arity?_rename (value : Value) : (heap.rename f).arity? value = heap.arity? value := by
  cases value with
  | function id =>
      simp only [arity?, functions_rename]
      cases heap.functions[id]? <;> simp [Closure.rename]
  | cls id =>
      simp only [arity?, findMethod?_rename]
      cases heap.findMethod? id initializerName <;> simp [Closure.rename]
  | nil | bool | number | string | native | object => rfl

theorem className_rename (id : ClassId) : (heap.rename f).className id = heap.className id := by
  simp only [className, rename, Array.getElem?_map, Option.map_map]
  rfl

theorem display_rename (value : Value) : (heap.rename f).display value = heap.display value := by
  cases value with
  | function id =>
      simp only [display, arity?_rename, functionName, functions_rename]
      cases heap.functions[id]? <;> simp [Closure.rename]
  | cls id => exact heap.className_rename f id
  | object id =>
      simp only [display, instanceClassName, className_rename]
      rfl
  | nil | bool | number | string | native => rfl

theorem applyBinary_rename (left : Value) (operator : Token) (right : Value) :
    applyBinary (heap.rename f) left operator right = applyBinary heap left operator right := by
  simp only [applyBinary, display_rename]

theorem property?_rename (id : InstanceId) (name : String) :
    (heap.rename f).property? id name = (heap.property? id name).map fun property =>
      match property with
      | .field value => .field value
      | .method closure => .method (closure.rename f) := by
  simp only [property?, rename]
  cases heap.instances[id]? with
  | none => rfl
  | some object =>
      dsimp only
      cases object.fields.find? name with
      | some => rfl
      | none =>
          have hfind := heap.findMethod?_rename f object.classId name
          rw [rename] at hfind
          simp only [hfind, Option.map_map]
          rfl

end Heap

namespace Store

variable (f : NodeId → NodeId) (store : Store)

theorem addFunction_rename (closure : Closure ScopeId) :
    (store.rename f).addFunction (closure.rename f) =
      ((store.addFunction closure).1, (store.addFunction closure).2.rename f) := by
  simp [addFunction, withHeap, Heap.addFunction, rename, Heap.rename]

theorem addClass_rename (cls : Class ScopeId) :
    (store.rename f).addClass (cls.rename f) =
      ((store.addClass cls).1, (store.addClass cls).2.rename f) := by
  simp [addClass, withHeap, Heap.addClass, rename, Heap.rename]

theorem bindMethodValue_rename (method : Closure ScopeId) (receiver : InstanceId) :
    (store.rename f).bindMethodValue (method.rename f) receiver =
      ((store.bindMethodValue method receiver).1,
        (store.bindMethodValue method receiver).2.rename f) := by
  simp [bindMethodValue, bindMethod, addFunction, withHeap, Heap.addFunction, rename, Heap.rename,
    addScope, Closure.rename]

theorem holder?_rename (id : ScopeId) (name : String) :
    (store.rename f).holder? id name = store.holder? id name := by
  have hwithin : ∀ fuel id, (store.rename f).holderWithin? name fuel id =
      store.holderWithin? name fuel id := by
    intro fuel
    induction fuel with
    | zero => exact fun _ => rfl
    | succ fuel ih =>
        intro id
        simp only [holderWithin?, ih]
        rfl
  exact hwithin (id + 1) id

theorem ancestor_rename (id : ScopeId) (distance : Nat) :
    (store.rename f).ancestor id distance = store.ancestor id distance := by
  induction distance generalizing id with
  | zero => rfl
  | succ distance ih =>
      simp only [ancestor, ih]
      rfl

theorem getAt_rename (id : ScopeId) (distance : Nat) (name : Token) :
    (store.rename f).getAt id distance name = store.getAt id distance name := by
  simp only [getAt, ancestor_rename]
  rfl

theorem get_rename (id : ScopeId) (name : Token) :
    (store.rename f).get id name = store.get id name := by
  simp only [get, holder?_rename]
  rfl

theorem assignTarget_rename (id : ScopeId) (name : Token) :
    (store.rename f).assignTarget id name = store.assignTarget id name := by
  simp only [assignTarget, holder?_rename]
  rfl

theorem assignTargetAt_rename (id : ScopeId) (distance : Nat) (name : Token) :
    (store.rename f).assignTargetAt id distance name = store.assignTargetAt id distance name := by
  simp only [assignTargetAt, ancestor_rename]
  rfl

end Store

/-! ## Moves -/

section Moves

variable (f : NodeId → NodeId) (locals : Locals) (state : State)

theorem result_rename (result : Except RuntimeError Value) :
    Move.rename f locals (.result result state) = .result result (state.rename f locals) := by
  cases result <;> rfl

theorem writeMove_rename (lines : List String) (outcome : Outcome) :
    (writeMove lines outcome state).rename f locals =
      writeMove lines outcome (state.rename f locals) := by
  simp only [writeMove, State.writeLines, State.rename]
  cases (state.sink.writeLines lines).1 <;> rfl

theorem declareMove_rename (name : Token) (binding : Binding) :
    (declareMove name binding state).rename f locals =
      declareMove name binding (state.rename f locals) := by
  unfold declareMove
  have hcheck : (state.rename f locals).store.checkDeclare (state.rename f locals).current name =
      state.store.checkDeclare state.current name := rfl
  rw [hcheck]
  cases state.store.checkDeclare state.current name <;> rfl

theorem bindMethodValue_rename (method : Closure ScopeId) (receiver : InstanceId) :
    Move.rename f locals (.value (state.store.bindMethodValue method receiver).1
        { state with store := (state.store.bindMethodValue method receiver).2 }) =
      .value ((state.rename f locals).store.bindMethodValue (method.rename f) receiver).1
        { state.rename f locals with
          store :=
            ((state.rename f locals).store.bindMethodValue (method.rename f) receiver).2 } := by
  have hbind := state.store.bindMethodValue_rename f method receiver
  simp only [State.rename, hbind]
  rfl

theorem getMove_rename (name : Token) (object : Value) :
    (getMove name object state).rename f locals = getMove name object (state.rename f locals) := by
  cases object with
  | object id =>
      have hproperty : (state.rename f locals).store.property? id name.lexeme = _ :=
        state.store.toHeap.property?_rename f id name.lexeme
      simp only [getMove, hproperty]
      cases state.store.toHeap.property? id name.lexeme with
      | none => rfl
      | some property =>
          cases property with
          | field => rfl
          | method method => exact bindMethodValue_rename f locals state method id
  | nil | bool | number | string | native | function | cls => rfl

theorem invokeMove_rename (callee : Value) (paren : Token) (arguments : List Value) :
    (invokeMove callee paren arguments state).rename f locals =
      invokeMove callee paren arguments (state.rename f locals) := by
  have harity : (state.rename f locals).store.arity? callee = state.store.toHeap.arity? callee :=
    state.store.toHeap.arity?_rename f callee
  simp only [invokeMove, harity]
  cases state.store.toHeap.arity? callee with
  | none => rfl
  | some arity =>
      dsimp only
      split <;> rfl

theorem enterMove_rename (closure : Closure ScopeId) (arguments : List Value) :
    (enterMove closure arguments state).rename f locals =
      enterMove (closure.rename f) arguments (state.rename f locals) := by
  simp only [enterMove, Closure.rename, FunctionDecl.rename_params, FunctionDecl.rename_body]
  cases (Scope.empty (some closure.scope)).declareAll
      (closure.declaration.params.zip arguments) with
  | error => rfl
  | ok scope => rfl

theorem rename_beneath (move : Move) (frame : Frame ScopeId) :
    Move.rename f locals { move with push := move.push ++ [frame] } =
      { move.rename f locals with push := (move.rename f locals).push ++ [frame.rename f] } := by
  simp [Move.rename]

theorem constructMove_rename (classId : ClassId) (arguments : List Value) :
    (constructMove classId arguments state).rename f locals =
      constructMove classId arguments (state.rename f locals) := by
  have hfind : ((state.rename f locals).store.addInstance classId).2.findMethod? classId
      initializerName = _ :=
    (state.store.addInstance classId).2.toHeap.findMethod?_rename f classId initializerName
  simp only [constructMove, hfind]
  cases (state.store.addInstance classId).2.toHeap.findMethod? classId initializerName with
  | none => rfl
  | some initializer =>
      let bound := (state.store.addInstance classId).2.bindMethod initializer
        (state.store.addInstance classId).1
      have henter := enterMove_rename f locals { state with store := bound.2 } bound.1 arguments
      exact (rename_beneath f locals _ _).trans (by rw [henter]; rfl)

theorem nativeMove_rename (behaviour : NativeBehaviour) (arguments : List Value) :
    (nativeMove behaviour arguments state).rename f locals =
      nativeMove behaviour arguments (state.rename f locals) := by
  have hdisplay : (state.rename f locals).store.display = state.store.toHeap.display :=
    funext (state.store.toHeap.display_rename f)
  cases behaviour with
  | clock | first | count | fail => rfl
  | printLine =>
      simp only [nativeMove, hdisplay]
      exact writeMove_rename ..
  | emit =>
      simp only [nativeMove, hdisplay]
      exact writeMove_rename ..
  | apply => cases arguments <;> rfl

theorem callMove_rename (callee : Value) (arguments : List Value) :
    (callMove callee arguments state).rename f locals =
      callMove callee arguments (state.rename f locals) := by
  cases callee with
  | native id =>
      simp only [callMove]
      have hnative : (state.rename f locals).store.natives[id]? = state.store.natives[id]? := rfl
      rw [hnative]
      cases state.store.natives[id]? with
      | none => rfl
      | some native => exact nativeMove_rename ..
  | function id =>
      simp only [callMove]
      have hfunction : (state.rename f locals).store.functions[id]? = _ :=
        state.store.toHeap.functions_rename f id
      rw [hfunction]
      cases state.store.functions[id]? with
      | none => rfl
      | some closure => exact enterMove_rename ..
  | cls id => exact constructMove_rename ..
  | nil | bool | number | string | object => rfl

theorem methodTable_rename (scope : ScopeId) (methods : List (FunctionDecl Stmt)) :
    methodTable scope (methods.map (FunctionDecl.rename f)) =
      (methodTable scope methods).map (Closure.rename f) := by
  have hfold : ∀ table : NameMap (Closure ScopeId),
      (methods.map (FunctionDecl.rename f)).foldl (fun table method =>
        table.insert method.name.lexeme ⟨method, scope, method.isInitializer⟩)
          (table.map (Closure.rename f)) =
        (methods.foldl (fun table method =>
          table.insert method.name.lexeme ⟨method, scope, method.isInitializer⟩) table).map
            (Closure.rename f) := by
    induction methods with
    | nil => exact fun _ => rfl
    | cons method rest ih =>
        intro table
        rw [List.map_cons, List.foldl_cons, List.foldl_cons, ← ih, NameMap.map_insert]
        simp [Closure.rename]
  exact hfold .empty

theorem defineClass_rename (name : Token) (superclass : Option ClassId)
    (methods : List (FunctionDecl Stmt)) :
    (defineClass name superclass methods state).rename f locals =
      defineClass name superclass (methods.map (FunctionDecl.rename f))
        (state.rename f locals) := by
  have hscope : classScope superclass (state.rename f locals) =
      ((classScope superclass state).1, (classScope superclass state).2.rename f) := by
    cases superclass <;> rfl
  simp only [defineClass, hscope, methodTable_rename]
  generalize classScope superclass state = made
  obtain ⟨scope, store⟩ := made
  have hadd := store.addClass_rename f ⟨name.lexeme, superclass, methodTable scope methods⟩
  simp only [Class.rename] at hadd
  simp only [hadd, Store.assignTarget_rename]
  have hcurrent : (state.rename f locals).current = state.current := rfl
  rw [hcurrent]
  cases (store.addClass ⟨name.lexeme, superclass, methodTable scope methods⟩).2.assignTarget
    state.current name <;> rfl

theorem classMove_rename (name : Token) (superclass : Option ClassId)
    (methods : List (FunctionDecl Stmt)) :
    (classMove name superclass methods state).rename f locals =
      classMove name superclass (methods.map (FunctionDecl.rename f)) (state.rename f locals) := by
  unfold classMove
  have hcheck : (state.rename f locals).store.checkDeclare (state.rename f locals).current name =
      state.store.checkDeclare state.current name := rfl
  rw [hcheck]
  cases state.store.checkDeclare state.current name with
  | some => rfl
  | none => exact defineClass_rename ..

/-! ## Expressions and statements -/

/-- Two tables say the same about some nodes, which have other numbers in the second. -/
def Agrees (l l' : Locals) (ids : List NodeId) : Prop :=
  ∀ id ∈ ids, l'[f id]? = l[id]?

variable {f locals state}

theorem lookUp_rename {id : NodeId} (h : locals[f id]? = state.locals[id]?) (name : Token) :
    (state.rename f locals).lookUp (f id) name = state.lookUp id name := by
  have hlocals : (state.rename f locals).locals[f id]? = state.locals[id]? := h
  simp only [State.lookUp, hlocals]
  cases state.locals[id]? with
  | none => exact state.store.get_rename f state.globals name
  | some distance => exact state.store.getAt_rename f state.current distance name

theorem assignMove_rename {id : NodeId} (h : locals[f id]? = state.locals[id]?) (name : Token)
    (value : Value) :
    (assignMove id name value state).rename f locals =
      assignMove (f id) name value (state.rename f locals) := by
  have htarget : (state.rename f locals).assignTarget (f id) name = state.assignTarget id name := by
    have hlocals : (state.rename f locals).locals[f id]? = state.locals[id]? := h
    simp only [State.assignTarget, hlocals]
    cases state.locals[id]? with
    | none => exact state.store.assignTarget_rename f state.globals name
    | some distance => exact state.store.assignTargetAt_rename f state.current distance name
  simp only [assignMove, htarget]
  cases state.assignTarget id name <;> rfl

theorem superMove_rename {id : NodeId} (h : locals[f id]? = state.locals[id]?)
    (keyword method : Token) :
    (superMove id keyword method state).rename f locals =
      superMove (f id) keyword method (state.rename f locals) := by
  have hlocals : (state.rename f locals).locals[f id]? = state.locals[id]? := h
  have hgetAt : ∀ distance token,
      (state.rename f locals).store.getAt (state.rename f locals).current distance token =
        state.store.getAt state.current distance token :=
    fun distance token => state.store.getAt_rename f state.current distance token
  have hfind : ∀ superclass,
      (state.rename f locals).store.findMethod? superclass method.lexeme = _ :=
    fun superclass => state.store.toHeap.findMethod?_rename f superclass method.lexeme
  simp only [superMove, hlocals, hgetAt, hfind]
  cases state.locals[id]? with
  | none => rfl
  | some distance =>
      dsimp only
      rcases state.store.getAt state.current distance keyword with
        _ | (_ | _ | _ | _ | _ | _ | superclass | _)
      case ok.cls =>
        dsimp only
        rcases state.store.getAt state.current (distance - 1) (thisToken keyword.line) with
          _ | (_ | _ | _ | _ | _ | _ | _ | receiver)
        case ok.object =>
          dsimp only
          cases state.store.toHeap.findMethod? superclass method.lexeme with
          | none => rfl
          | some found => exact bindMethodValue_rename f locals state found receiver
        all_goals rfl
      all_goals rfl

theorem evalMove_rename (expr : Expr) (h : Agrees f state.locals locals expr.ids) :
    (evalMove expr state).rename f locals = evalMove (expr.rename f) (state.rename f locals) := by
  cases expr with
  | «variable» id name =>
      simp only [evalMove, Expr.rename, result_rename]
      rw [lookUp_rename (h id (List.mem_singleton_self id))]
  | thisExpr id keyword =>
      simp only [evalMove, Expr.rename, result_rename]
      rw [lookUp_rename (h id (List.mem_singleton_self id))]
  | superExpr id keyword method => exact superMove_rename (h id (List.mem_singleton_self id)) ..
  | call callee paren arguments =>
      simp only [evalMove, Expr.rename, Expr.renameAll_eq]
      rfl
  | literal | grouping | unary | binary | logical | assign | get | set => rfl

theorem execMove_rename (stmt : Stmt) :
    (execMove stmt state).rename f locals = execMove (stmt.rename f) (state.rename f locals) := by
  cases stmt with
  | varDecl name initializer =>
      cases initializer with
      | none => exact declareMove_rename ..
      | some => rfl
  | function declaration =>
      have hadd := state.store.addFunction_rename f ⟨declaration, state.current, false⟩
      simp only [Closure.rename] at hadd
      simp only [execMove, Stmt.rename, declareMove_rename, FunctionDecl.rename_name]
      simp only [State.rename, hadd]
  | block body =>
      simp only [execMove, Stmt.rename, Stmt.renameAll_eq]
      rfl
  | ifElse condition thenBranch elseBranch => cases elseBranch <;> rfl
  | returnStmt keyword value => cases value <;> rfl
  | classDecl name superclass methods =>
      cases superclass with
      | none =>
          simp only [execMove, Stmt.rename, FunctionDecl.renameAll_eq]
          exact classMove_rename ..
      | some superclass =>
          simp only [execMove, Stmt.rename, FunctionDecl.renameAll_eq]
          rfl
  | expression | print | letDecl | whileLoop | breakStmt => rfl

/-! ## Frames -/

theorem pass_rename (frame : Frame ScopeId) (outcome : Outcome) :
    (frame.pass outcome state).rename f locals =
      (frame.rename f).pass outcome (state.rename f locals) := by
  cases frame <;> rfl

theorem nextArgument_rename (called : Value) (paren : Token) (before : List Value)
    (after : List Expr) :
    (Frame.nextArgument called paren before after state).rename f locals =
      Frame.nextArgument called paren before (after.map (Expr.rename f))
        (state.rename f locals) := by
  cases after with
  | nil => exact invokeMove_rename ..
  | cons => rfl

theorem onValue_rename (frame : Frame ScopeId) (value : Value)
    (h : Agrees f state.locals locals frame.ids) :
    (frame.onValue value state).rename f locals =
      (frame.rename f).onValue value (state.rename f locals) := by
  have hdisplay : (state.rename f locals).store.display value = state.store.toHeap.display value :=
    state.store.toHeap.display_rename f value
  cases frame with
  | unary => exact result_rename ..
  | binaryRight left operator =>
      simp only [Frame.onValue, Frame.rename, result_rename]
      exact congrArg (MoveOf.result · _)
        (state.store.toHeap.applyBinary_rename f left operator value).symm
  | logical operator right =>
      simp only [Frame.onValue, Frame.rename]
      split <;> rfl
  | assign id name => exact assignMove_rename (h id (List.mem_singleton_self id)) name value
  | callee => exact nextArgument_rename ..
  | argument => exact nextArgument_rename ..
  | get => exact getMove_rename ..
  | setObject => cases value <;> rfl
  | print =>
      simp only [Frame.onValue, Frame.rename, hdisplay]
      exact writeMove_rename ..
  | declare => exact declareMove_rename ..
  | branch thenBranch elseBranch =>
      simp only [Frame.onValue, Frame.rename]
      split
      next => rfl
      next => cases elseBranch <;> rfl
  | whileTest condition body =>
      simp only [Frame.onValue, Frame.rename]
      split <;> rfl
  | superclass name expr methods =>
      cases value with
      | cls => exact classMove_rename ..
      | nil | bool | number | string | native | function | object => cases expr <;> rfl
  | block | whileBody | activation | program => exact pass_rename ..
  | binaryLeft | setValue | discard | returning | construct => rfl

theorem onFlow_rename (frame : Frame ScopeId) (flow : Flow) :
    (frame.onFlow flow state).rename f locals =
      (frame.rename f).onFlow flow (state.rename f locals) := by
  cases frame with
  | whileBody => cases flow <;> rfl
  | block rest outer => cases flow <;> cases rest <;> rfl
  | activation closure =>
      simp only [Frame.onFlow, Frame.rename, Closure.rename, FunctionDecl.rename_name]
      split
      next => exact result_rename ..
      next => cases flow <;> rfl
  | program rest => cases rest <;> rfl
  | _ => exact pass_rename ..

theorem resume_rename (frame : Frame ScopeId) (outcome : Outcome)
    (h : Agrees f state.locals locals frame.ids) :
    (frame.resume outcome state).rename f locals =
      (frame.rename f).resume outcome (state.rename f locals) := by
  cases outcome with
  | value value => exact onValue_rename frame value h
  | flow flow => exact onFlow_rename frame flow
  | fault fault => exact pass_rename frame (.fault fault)

end Moves

/-! ## Steps -/

section Steps

variable {f : NodeId → NodeId} {locals : Locals}

theorem onto_rename (move : Move) (frames : List (Frame ScopeId)) :
    Config.rename f locals (move.onto frames) =
      (Move.rename f locals move).onto (frames.map (Frame.rename f)) := by
  simp [Config.rename, Move.rename, MoveOf.onto]

/-- A step of a renumbered configuration is the renumbered step, if the tables agree on the nodes
that it has at hand. -/
theorem step_rename {config : Config}
    (hcontrol : Agrees f config.state.locals locals config.control.ids)
    (hframes : ∀ frame ∈ config.frames, Agrees f config.state.locals locals frame.ids) :
    step (config.rename f locals) = (step config).rename f locals := by
  obtain ⟨control, frames, state⟩ := config
  cases control with
  | eval expr =>
      rw [step, onto_rename, evalMove_rename expr hcontrol]
      rfl
  | exec stmt =>
      rw [step, onto_rename, execMove_rename]
      rfl
  | call callee arguments =>
      rw [step, onto_rename, callMove_rename]
      rfl
  | done outcome =>
      cases frames with
      | nil => rfl
      | cons frame frames =>
          rw [step, onto_rename, resume_rename frame outcome (hframes frame List.mem_cons_self)]
          rfl

theorem outcome?_rename (config : Config) :
    (config.rename f locals).outcome? = config.outcome? := by
  obtain ⟨control, frames, state⟩ := config
  cases control <;> cases frames <;> rfl

end Steps

end ScopeScript
