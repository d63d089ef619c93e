import ScopeScript.Proofs.Execution.Grounding

/-!
# Steps keep a configuration grounded

What a move hands on it has got from its frame, from a tree or from a grounded store, and what it
adds to the store refers to what was there before. The frames below a move refer to places that are
still there, since a store only grows.
-/

namespace ScopeScript

section Moves

variable {state : State}

theorem State.Grounded.withStore (h : state.Grounded) {store : Store}
    (hstore : store.Grounded state.globals) (hextends : state.store.Extends store) :
    State.Grounded { state with store } :=
  ⟨hstore, Nat.lt_of_lt_of_le h.current hextends.scopes⟩

theorem Move.grounded_fault (h : state.Grounded) (fault : Fault) :
    Move.Grounded (.fault fault state) :=
  ⟨h, trivial, List.forall_mem_nil _⟩

theorem Move.grounded_normal (h : state.Grounded) : Move.Grounded (.normal state) :=
  ⟨h, trivial, List.forall_mem_nil _⟩

theorem Move.grounded_value (h : state.Grounded) {value : Value}
    (hvalue : state.store.Holds value) : Move.Grounded (.value value state) :=
  ⟨h, hvalue, List.forall_mem_nil _⟩

theorem Move.grounded_result (h : state.Grounded) {result : Except RuntimeError Value}
    (hresult : ∀ value, result = .ok value → state.store.Holds value) :
    Move.Grounded (.result result state) := by
  cases result with
  | ok value => exact grounded_value h (hresult value rfl)
  | error => exact grounded_fault h _

/-- A move that puts off nothing. -/
theorem Move.grounded_go (h : state.Grounded) {control : Control}
    (hcontrol : control.Grounded state.store) : Move.Grounded ⟨control, [], state⟩ :=
  ⟨h, hcontrol, List.forall_mem_nil _⟩

/-- A move that puts off nothing but one frame. -/
theorem Move.grounded_push (h : state.Grounded) {control : Control}
    (hcontrol : control.Grounded state.store) {frame : Frame ScopeId}
    (hframe : frame.Grounded state.store) : Move.Grounded ⟨control, [frame], state⟩ := by
  refine ⟨h, hcontrol, ?_⟩
  intro other hother
  obtain rfl := List.mem_singleton.mp hother
  exact hframe

open Move

/-! ## Operators, names and properties -/

theorem applyUnary_holds {operator : Token} {right value : Value}
    (h : applyUnary operator right = .ok value) (store : Store) : store.Holds value := by
  unfold applyUnary at h
  split at h
  next =>
    split at h
    next =>
      cases h
      trivial
    next => cases h
  next =>
    cases h
    trivial
  next => cases h

theorem applyArithmetic_holds {operator : Token} {a b : Float} {value : Value}
    (h : applyArithmetic operator a b = .ok value) (store : Store) : store.Holds value := by
  unfold applyArithmetic at h
  split at h
  all_goals
    cases h
    try trivial

theorem applyBinary_holds {heap : Heap ScopeId} {operator : Token} {left right value : Value}
    (h : applyBinary heap left operator right = .ok value) (store : Store) :
    store.Holds value := by
  unfold applyBinary at h
  split at h
  next =>
    split at h
    all_goals
      cases h
      trivial
  next =>
    cases h
    trivial
  next =>
    cases h
    trivial
  next =>
    split at h
    next => exact applyArithmetic_holds h store
    next => cases h

theorem lookUp_holds (h : state.Grounded) {id : NodeId} {name : Token} {value : Value}
    (hlookUp : state.lookUp id name = .ok value) : state.store.Holds value := by
  unfold State.lookUp at hlookUp
  split at hlookUp
  next => exact h.store.getHere hlookUp
  next =>
    unfold Store.get at hlookUp
    split at hlookUp
    next => exact h.store.getHere hlookUp
    next => cases hlookUp

theorem Store.lt_size_of_checkAssign {store : Store} {id : ScopeId} {name : Token}
    (h : store.checkAssign id name = none) : id < store.scopes.size := by
  unfold checkAssign at h
  split at h
  next => cases h
  next hbinding => exact lt_size_of_binding? hbinding

theorem writeMove_grounded (h : state.Grounded) (lines : List String) {outcome : Outcome}
    (houtcome : (Control.done outcome).Grounded state.store) :
    (writeMove lines outcome state).Grounded := by
  unfold writeMove State.writeLines
  obtain ⟨fault?, sink⟩ := state.sink.writeLines lines
  have hwritten : State.Grounded { state with sink } := ⟨h.store, h.current⟩
  cases fault? with
  | none => exact ⟨hwritten, houtcome, List.forall_mem_nil _⟩
  | some fault => exact grounded_fault hwritten (.output fault)

theorem declareMove_grounded (h : state.Grounded) (name : Token) {binding : Binding}
    (hbinding : state.store.Holds binding.value) :
    (declareMove name binding state).Grounded := by
  unfold declareMove
  split
  next => exact grounded_fault h _
  next =>
    exact grounded_normal (h.withStore (h.store.bind name.lexeme h.current hbinding)
      (.bind _ _ _ _))

theorem assignMove_grounded (h : state.Grounded) (id : NodeId) (name : Token) {value : Value}
    (hvalue : state.store.Holds value) : (assignMove id name value state).Grounded := by
  unfold assignMove
  split
  next => exact grounded_fault h _
  next target htarget =>
    have hlt : target < state.store.scopes.size := by
      unfold State.assignTarget at htarget
      split at htarget
      next => exact Store.lt_size_of_checkAssign (Store.checkAssign_of_targetAt htarget)
      next => exact Store.lt_size_of_checkAssign (Store.checkAssign_of_target htarget)
    have hextends := Store.Extends.bind state.store target name.lexeme ⟨value, true⟩
    exact grounded_value (h.withStore (h.store.bind name.lexeme hlt hvalue) hextends)
      (hextends.holds hvalue)

theorem bindMethodValue_grounded (h : state.Grounded) {method : Closure ScopeId}
    {receiver : InstanceId} (hmethod : method.scope < state.store.scopes.size)
    (hreceiver : receiver < state.store.instances.size) :
    Move.Grounded (.value (state.store.bindMethodValue method receiver).1
      { state with store := (state.store.bindMethodValue method receiver).2 }) := by
  have hbound := h.store.bindMethod hmethod hreceiver
  have hfunction := hbound.addFunction (state.store.bindMethod_scope method receiver)
  refine grounded_value
    (h.withStore hfunction (bindMethodValue_edits state method receiver).extends) ?_
  simp [Store.bindMethodValue, Store.Holds, Store.addFunction, Store.withHeap, Heap.addFunction]

theorem getMove_grounded (h : state.Grounded) (name : Token) {object : Value}
    (hobject : state.store.Holds object) : (getMove name object state).Grounded := by
  unfold getMove
  split
  next =>
    split
    next => exact grounded_fault h _
    next hfield =>
      obtain ⟨found, hfound, hvalue⟩ := Heap.property?_field hfield
      exact grounded_value h (h.store.fields found (Array.mem_of_getElem? hfound) _ _ hvalue)
    next hmethod =>
      obtain ⟨_, _, -, hdeclares⟩ := Heap.property?_declares hmethod
      exact bindMethodValue_grounded h (h.store.declares hdeclares) hobject
  next => exact grounded_fault h _

theorem superMove_grounded (h : state.Grounded) (id : NodeId) (keyword name : Token) :
    (superMove id keyword name state).Grounded := by
  unfold superMove
  split
  next => exact grounded_fault h _
  next =>
    split
    next => exact grounded_fault h _
    next =>
      split
      next => exact grounded_fault h _
      next hreceiver =>
        split
        next => exact grounded_fault h _
        next hfound =>
          exact bindMethodValue_grounded h (h.store.findMethod? hfound) (h.store.getHere hreceiver)
      next => exact grounded_fault h _
    next => exact grounded_fault h _

/-! ## Calls -/

theorem invokeMove_grounded (h : state.Grounded) {callee : Value} (paren : Token)
    {arguments : List Value} (hcallee : state.store.Holds callee)
    (harguments : ∀ value ∈ arguments, state.store.Holds value) :
    (invokeMove callee paren arguments state).Grounded := by
  unfold invokeMove
  split
  next => exact grounded_fault h _
  next =>
    split
    next => exact grounded_go h ⟨hcallee, harguments⟩
    next => exact grounded_fault h _

/-- A scope that binds nothing but arguments is around none that is not there. -/
theorem declareAll_holdsScope {store : Store} {pairs : List (Token × Value)} {scope scope' : Scope}
    (h : scope.declareAll pairs = .ok scope') (hscope : store.HoldsScope scope)
    (hpairs : ∀ pair ∈ pairs, store.Holds pair.2) : store.HoldsScope scope' := by
  induction pairs generalizing scope with
  | nil =>
      cases h
      exact hscope
  | cons pair rest ih =>
      obtain ⟨name, value⟩ := pair
      rw [Scope.declareAll] at h
      split at h
      next => cases h
      next =>
        refine ih h ⟨hscope.parent, ?_⟩
          fun other hother => hpairs other (List.mem_cons_of_mem _ hother)
        intro asked binding hbinding
        rw [Scope.bind, NameMap.find?_insert] at hbinding
        split at hbinding
        next =>
          cases hbinding
          exact hpairs (name, value) List.mem_cons_self
        next => exact hscope.bindings asked binding hbinding

theorem enterMove_grounded (h : state.Grounded) {closure : Closure ScopeId}
    {arguments : List Value} (hclosure : closure.scope < state.store.scopes.size)
    (harguments : ∀ value ∈ arguments, state.store.Holds value) :
    (enterMove closure arguments state).Grounded := by
  unfold enterMove
  dsimp only
  split
  next => exact grounded_fault h _
  next scope hscope =>
    have hholds : state.store.HoldsScope scope := by
      refine declareAll_holdsScope hscope ⟨⟨closure.scope, rfl, hclosure⟩, nofun⟩ ?_
      intro pair hpair
      exact harguments pair.2 (List.of_mem_zip hpair).2
    have hextends := Store.Extends.addScope state.store scope
    refine ⟨⟨h.store.addScope hholds, by simp [Store.addScope]⟩, trivial, ?_⟩
    intro frame hframe
    rcases List.mem_cons.mp hframe with rfl | hframe
    · exact Nat.lt_of_lt_of_le h.current hextends.scopes
    · obtain rfl := List.mem_singleton.mp hframe
      exact Nat.lt_of_lt_of_le hclosure hextends.scopes

theorem constructMove_grounded (h : state.Grounded) {classId : ClassId} {arguments : List Value}
    (hclass : classId < state.store.classes.size)
    (harguments : ∀ value ∈ arguments, state.store.Holds value) :
    (constructMove classId arguments state).Grounded := by
  have hextends := Store.Extends.addInstance state.store classId
  have hadded := h.store.addInstance hclass
  have hobject : (state.store.addInstance classId).1 <
      (state.store.addInstance classId).2.instances.size := by
    simp [Store.addInstance, Store.withHeap, Heap.addInstance]
  unfold constructMove
  dsimp only
  split
  next => exact grounded_value (h.withStore hadded hextends) hobject
  next initializer hinitializer =>
    -- The initializer runs in a scope inside one with the new instance as its receiver.
    have hbound := hadded.bindMethod (hadded.findMethod? hinitializer) hobject
    have hextends' := hextends.trans (Store.Extends.bindMethod _ initializer
      (state.store.addInstance classId).1)
    let state' := { state with store := ((state.store.addInstance classId).2.bindMethod initializer
      (state.store.addInstance classId).1).2 }
    have hstate' : state'.Grounded := h.withStore hbound hextends'
    have henter := enterMove_grounded hstate' (Store.bindMethod_scope _ initializer _)
      fun value hvalue => hextends'.holds (harguments value hvalue)
    have hextends'' := (enterMove_edits state' ((state.store.addInstance classId).2.bindMethod
      initializer (state.store.addInstance classId).1).1 arguments).extends
    refine ⟨henter.state, henter.control, ?_⟩
    intro frame hframe
    rcases List.mem_append.mp hframe with hframe | hframe
    · exact henter.push frame hframe
    · obtain rfl := List.mem_singleton.mp hframe
      exact Nat.lt_of_lt_of_le hobject hextends''.instances

theorem nativeMove_grounded (h : state.Grounded) (behaviour : NativeBehaviour)
    {arguments : List Value} (harguments : ∀ value ∈ arguments, state.store.Holds value) :
    (nativeMove behaviour arguments state).Grounded := by
  have hfirst : state.store.Holds (arguments.headD .nil) := by
    cases arguments with
    | nil => trivial
    | cons first => exact harguments first List.mem_cons_self
  cases behaviour with
  | clock => exact ⟨⟨h.store, h.current⟩, trivial, List.forall_mem_nil _⟩
  | printLine =>
      refine writeMove_grounded h _ ?_
      exact True.intro
  | first => exact grounded_value h hfirst
  | count => exact grounded_go h (by trivial)
  | emit =>
      refine writeMove_grounded h _ ?_
      exact True.intro
  | fail => exact grounded_fault h _
  | apply =>
      cases arguments with
      | nil => exact grounded_fault h _
      | cons => exact grounded_go h ⟨hfirst, fun value hvalue =>
          harguments value (List.mem_cons_of_mem _ hvalue)⟩

theorem callMove_grounded (h : state.Grounded) {callee : Value} {arguments : List Value}
    (hcallee : state.store.Holds callee)
    (harguments : ∀ value ∈ arguments, state.store.Holds value) :
    (callMove callee arguments state).Grounded := by
  unfold callMove
  split
  next =>
    split
    next => exact nativeMove_grounded h _ harguments
    next => exact grounded_fault h _
  next =>
    split
    next closure hclosure =>
      exact enterMove_grounded h (h.store.functions closure (Array.mem_of_getElem? hclosure))
        harguments
    next => exact grounded_fault h _
  next => exact constructMove_grounded h hcallee harguments
  next => exact grounded_fault h _

/-! ## Classes -/

theorem classScope_grounded (h : state.Grounded) {superclass : Option ClassId}
    (hsuperclass : ∀ id, superclass = some id → id < state.store.classes.size) :
    (classScope superclass state).2.Grounded state.globals
      ∧ (classScope superclass state).1 < (classScope superclass state).2.scopes.size := by
  cases superclass with
  | none => exact ⟨h.store, h.current⟩
  | some superclass =>
      refine ⟨h.store.addScope ⟨⟨state.current, rfl, h.current⟩, ?_⟩,
        by simp [classScope, Store.addScope]⟩
      intro name binding hbinding
      rw [Scope.bind, NameMap.find?_insert] at hbinding
      split at hbinding
      next =>
        cases hbinding
        exact hsuperclass superclass rfl
      next => cases hbinding

theorem defineClass_grounded (h : state.Grounded) (name : Token) {superclass : Option ClassId}
    (hsuperclass : ∀ id, superclass = some id → id < state.store.classes.size)
    (methods : List (FunctionDecl Stmt)) :
    (defineClass name superclass methods state).Grounded := by
  obtain ⟨hscope, hlt⟩ := classScope_grounded h hsuperclass
  have hextends := (classScope_edits state superclass).extends
  unfold defineClass
  generalize classScope superclass state = made at hscope hlt hextends ⊢
  obtain ⟨scope, store⟩ := made
  let cls : Class ScopeId := ⟨name.lexeme, superclass, methodTable scope methods⟩
  have hadded : (store.addClass cls).2.Grounded state.globals := by
    refine hscope.addClass
      (fun id hid => Nat.lt_of_lt_of_le (hsuperclass id hid) hextends.classes) ?_
    intro asked method hmethod
    obtain ⟨_, -, rfl⟩ := find?_methodTable hmethod
    exact hlt
  have hextends' := hextends.trans (.addClass store cls)
  have hid : (store.addClass cls).2.Holds (.cls (store.addClass cls).1) := by
    simp [Store.addClass, Store.Holds, Store.withHeap, Heap.addClass]
  dsimp only
  split
  next => exact grounded_fault (h.withStore hadded hextends') _
  next target htarget =>
    have htargetLt := Store.lt_size_of_checkAssign (Store.checkAssign_of_target htarget)
    exact grounded_normal (h.withStore (hadded.bind name.lexeme htargetLt hid)
      (hextends'.trans (.bind _ _ _ _)))

theorem classMove_grounded (h : state.Grounded) (name : Token) {superclass : Option ClassId}
    (hsuperclass : ∀ id, superclass = some id → id < state.store.classes.size)
    (methods : List (FunctionDecl Stmt)) :
    (classMove name superclass methods state).Grounded := by
  unfold classMove
  split
  next => exact grounded_fault h _
  next =>
    have hnil : state.store.Holds (Binding.mk .nil true).value := trivial
    have hbound := h.store.bind name.lexeme h.current hnil
    exact defineClass_grounded (h.withStore hbound (.bind _ _ _ _)) name hsuperclass methods

/-! ## Expressions and statements -/

theorem evalMove_grounded (h : state.Grounded) (expr : Expr) :
    (evalMove expr state).Grounded := by
  cases expr with
  | literal value => cases value <;> exact grounded_go h (by trivial)
  | grouping => exact grounded_go h (by trivial)
  | «variable» | thisExpr => exact grounded_result h fun _ => lookUp_holds h
  | superExpr => exact superMove_grounded h ..
  | unary | binary | logical | assign | call | get | set =>
      refine grounded_push h ?_ ?_ <;> exact True.intro

theorem blockMove_grounded (h : state.Grounded) (body : List Stmt) :
    (execMove (.block body) state).Grounded := by
  have hscope : state.store.HoldsScope (.empty (some state.current)) :=
    ⟨⟨state.current, rfl, h.current⟩, nofun⟩
  have hextends := Store.Extends.addScope state.store (.empty (some state.current))
  have hinner : State.Grounded { state with
      current := (state.store.addScope (.empty (some state.current))).1
      store := (state.store.addScope (.empty (some state.current))).2 } :=
    ⟨h.store.addScope hscope, by simp [Store.addScope]⟩
  exact grounded_push hinner (by trivial) (Nat.lt_of_lt_of_le h.current hextends.scopes)

theorem functionMove_grounded (h : state.Grounded) (declaration : FunctionDecl Stmt) :
    (execMove (.function declaration) state).Grounded := by
  have hscope : (Closure.mk declaration state.current false).scope < state.store.scopes.size :=
    h.current
  have hadded := h.withStore (h.store.addFunction hscope) (.addFunction _ _)
  refine declareMove_grounded hadded declaration.name ?_
  simp [Store.addFunction, Store.Holds, Store.withHeap, Heap.addFunction]

theorem execMove_grounded (h : state.Grounded) (stmt : Stmt) :
    (execMove stmt state).Grounded := by
  cases stmt with
  | varDecl name initializer =>
      cases initializer with
      | none => exact declareMove_grounded h name (by trivial)
      | some => refine grounded_push h ?_ ?_ <;> exact True.intro
  | block body => exact blockMove_grounded h body
  | function declaration => exact functionMove_grounded h declaration
  | returnStmt keyword value =>
      cases value with
      | none => exact grounded_go h (by trivial)
      | some => refine grounded_push h ?_ ?_ <;> exact True.intro
  | breakStmt => exact grounded_go h (by trivial)
  | classDecl name superclass methods =>
      cases superclass with
      | none => exact classMove_grounded h name (by rintro _ ⟨⟩) methods
      | some => refine grounded_push h ?_ ?_ <;> exact True.intro
  | expression | print | letDecl | ifElse | whileLoop =>
      refine grounded_push h ?_ ?_ <;> exact True.intro

/-! ## Frames -/

theorem leave_grounded (h : state.Grounded) {frame : Frame ScopeId}
    (hframe : frame.Grounded state.store) : (frame.leave state).Grounded := by
  cases frame with
  | block => exact ⟨h.store, hframe⟩
  | _ => exact h

theorem pass_grounded (h : state.Grounded) {frame : Frame ScopeId}
    (hframe : frame.Grounded state.store) {outcome : Outcome}
    (houtcome : (Control.done outcome).Grounded state.store) :
    (frame.pass outcome state).Grounded := by
  refine ⟨leave_grounded h hframe, ?_, List.forall_mem_nil _⟩
  cases frame <;> exact houtcome

theorem nextArgument_grounded (h : state.Grounded) {called : Value} (paren : Token)
    {before : List Value} (after : List Expr) (hcalled : state.store.Holds called)
    (hbefore : ∀ value ∈ before, state.store.Holds value) :
    (Frame.nextArgument called paren before after state).Grounded := by
  cases after with
  | nil => exact invokeMove_grounded h paren hcalled hbefore
  | cons => exact grounded_push h (by trivial) ⟨hcalled, hbefore⟩

theorem onValue_grounded (h : state.Grounded) {frame : Frame ScopeId}
    (hframe : frame.Grounded state.store) {value : Value} (hvalue : state.store.Holds value) :
    (frame.onValue value state).Grounded := by
  cases frame with
  | unary => exact grounded_result h fun _ hresult => applyUnary_holds hresult _
  | binaryLeft => exact grounded_push h (by trivial) hvalue
  | binaryRight => exact grounded_result h fun _ hresult => applyBinary_holds hresult _
  | logical =>
      simp only [Frame.onValue]
      split
      next => exact grounded_value h hvalue
      next => exact grounded_go h (by trivial)
  | assign => exact assignMove_grounded h _ _ hvalue
  | callee => exact nextArgument_grounded h _ _ hvalue (List.forall_mem_nil _)
  | argument called paren before =>
      refine nextArgument_grounded h _ _ hframe.1 ?_
      intro other hother
      rcases List.mem_append.mp hother with hother | hother
      · exact hframe.2 other hother
      · obtain rfl := List.mem_singleton.mp hother
        exact hvalue
  | get => exact getMove_grounded h _ hvalue
  | setObject =>
      cases value with
      | object => exact grounded_push h (by trivial) hvalue
      | nil | bool | number | string | native | function | cls => exact grounded_fault h _
  | setValue object name =>
      have hextends := Store.Extends.setField state.store object name.lexeme value
      exact grounded_value (h.withStore (h.store.setField object name.lexeme hvalue) hextends)
        (hextends.holds hvalue)
  | discard => exact grounded_normal h
  | print =>
      refine writeMove_grounded h _ ?_
      exact True.intro
  | declare => exact declareMove_grounded h _ hvalue
  | returning => exact grounded_go h hvalue
  | branch thenBranch elseBranch =>
      simp only [Frame.onValue]
      split
      next => exact grounded_go h (by trivial)
      next => cases elseBranch <;> exact grounded_go h (by trivial)
  | whileTest =>
      simp only [Frame.onValue]
      split
      next => refine grounded_push h ?_ ?_ <;> exact True.intro
      next => exact grounded_normal h
  | superclass name expr methods =>
      cases value with
      | cls =>
          refine classMove_grounded h name ?_ methods
          rintro _ ⟨⟩
          exact hvalue
      | nil | bool | number | string | native | function | object => exact grounded_fault h _
  | construct => exact grounded_value h hframe
  | block | whileBody | activation | program => exact pass_grounded h hframe hvalue

theorem onFlow_grounded (h : state.Grounded) {frame : Frame ScopeId}
    (hframe : frame.Grounded state.store) {flow : Flow}
    (hflow : (Control.done (.flow flow)).Grounded state.store) :
    (frame.onFlow flow state).Grounded := by
  cases frame with
  | whileBody =>
      cases flow with
      | normal => refine grounded_push h ?_ ?_ <;> exact True.intro
      | broke => exact grounded_normal h
      | returned => exact grounded_go h hflow
  | block rest outer =>
      have hleft : State.Grounded { state with current := outer } := ⟨h.store, hframe⟩
      cases flow with
      | normal =>
          cases rest with
          | nil => exact grounded_go hleft hflow
          | cons => exact grounded_push h (by trivial) hframe
      | returned | broke => cases rest <;> exact grounded_go hleft hflow
  | activation =>
      simp only [Frame.onFlow]
      split
      next => exact grounded_result h fun _ => h.store.getHere
      next =>
        cases flow with
        | returned => exact grounded_value h hflow
        | normal | broke => exact grounded_value h trivial
  | program rest =>
      cases rest with
      | nil => exact grounded_normal h
      | cons => refine grounded_push h ?_ ?_ <;> exact True.intro
  | _ => exact pass_grounded h hframe hflow

theorem resume_grounded (h : state.Grounded) {frame : Frame ScopeId}
    (hframe : frame.Grounded state.store) {outcome : Outcome}
    (houtcome : (Control.done outcome).Grounded state.store) :
    (frame.resume outcome state).Grounded := by
  cases outcome with
  | value => exact onValue_grounded h hframe houtcome
  | flow => exact onFlow_grounded h hframe houtcome
  | fault => exact pass_grounded h hframe houtcome

end Moves

/-! ## Steps -/

theorem Move.Grounded.onto {move : Move} (h : move.Grounded) {frames : List (Frame ScopeId)}
    (hframes : ∀ frame ∈ frames, frame.Grounded move.state.store) :
    Config.Grounded (move.onto frames) := by
  refine ⟨h.state, h.control, ?_⟩
  intro frame hframe
  rcases List.mem_append.mp hframe with hframe | hframe
  · exact h.push frame hframe
  · exact hframes frame hframe

/-- A step leads from a grounded configuration to a grounded one. -/
theorem Config.Grounded.step {config : Config} (h : config.Grounded) : (step config).Grounded := by
  have hextends := (step_edits config).extends
  obtain ⟨control, frames, state⟩ := config
  obtain ⟨hstate, hcontrol, hframes⟩ := h
  cases control with
  | eval expr =>
      exact (evalMove_grounded hstate expr).onto fun frame hframe =>
        (hframes frame hframe).extend hextends
  | exec stmt =>
      exact (execMove_grounded hstate stmt).onto fun frame hframe =>
        (hframes frame hframe).extend hextends
  | call callee arguments =>
      exact (callMove_grounded hstate hcontrol.1 hcontrol.2).onto fun frame hframe =>
        (hframes frame hframe).extend hextends
  | done outcome =>
      cases frames with
      | nil => exact ⟨hstate, hcontrol, hframes⟩
      | cons frame frames =>
          have hresume := resume_grounded hstate (hframes frame List.mem_cons_self) hcontrol
          exact hresume.onto fun below hbelow =>
            (hframes below (List.mem_cons_of_mem _ hbelow)).extend hextends

end ScopeScript
