import ScopeScript.Proofs.Lexical.Naming

/-!
# Functions, classes and calls in the two machines

A function keeps the surroundings of its declaration, with its own name in them; methods keep those
of their class, with the superclass where there is one. A call goes on in these surroundings, with a
scope for the parameters. A method is found by the class of an instance or, with `super`, by the
superclass that the declaration of its class has kept, and is bound to the instance.
-/

namespace ScopeScript.Lexical

variable {points : NodeId → Option Nat → Prop} {w w' : World} {context context' : Context}
  {state : ScopeScript.State} {state' : State} {await : Await}

/-! ## Heaps -/

namespace Meets

theorem withHeap (h : Meets points w context state state') {heap : Heap ScopeId}
    {heap' : Heap Environment} (hgrows : w.store.Grows (w.withHeap heap).store)
    (hmemory : SameMemory points (w.withHeap heap) { state' with heap := heap' }) :
    Meets points (w.withHeap heap) context
      { state with store := { state.store with toHeap := heap } }
      { state' with heap := heap' } := by
  refine ⟨⟨?_, h.same.globals, h.same.locals, hmemory, h.same.sink, h.same.clock⟩, ?_⟩
  · rw [h.same.store]
    rfl
  · exact h.stands.mono (World.withHeap_grows hgrows) fun _ hname => hname

/-- A function is added to both heaps. -/
theorem addFunction (h : Meets points w context state state') {closure : Closure ScopeId}
    {closure' : Closure Environment} (hclosure : SameClosure points w closure closure') :
    ∃ w', w.Follows w' state.current
      ∧ Meets points w' context { state with store := (state.store.addFunction closure).2 }
        { state' with heap := (state'.heap.addFunction closure').2 }
      ∧ (state'.heap.addFunction closure').1 = (state.store.addFunction closure).1 := by
  obtain ⟨store, globals, places, made⟩ := w
  obtain rfl : state.store = store := h.same.store
  refine ⟨_, World.withHeap_follows (.addFunction _ closure), h.withHeap (.addFunction _ closure)
    (h.same.memory.addFunction hclosure), ?_⟩
  exact h.same.memory.heap.functions.size

/-- A class is added to both heaps. -/
theorem addClass (h : Meets points w context state state') {cls : Class ScopeId}
    {cls' : Class Environment} (hcls : SameClass points w cls cls') :
    ∃ w', w.Follows w' state.current
      ∧ Meets points w' context { state with store := (state.store.addClass cls).2 }
        { state' with heap := (state'.heap.addClass cls').2 }
      ∧ (state'.heap.addClass cls').1 = (state.store.addClass cls).1 := by
  obtain ⟨store, globals, places, made⟩ := w
  obtain rfl : state.store = store := h.same.store
  refine ⟨_, World.withHeap_follows (.addClass _ cls), h.withHeap (.addClass _ cls)
    (h.same.memory.addClass hcls), ?_⟩
  exact h.same.memory.heap.classes.size

/-- An instance is added to both heaps. -/
theorem addInstance (h : Meets points w context state state') (classId : ClassId) :
    ∃ w', w.Follows w' state.current
      ∧ Meets points w' context { state with store := (state.store.addInstance classId).2 }
        { state' with heap := (state'.heap.addInstance classId).2 }
      ∧ (state'.heap.addInstance classId).1 = (state.store.addInstance classId).1 := by
  obtain ⟨store, globals, places, made⟩ := w
  obtain rfl : state.store = store := h.same.store
  refine ⟨_, World.withHeap_follows (.addInstance _ classId), h.withHeap (.addInstance _ classId)
    (h.same.memory.addInstance classId), ?_⟩
  exact congrArg Array.size h.same.memory.heap.instances

/-- A field is set in both heaps. -/
theorem setField (h : Meets points w context state state') (id : InstanceId) (name : String)
    (value : Value) :
    ∃ w', w.Follows w' state.current
      ∧ Meets points w' context { state with store := state.store.setField id name value }
        { state' with heap := state'.heap.setField id name value } := by
  obtain ⟨store, globals, places, made⟩ := w
  obtain rfl : state.store = store := h.same.store
  exact ⟨_, World.withHeap_follows (.setField _ id name value),
    h.withHeap (.setField _ id name value) (h.same.memory.setField id name value)⟩

end Meets

/-! ## Methods -/

section Methods

variable {owner : ClassId} {cls : Class ScopeId} {method : Closure ScopeId}
  {method' : Closure Environment} {object : InstanceId}

/-- The machines meet behind the binding of a method, which agrees in both. -/
theorem Meets.bindMethod (h : Meets points w context state state')
    (hmethod : SameMethod points w cls.superclass method method')
    (hdeclares : w.store.Declares owner cls method) (hobject : w.store.InstanceOf object owner)
    (hmade : w.made w.store.scopes.size method object) :
    w.Follows (w.received method object) state.current
      ∧ Meets points (w.received method object) context
        { state with store := (state.store.bindMethod method object).2 }
        (state'.bindMethod method' object).2
      ∧ SameClosure points (w.received method object) (state.store.bindMethod method object).1
        (state'.bindMethod method' object).1 := by
  have hmemory := h.same.memory
  have hlt := h.stands.chain.lt_size hmemory.inside
  have hfollows : w.Follows (w.received method object) w.store.scopes.size :=
    World.nested_follows (Nat.le_refl _)
  refine ⟨hfollows.mono (Nat.le_of_lt hlt), ⟨⟨?_, h.same.globals, h.same.locals, ?_, h.same.sink,
    h.same.clock⟩, ?_⟩, ?_⟩
  · rw [h.same.store]
    exact World.received_store.symm
  · exact (hmemory.nested method.scope "this" ⟨.object object, true⟩).congr rfl rfl rfl
  · exact h.stands.mono hfollows.grows (hfollows.keeps _ hlt)
  · rw [h.same.store]
    exact hmethod.received hdeclares hobject hmade hmemory

/-- A method of the class of an instance is bound to the instance, as a value. -/
theorem bindMethodValue_answers (h : Meets points w context state state')
    (hmethod : SameMethod points w cls.superclass method method')
    (hdeclares : w.store.Declares owner cls method) (hobject : w.store.InstanceOf object owner)
    (hmade : w.made w.store.scopes.size method object) :
    Answers points w .value state.current context
      (.value (state.store.bindMethodValue method object).1
        { state with store := (state.store.bindMethodValue method object).2 })
      (.value (state'.bindMethodValue method' object).1
        (state'.bindMethodValue method' object).2) := by
  obtain ⟨hfollows, hmeets, hclosure⟩ := h.bindMethod hmethod hdeclares hobject hmade
  obtain ⟨w', hfollows', hadded, hid⟩ := hmeets.addFunction hclosure
  have hvalue : (state'.bindMethodValue method' object).1 =
      (state.store.bindMethodValue method object).1 :=
    congrArg Value.function hid
  rw [hvalue]
  exact hadded.value (hfollows.trans hfollows') _

theorem getMove_answers (h : Meets points w context state state') {name : Token} {value : Value}
    {frames : List (Frame ScopeId)}
    (hmade : w.Permits ⟨.done (.value value), .get name :: frames, state⟩) :
    Answers points w .value state.current context (ScopeScript.getMove name value state)
      (getMove name value state') := by
  unfold ScopeScript.getMove getMove
  cases value with
  | nil | bool | number | string | native | function | cls => exact h.fail ..
  | object id =>
      have hheap := h.same.memory.heap
      simp only [Heap.property?, h.same.store, hheap.instances]
      cases hobject : w.store.instances[id]? with
      | none => exact h.fail ..
      | some found =>
          simp only
          cases hfield : found.fields.find? name.lexeme with
          | some field => exact h.value (.refl w _) field
          | none =>
              simp only
              cases hmethod : w.store.findMethod? found.classId name.lexeme with
              | none =>
                  rw [hheap.findMethod?_none hmethod]
                  exact h.fail ..
              | some method =>
                  obtain ⟨method', owner, cls, hmethod', hinherits, hdeclares, hsame⟩ :=
                    hheap.findMethod?_some hmethod
                  rw [hmethod']
                  -- The scope of the receiver is the next one, as the permission says.
                  have hbind : w.made w.store.scopes.size method id := by
                    apply hmade
                    simp [Config.binds?, Heap.property?, h.same.store, hobject, hfield, hmethod]
                  have hanswers := bindMethodValue_answers h hsame hdeclares
                    ⟨found, hobject, hinherits⟩ hbind
                  rw [h.same.store] at hanswers
                  exact hanswers

/-- A name that the context has stands for the same in both machines, by distance and by name. -/
theorem Meets.getAt (h : Meets points w context state state') {name : Token} {distance : Nat}
    {scope : ScopeId} {binding : Binding} (hhops : context.hops? name.lexeme = some distance)
    (hout : w.store.outward? state.current distance = some scope)
    (hbinding : w.store.binding? scope name.lexeme = some binding) :
    state.store.getAt state.current distance name = .ok binding.value
      ∧ state'.lookUp state'.current name = .ok binding.value := by
  obtain ⟨cell, scope', binding', -, -, hout', hbound, hfound⟩ :=
    h.stands.binding?_local h.same.memory hhops
  obtain rfl : scope = scope' := Option.some.inj (hout.symm.trans hout')
  obtain rfl : binding = binding' := Option.some.inj (hbinding.symm.trans hbound)
  rw [h.same.store, State.lookUp, hfound]
  exact ⟨Store.getAt_of_outward? _ hout hbinding, rfl⟩

/-- Where `this` stands, the nearest method around it is bound to a receiver. -/
theorem Meets.thisAt (h : Meets points w context state state') {id : NodeId} {keyword : Token}
    (hscoped : (Expr.thisExpr id keyword).Scoped points context) :
    ∃ distance scope object owner cls method, state.locals[id]? = some distance
      ∧ state.store.outward? state.current distance = some scope ∧ w.made scope method object
      ∧ state.store.Receives scope object owner cls method
      ∧ id ∈ FunctionDecl.ownIds method.declaration := by
  obtain ⟨-, ⟨declaration, hmethod, hown⟩, distance, hthis, hpoint⟩ := hscoped
  obtain ⟨scope, object, owner, cls, method, hout, hmade, hreceives, hmethod', -⟩ :=
    h.stands.chain.receives hthis
  rw [hmethod] at hmethod'
  cases hmethod'
  rw [h.same.store, h.same.locals.known id _ hpoint]
  exact ⟨distance, scope, object, owner, cls, method, rfl, hout, hmade, hreceives, hown⟩

/-- Where `super` stands, it is that of the class whose method is bound to the nearest receiver, and
lies around the receiver. -/
theorem Meets.superAt (h : Meets points w context state state') {id : NodeId}
    {keyword name : Token} (hscoped : (Expr.superExpr id keyword name).Scoped points context) :
    ∃ distance scope object owner cls method superclass,
      state.locals[id]? = some (distance + 1)
        ∧ state.store.outward? state.current distance = some scope ∧ w.made scope method object
        ∧ state.store.Receives scope object owner cls method
        ∧ id ∈ FunctionDecl.ownIds method.declaration
        ∧ cls.superclass = some superclass
        ∧ state.store.binding? method.scope "super" = some ⟨.cls superclass, true⟩ := by
  obtain ⟨-, ⟨declaration, hmethod, hown⟩, distance, hthis, hsuper, hpoint⟩ := hscoped
  obtain ⟨scope, object, owner, cls, method, hout, hmade, hreceives, hmethod', hnext⟩ :=
    h.stands.chain.receives hthis
  obtain ⟨superclass, hsuperclass, hbinding⟩ := hnext hsuper
  rw [hmethod] at hmethod'
  cases hmethod'
  rw [h.same.store, h.same.locals.known id _ hpoint]
  exact ⟨distance, scope, object, owner, cls, method, superclass, rfl, hout, hmade, hreceives, hown,
    hsuperclass, hbinding⟩

theorem superMove_answers (h : Meets points w context state state') {id : NodeId}
    {keyword name : Token} (hscoped : (Expr.superExpr id keyword name).Scoped points context)
    {frames : List (Frame ScopeId)}
    (hmade : w.Permits ⟨.eval (.superExpr id keyword name), frames, state⟩) :
    Answers points w .value state.current context (ScopeScript.superMove id keyword name state)
      (superMove keyword name state') := by
  obtain ⟨hkeyword, -, distance, hthis, hsuper, hpoint⟩ := hscoped
  obtain ⟨scope, object, owner, cls, method, hout, -, hreceives, -, hnext⟩ :=
    h.stands.chain.receives hthis
  obtain ⟨superclass, hsuperclass, hbinding⟩ := hnext hsuper
  have hlocal := h.same.locals.known id _ hpoint
  have hbinding' := hbinding
  rw [← hkeyword] at hsuper hbinding'
  have hlookSuper := (h.getAt hsuper (Store.outward?_parent hout hreceives.around) hbinding').2
  have hthisToken : context.hops? (thisToken keyword.line).lexeme = some distance := hthis
  have hlookThis := (h.getAt hthisToken hout hreceives.this).2
  obtain ⟨cell, -, -, hcell, -⟩ := h.stands.binding?_local h.same.memory hsuper
  -- The receiver is an instance of the class around `super`, hence of the superclass.
  have hobject : w.store.InstanceOf object superclass := by
    obtain ⟨found, hfound, hinherits⟩ := hreceives.member
    exact ⟨found, hfound, hinherits.trans (.up hreceives.declares.found hsuperclass (.self _))⟩
  have hheap := h.same.memory.heap
  rw [← h.same.store] at hout hreceives hbinding
  have hbinds : state.superMethod? id keyword name = _ :=
    superMethod?_eq hkeyword hout hreceives hbinding hlocal
  rw [superMove_eq hkeyword hout hreceives hbinding hlocal]
  simp only [superMove, hcell, hlookSuper, hlookThis]
  cases hmethod : w.store.findMethod? superclass name.lexeme with
  | none =>
      rw [hheap.findMethod?_none hmethod, h.same.store, hmethod]
      exact h.fail ..
  | some found =>
      obtain ⟨found', owner', cls', hfound', hinherits, hdeclares, hsame⟩ :=
        hheap.findMethod?_some hmethod
      obtain ⟨instance', hinstance, hbelow⟩ := hobject
      rw [h.same.store, hmethod] at hbinds
      rw [hfound', h.same.store, hmethod]
      have hanswers := bindMethodValue_answers h hsame hdeclares
        ⟨instance', hinstance, hbelow.trans hinherits⟩ (hmade found object hbinds)
      rw [h.same.store] at hanswers
      exact hanswers

end Methods

/-! ## Calls -/

theorem invokeMove_answers (h : Meets points w context state state') (callee : Value)
    (paren : Token) (arguments : List Value) :
    Answers points w .value state.current context
      (ScopeScript.invokeMove callee paren arguments state)
      (invokeMove callee paren arguments state') := by
  unfold ScopeScript.invokeMove invokeMove
  rw [h.same.memory.heap.arity? callee, h.same.store]
  cases harity : w.store.arity? callee with
  | none => exact h.fail ..
  | some arity =>
      simp only
      split
      next heq => exact h.call (heq ▸ harity)
      next => exact h.fail ..

theorem State.allotAll_current (pairs : List (Token × Value)) (env : Environment) (state : State) :
    (state.allotAll env pairs).2.current = state.current
      ∧ (state.allotAll env pairs).2.sink = state.sink
      ∧ (state.allotAll env pairs).2.clock = state.clock := by
  induction pairs generalizing env state with
  | nil => exact ⟨rfl, rfl, rfl⟩
  | cons pair rest ih => exact ih _ _

/-- The scope of a call sees its parameters and what the function sees. -/
theorem World.Sees.opened {scope : ScopeId} {env : Environment} (h : w.Sees scope context env) :
    (w.opened scope).Stands w.store.scopes.size (.names [] :: context) env.enter := by
  have hgrows := w.opened_grows scope
  have hparent : ((w.opened scope).store.scope w.store.scopes.size).parent = some scope := by
    simp [World.opened, Store.scope_addScope, Scope.empty]
  refine ⟨(h.mono hgrows).layer hparent ?_ env.enter_ne_none ?_ ?_, trivial, ?_⟩
  · exact .names hparent (by simp) (by simp) (hgrows.store.chain hgrows.made h.chain)
  · simp [Layer.bound]
  · exact fun name _ => env.cell?_enter name
  · rintro _ _ ⟨⟩ name hname
    rw [World.opened_new] at hname
    cases hname

theorem enterMove_answers (h : Meets points w context state state') {closure : Closure ScopeId}
    {closure' : Closure Environment} (hclosure : SameClosure points w closure closure')
    {arguments : List Value} (hlength : closure.declaration.params.length = arguments.length) :
    Answers points w .value state.current context
      (ScopeScript.enterMove closure arguments state) (enterMove closure' arguments state') := by
  have hmemory := h.same.memory
  have hlt := h.stands.chain.lt_size hmemory.inside
  obtain ⟨inner, hsees, hscoped, -⟩ := hclosure.scope
  obtain ⟨hnodup, hplain, hbody⟩ := FunctionDecl.scoped_iff.mp hscoped
  -- The scope of the call is made empty and then gets the parameters one by one.
  obtain ⟨pairs, hpairs⟩ : ∃ pairs, closure.declaration.params.zip arguments = pairs := ⟨_, rfl⟩
  have hfst : pairs.map Prod.fst = closure.declaration.params :=
    hpairs ▸ List.map_fst_zip (Nat.le_of_eq hlength)
  have hnames : pairs.map (·.1.lexeme) = closure.declaration.params.map Token.lexeme := by
    rw [← hfst, List.map_map]
    rfl
  have hmem : ∀ pair ∈ pairs, pair.1 ∈ closure.declaration.params := fun pair hpair =>
    hfst ▸ List.mem_map_of_mem hpair
  obtain ⟨scope, w', hdeclare, hstore, hglobals, hfollows, hmemory', hstands⟩ :=
    (hmemory.opened closure.scope).parameters pairs rfl (Nat.ne_of_gt hmemory.inside) hsees.opened
      (hnames ▸ hnodup) (fun pair hpair => hplain _ (hmem pair hpair)) (by simp)
  have hfollows' : w.Follows w' w.store.scopes.size :=
    (World.opened_follows (Nat.le_refl _)).trans hfollows
  have hinside : w'.Stands w.store.scopes.size
      (.names (closure.declaration.params.map Token.lexeme) :: inner)
      (state'.allotAll closure'.scope.enter pairs).1 := by
    apply hstands.congr
    intro name
    rw [hnames]
    simp
  obtain ⟨-, hsink, hclock⟩ := state'.allotAll_current pairs closure'.scope.enter
  refine ⟨w', hfollows'.mono (Nat.le_of_lt hlt), ?_⟩
  intro frames frames' hframes
  unfold ScopeScript.enterMove enterMove
  dsimp only
  rw [hclosure.declaration, hpairs, hdeclare]
  refine ⟨⟨?_, ?_, h.same.locals, hmemory'.congr rfl rfl rfl, ?_, ?_⟩, rfl, _, .flow, _, ?_, .flow,
    .block hbody ?_ ?_ (.frame (.activation (hclosure.mono hfollows'.grows)) hframes)⟩
  · rw [hstore, h.same.store]
    rfl
  · exact h.same.globals.trans hglobals.symm
  · exact hsink.trans h.same.sink
  · exact hclock.trans h.same.clock
  · rw [h.same.store]
    exact hinside
  · rw [h.same.store]
    exact hlt
  · exact h.stands.mono hfollows'.grows (hfollows'.keeps _ hlt)

/-- A move on top of frames that hold one frame more. -/
theorem Answers.push {id : ScopeId} {frame : Frame ScopeId} {frame' : Frame Environment}
    {await' : Await} {move : ScopeScript.Move} {move' : Move}
    (h : Answers points w await id context move move')
    (hframe : ∀ w', w.Grows w' → Waits points w' await context frame frame' await' context') :
    Answers points w await' id context' { move with push := move.push ++ [frame] }
      { move' with push := move'.push ++ [frame'] } := by
  obtain ⟨w', hfollows, hagree⟩ := h
  refine ⟨w', hfollows, ?_⟩
  intro frames frames' hframes
  have hconfig := hagree (frame :: frames) (frame' :: frames')
    (.frame (hframe w' hfollows.grows) hframes)
  simpa [MoveOf.onto] using hconfig

theorem Answers.after {id : ScopeId} {move : ScopeScript.Move} {move' : Move}
    (hfollows : w.Follows w' id) (h : Answers points w' await id context move move') :
    Answers points w await id context move move' := by
  obtain ⟨w'', hfollows', hagree⟩ := h
  exact ⟨w'', hfollows.trans hfollows', hagree⟩

theorem constructMove_answers (h : Meets points w context state state') {classId : ClassId}
    {arguments : List Value} (harity : w.store.arity? (.cls classId) = some arguments.length)
    {frames : List (Frame ScopeId)}
    (hmade : w.Permits ⟨.call (.cls classId) arguments, frames, state⟩) :
    Answers points w .value state.current context
      (ScopeScript.constructMove classId arguments state)
      (constructMove classId arguments state') := by
  obtain ⟨w', hfollows, hmeets, hobject⟩ := h.addInstance classId
  have hheap := hmeets.same.memory.heap
  have hstore : (state.store.addInstance classId).2 = w'.store := hmeets.same.store
  -- Making the instance does not change which initializer the class has.
  have hinit : w'.store.findMethod? classId initializerName =
      w.store.findMethod? classId initializerName := by
    have hclasses : (state.store.addInstance classId).2.classes = state.store.classes := rfl
    rw [← hstore, ← h.same.store]
    exact Heap.findMethod?_congr hclasses classId initializerName
  unfold ScopeScript.constructMove constructMove
  dsimp only
  rw [hobject, hstore]
  cases hmethod : w'.store.findMethod? classId initializerName with
  | none =>
      rw [hheap.findMethod?_none hmethod]
      have hvalue := hmeets.value hfollows (.object (state.store.addInstance classId).1)
      rw [hstore] at hvalue
      exact hvalue
  | some method =>
      obtain ⟨method', owner, cls, hmethod', hinherits, hdeclares, hsame⟩ :=
        hheap.findMethod?_some hmethod
      have hinstance : w'.store.InstanceOf (state.store.addInstance classId).1 owner := by
        refine ⟨⟨classId, .empty⟩, ?_, hinherits⟩
        rw [← hstore]
        simp [Store.addInstance, Store.withHeap, Heap.addInstance]
      have hbind : w'.made w'.store.scopes.size method (state.store.addInstance classId).1 := by
        have hbinds : Config.binds? ⟨.call (.cls classId) arguments, frames, state⟩ =
            some (method, (state.store.addInstance classId).1) := by
          rw [hinit, ← h.same.store] at hmethod
          simp [Config.binds?, hmethod, Store.addInstance, Store.withHeap, Heap.addInstance]
        have hsize : w'.store.scopes.size = w.store.scopes.size := by
          rw [← hstore, ← h.same.store]
          rfl
        rw [hfollows.made, hsize]
        exact hmade _ _ hbinds
      obtain ⟨hfollows', hmeets', hclosure⟩ := hmeets.bindMethod hsame hdeclares hinstance hbind
      have hlength : method.declaration.params.length = arguments.length := by
        rw [Heap.arity?, ← hinit, hmethod] at harity
        exact Option.some.inj harity
      have hframe : ∀ w'', (w'.received method (state.store.addInstance classId).1).Grows w'' →
          Waits points w'' .value context (.construct (state.store.addInstance classId).1)
            (.construct (state.store.addInstance classId).1) .value context :=
        fun _ _ => .construct
      have hanswers := (enterMove_answers hmeets' hclosure hlength).push hframe
      rw [hmethod']
      simp only [hstore] at hanswers hfollows'
      exact .after (hfollows.trans hfollows') hanswers

theorem nativeMove_answers (h : Meets points w context state state') {behaviour : NativeBehaviour}
    (hbehaviour : behaviour = .clock ∨ behaviour = .printLine) (arguments : List Value) :
    Answers points w .value state.current context
      (ScopeScript.nativeMove behaviour arguments state)
      (nativeMove behaviour arguments state') := by
  rcases hbehaviour with rfl | rfl
  · unfold ScopeScript.nativeMove nativeMove ScopeScript.State.readClock
    rw [h.same.clock]
    have hmeets : Meets points w context
        { state with clock := { state.clock with ticks := state.clock.ticks + 1 } }
        { state' with clock := { state.clock with ticks := state.clock.ticks + 1 } } :=
      ⟨⟨h.same.store, h.same.globals, h.same.locals, h.same.memory.congr rfl rfl rfl, h.same.sink,
        rfl⟩, h.stands⟩
    exact hmeets.value (.refl w _) _
  · unfold ScopeScript.nativeMove nativeMove
    simp only [h.same.memory.heap.display, h.same.store]
    exact writeMove_answers h _ .value

theorem callMove_answers (h : Meets points w context state state') {callee : Value}
    {arguments : List Value} (harity : w.store.arity? callee = some arguments.length)
    {frames : List (Frame ScopeId)} (hmade : w.Permits ⟨.call callee arguments, frames, state⟩) :
    Answers points w .value state.current context (ScopeScript.callMove callee arguments state)
      (callMove callee arguments state') := by
  have hheap := h.same.memory.heap
  unfold ScopeScript.callMove callMove
  cases callee with
  | nil | bool | number | string | object => cases harity
  | native id =>
      simp only [h.same.store, hheap.natives]
      cases hnative : w.store.natives[id]? with
      | none => exact h.fail ..
      | some native => exact nativeMove_answers h (hheap.builtin id native hnative) arguments
  | function id =>
      simp only [h.same.store]
      rw [Heap.arity?] at harity
      obtain ⟨closure, hclosure, hlength⟩ := Option.map_eq_some_iff.mp harity
      obtain ⟨closure', hclosure', hsame⟩ := hheap.functions.get id closure hclosure
      rw [hclosure, hclosure']
      exact enterMove_answers h hsame hlength
  | cls id => exact constructMove_answers h harity hmade

/-! ## Declarations of functions and classes -/

theorem State.declare_local {map : NameMap CellId} (hcurrent : state'.current = some map)
    (name : Token) (binding : Binding) :
    state'.declare name binding =
      .ok { state' with
        cells := state'.cells.push binding
        current := state'.current.extend name.lexeme state'.cells.size } := by
  simp [State.declare, hcurrent, State.allot]

/-- A function is declared. Its body sees its own name, which is bound behind the function. -/
theorem functionMove_answers (h : Meets points w context state state')
    {declaration : FunctionDecl Stmt}
    (hscoped : (Stmt.function declaration).Scoped points context) :
    Answers points w .flow state.current (context.declare declaration.name.lexeme)
      (ScopeScript.execMove (.function declaration) state) (functionMove declaration state') := by
  obtain ⟨hplain, hfresh, hfunction⟩ := hscoped
  unfold functionMove State.upon
  simp only [ScopeScript.execMove]
  cases context with
  | nil =>
      -- At the top the name is global, so the environment of the function is the same without it.
      have hclosure : SameClosure points w ⟨declaration, state.current, false⟩
          ⟨declaration, state'.current.map (·.insert declaration.name.lexeme state'.cells.size),
            false⟩ := by
        rw [h.stands.top.mpr rfl]
        have hsees := h.stands.toSees
        rw [h.stands.top.mpr rfl] at hsees
        exact ⟨rfl, rfl, [], hsees, hfunction, fun hfalse => nomatch hfalse⟩
      obtain ⟨w', hfollows, hmeets, hid⟩ := h.addFunction hclosure
      rw [hid]
      exact .after hfollows (declareMove_answers hmeets hplain hfresh _)
  | cons layer outer =>
      cases layer with
      | receiver | inherited => exact hfresh.elim
      | names list =>
          -- The name is bound first and the function added after that, which makes no difference.
          obtain ⟨map, hmap⟩ : ∃ map, state'.current = some map :=
            Option.ne_none_iff_exists'.mp fun heq => nomatch h.stands.top.mp heq
          have hupon : state'.current.map (·.insert declaration.name.lexeme state'.cells.size) =
              state'.current.extend declaration.name.lexeme state'.cells.size := by
            rw [hmap]
            rfl
          obtain ⟨hcheck, -, hfollows, hmeets⟩ := h.declareLocal hplain hfresh
            ⟨.function (state.store.addFunction ⟨declaration, state.current, false⟩).1, true⟩
          have hclosure : SameClosure points _ ⟨declaration, state.current, false⟩
              ⟨declaration, state'.current.extend declaration.name.lexeme state'.cells.size,
                false⟩ :=
            ⟨rfl, rfl, _, hmeets.stands.toSees, hfunction, fun hfalse => nomatch hfalse⟩
          obtain ⟨w', hfollows', hadded, hid⟩ := hmeets.addFunction hclosure
          have hid' : (state'.heap.addFunction ⟨declaration,
              state'.current.extend declaration.name.lexeme state'.cells.size, false⟩).1 =
                (state.store.addFunction ⟨declaration, state.current, false⟩).1 :=
            hid
          have hcheck' :
              (state.store.addFunction ⟨declaration, state.current, false⟩).2.checkDeclare
                state.current declaration.name = none :=
            hcheck
          rw [hupon, hid', ScopeScript.declareMove, hcheck', declareMove]
          have hcurrent : { state' with
              heap := (state'.heap.addFunction ⟨declaration,
                state'.current.extend declaration.name.lexeme state'.cells.size,
                false⟩).2 }.current = some map :=
            hmap
          rw [State.declare_local hcurrent]
          exact hadded.flow (hfollows.trans hfollows') .normal

/-- The methods of a class are declared where the machines see the same. -/
theorem Meets.classScope (h : Meets points w context state state') (superclass : Option ClassId) :
    ∃ w', w.Follows w' state.current
      ∧ Meets points w' context
        { state with store := (ScopeScript.classScope superclass state).2 }
        (Lexical.classScope superclass state').2
      ∧ w'.Sees (ScopeScript.classScope superclass state).1 (context.ofClass superclass.isSome)
        (Lexical.classScope superclass state').1
      ∧ w'.store.Seats superclass (ScopeScript.classScope superclass state).1
        (context.ofClass superclass.isSome)
      ∧ ∀ name, w'.store.binding? state.current name = w.store.binding? state.current name := by
  have hmemory := h.same.memory
  have hlt := h.stands.chain.lt_size hmemory.inside
  cases superclass with
  | none =>
      refine ⟨w, .refl w _, h, h.stands.toSees, ?_, fun _ => rfl⟩
      -- Statements are never executed directly inside the scope of `super`.
      rintro outer rfl
      exact h.stands.opened.elim
  | some superclass =>
      let binding : Binding := ⟨.cls superclass, true⟩
      have hfollows : w.Follows (w.nested state.current "super" binding) w.store.scopes.size :=
        World.nested_follows (Nat.le_refl _)
      have hchain : (w.nested state.current "super" binding).store.Chain w.made w.globals
          w.store.scopes.size (.inherited :: context) :=
        .inherited World.nested_parent World.nested_binding?
          (hfollows.grows.store.chain (fun _ _ _ h => h) h.stands.chain)
      have hsees := h.stands.toSees.nested rfl hchain
      have hstore : (ScopeScript.classScope (some superclass) state).2 =
          (w.nested state.current "super" binding).store := by
        rw [World.nested_store, ← h.same.store]
        rfl
      have hscope : (ScopeScript.classScope (some superclass) state).1 = w.store.scopes.size := by
        rw [← h.same.store]
        rfl
      rw [← hmemory.size] at hsees
      rw [hscope]
      refine ⟨_, hfollows.mono (Nat.le_of_lt hlt), ⟨⟨hstore, h.same.globals, h.same.locals,
        hmemory.nested _ _ _, h.same.sink, h.same.clock⟩, ?_⟩, hsees, ⟨⟨context, rfl⟩,
        World.nested_binding?⟩, ?_⟩
      · exact h.stands.mono hfollows.grows (hfollows.keeps _ hlt)
      · intro name
        rw [World.nested_store, Store.binding?_addScope, if_neg (Nat.ne_of_lt hlt)]

theorem defineClass_answers (h : Meets points w context state state') {name : Token}
    (hplain : name.Plain)
    (hbinding : w.store.binding? state.current name.lexeme = some ⟨.nil, true⟩)
    (hname : context = [] ∨ context.hops? name.lexeme = some 0) {superclass : Option ClassId}
    {methods : List (FunctionDecl Stmt)}
    (hmethods : FunctionDecl.ScopedAll points (context.ofClass superclass.isSome) methods) :
    Answers points w .flow state.current context
      (ScopeScript.defineClass name superclass methods state)
      (defineClass name superclass methods state') := by
  obtain ⟨w₁, hfollows, hmeets, hsees, hseats, hsame⟩ := h.classScope superclass
  have hcls : SameClass points w₁
      ⟨name.lexeme, superclass, methodTable (ScopeScript.classScope superclass state).1 methods⟩
      ⟨name.lexeme, superclass, methodTable (Lexical.classScope superclass state').1 methods⟩ :=
    ⟨rfl, rfl, SameMethods.ofTable hsees hseats hmethods⟩
  obtain ⟨w₂, hfollows', hmeets', hid⟩ := hmeets.addClass hcls
  have hbinding₁ : (ScopeScript.classScope superclass state).2.binding? state.current name.lexeme =
      some ⟨.nil, true⟩ := by
    have hstore : (ScopeScript.classScope superclass state).2 = w₁.store := hmeets.same.store
    rw [hstore, hsame, hbinding]
  have hbinding₂ : w₂.store.binding? state.current name.lexeme = some ⟨.nil, true⟩ := by
    rw [← hmeets'.same.store]
    exact hbinding₁
  have htarget : ((ScopeScript.classScope superclass state).2.addClass ⟨name.lexeme, superclass,
      methodTable (ScopeScript.classScope superclass state).1 methods⟩).2.assignTarget state.current
        name = .ok state.current :=
    Store.assignTarget_here hbinding₁
  -- The class is put where its name was declared: among the globals, or in the current scope.
  have hplace : context.hops? name.lexeme = none ∧ state.current = w₂.globals
      ∨ ∃ cell : CellId, (Lexical.classScope superclass state').2.current.cell? name.lexeme =
        some cell ∧ w₂.places[cell]? = some (state.current, name.lexeme) := by
    rcases hname with rfl | hname
    · exact .inl ⟨rfl, (hmeets'.stands.chain.nil_iff hmeets'.same.memory.root).mp rfl⟩
    · obtain ⟨cell, scope, hcell, hout, hplace⟩ := hmeets'.stands.placed _ _ hname
      cases hout
      exact .inr ⟨cell, hcell, hplace⟩
  have hput := hmeets'.put hplain hbinding₂ hplace
    (.cls ((ScopeScript.classScope superclass state).2.addClass ⟨name.lexeme, superclass,
      methodTable (ScopeScript.classScope superclass state).1 methods⟩).1)
  unfold ScopeScript.defineClass defineClass
  dsimp only
  rw [hid, htarget]
  exact hput.flow (hfollows.trans (hfollows'.trans
    (World.bound_follows_of_some hbinding₂ hplain _ _).1)) .normal

theorem classMove_answers (h : Meets points w context state state') {name : Token}
    (hplain : name.Plain) (hfresh : context.Fresh name.lexeme) {superclass : Option ClassId}
    {methods : List (FunctionDecl Stmt)}
    (hmethods : FunctionDecl.ScopedAll points
      ((context.declare name.lexeme).ofClass superclass.isSome) methods) :
    Answers points w .flow state.current (context.declare name.lexeme)
      (ScopeScript.classMove name superclass methods state)
      (classMove name superclass methods state') := by
  have hlt := h.stands.chain.lt_size h.same.memory.inside
  unfold ScopeScript.classMove classMove
  cases context with
  | nil =>
      rcases h.declareGlobal name ⟨.nil, true⟩ with ⟨error, hcheck, hdeclare⟩ |
        ⟨state₁, hcheck, hdeclare, hfollows, hmeets, -, -⟩
      · rw [hcheck, hdeclare]
        exact h.fault (.refl w _) _
      · rw [hcheck, hdeclare]
        have hbinding : (w.bound w.globals name.lexeme ⟨.nil, true⟩).store.binding? state.current
            name.lexeme = some ⟨.nil, true⟩ := by
          rw [← hmeets.same.store, Store.binding?_bind (h.same.store ▸ hlt), if_pos ⟨rfl, rfl⟩]
        exact .after hfollows (defineClass_answers hmeets hplain hbinding (.inl rfl) hmethods)
  | cons layer outer =>
      cases layer with
      | receiver | inherited => exact hfresh.elim
      | names list =>
          obtain ⟨hcheck, hdeclare, hfollows, hmeets⟩ := h.declareLocal hplain hfresh ⟨.nil, true⟩
          rw [hcheck, hdeclare]
          have hbinding : (w.placed state.current name.lexeme ⟨.nil, true⟩).store.binding?
              state.current name.lexeme = some ⟨.nil, true⟩ := by
            rw [← hmeets.same.store, Store.binding?_bind (h.same.store ▸ hlt), if_pos ⟨rfl, rfl⟩]
          have hhops : Context.hops? name.lexeme (.names (name.lexeme :: list) :: outer) = some 0 :=
            Context.hops?_of_mem (by simp [Layer.bound])
          exact .after hfollows (defineClass_answers hmeets hplain hbinding (.inr hhops) hmethods)

end ScopeScript.Lexical
